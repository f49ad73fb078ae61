import ObjectGraph.Value.Cell

/-!
# The ascending order of values

The values of a sortable type are in a linear order. For floating-point values it is the
total order of their patterns, in which `-0.0` stands directly below `0.0`. As grouping
keys both are `0.0`; `foldZero` does this to values and leaves all others as they are, so
it keeps the order. A grouping key is the same, except of a signaling NaN.
-/

namespace ObjectGraph

namespace Binary.Pattern

variable {f : Format} {v w : Pattern f}

theorem magnitudeLimit_pos (f : Format) : 0 < f.magnitudeLimit := by
  rw [Format.magnitudeLimit, Nat.one_shiftLeft]
  exact Nat.two_pow_pos _

theorem toNat_bits_lt (v : Pattern f) : v.bits.toNat < 2 * f.magnitudeLimit := by
  have hwidth : 2 ^ f.width = 2 * f.magnitudeLimit := by
    rw [Format.magnitudeLimit, Nat.one_shiftLeft, Format.width, Nat.add_assoc, Nat.pow_add,
      Nat.pow_one]
  exact hwidth ▸ v.bits.isLt

/-- The sign and the magnitude of a pattern are all of it. -/
theorem toNat_bits (v : Pattern f) :
    v.bits.toNat = (if v.isNegative then f.magnitudeLimit else 0) + v.magnitude := by
  have hlt := v.toNat_bits_lt
  rw [isNegative, magnitude]
  by_cases hnegative : f.magnitudeLimit ≤ v.bits.toNat
  · rw [Nat.mod_eq_sub_mod hnegative, Nat.mod_eq_of_lt (by omega)]
    simp only [hnegative, decide_true, if_true]
    omega
  · rw [Nat.mod_eq_of_lt (by omega)]
    simp [hnegative]

/-- Different patterns have different places. -/
theorem eq_of_place_eq (h : v.place = w.place) : v = w := by
  have hparts : v.isNegative = w.isNegative ∧ v.magnitude = w.magnitude := by
    unfold place at h
    cases hv : v.isNegative <;> cases hw : w.isNegative <;> simp [hv, hw] at h ⊢ <;> omega
  have hbits : v.bits.toNat = w.bits.toNat := by
    rw [toNat_bits, toNat_bits, hparts.1, hparts.2]
  obtain ⟨v⟩ := v
  obtain ⟨w⟩ := w
  exact congrArg mk (BitVec.eq_of_toNat_eq hbits)

instance : Std.TransCmp (totalOrder (f := f)) :=
  inferInstanceAs (Std.TransCmp (compareOn place))

instance : Std.LawfulEqCmp (totalOrder (f := f)) where
  compare_self := Std.compare_self
  eq_of_compare := fun h => eq_of_place_eq (Std.LawfulEqOrd.eq_of_compare h)

/-- Positive zero for either zero, any other value as it is. -/
def foldZero (v : Pattern f) : Pattern f :=
  if v.isZero then ⟨0⟩ else v

/-- A NaN without the bit that makes it quiet. -/
def isSignaling (v : Pattern f) : Bool :=
  v.isNaN && !v.bits.getLsbD (f.fractionBits - 1)

theorem place_zero : (⟨0⟩ : Pattern f).place = 0 := by
  simp [place, isNegative, magnitude, Nat.ne_of_gt (magnitudeLimit_pos f)]

/-- Both zeros get the place of positive zero, and nothing stands between them. -/
theorem place_foldZero (v : Pattern f) :
    v.foldZero.place = if v.place = -1 then 0 else v.place := by
  rw [foldZero]
  by_cases hzero : v.isZero = true
  · have hmagnitude : v.magnitude = 0 := by simpa [isZero] using hzero
    rw [if_pos hzero, place_zero, place, hmagnitude]
    split <;> rfl
  · have hmagnitude : v.magnitude ≠ 0 := by simpa [isZero] using hzero
    rw [if_neg hzero, if_neg]
    unfold place
    split <;> omega

theorem isLE_totalOrder_iff : (v.totalOrder w).isLE = true ↔ v.place ≤ w.place :=
  Int.isLE_compare

theorem isLE_foldZero (h : (v.totalOrder w).isLE = true) :
    (v.foldZero.totalOrder w.foldZero).isLE = true := by
  rw [isLE_totalOrder_iff] at h ⊢
  rw [place_foldZero, place_foldZero]
  split <;> split <;> omega

/-! ### The sum with positive zero -/

theorem eq_of_getLsbD_eq (h : ∀ k, v.bits.getLsbD k = w.bits.getLsbD k) : v = w := by
  obtain ⟨v⟩ := v
  obtain ⟨w⟩ := w
  exact congrArg mk (BitVec.eq_of_getLsbD_eq fun k _ => h k)

/-- The value with its quiet bit set. -/
def quieted (v : Pattern f) : Pattern f :=
  ⟨v.bits ||| 1#f.width <<< (f.fractionBits - 1)⟩

/-- A format that has a NaN has a fraction. -/
theorem fractionBits_pos (h : v.isNaN = true) : 0 < f.fractionBits := by
  rw [Nat.pos_iff_ne_zero]
  intro hzero
  have hfraction : v.fraction = 0 := by
    rw [fraction, hzero]
    exact Nat.mod_one _
  rw [isNaN, hfraction, bne_self_eq_false, Bool.and_false] at h
  cases h

theorem getLsbD_quieted (h : 0 < f.fractionBits) (k : Nat) : v.quieted.bits.getLsbD k =
    (v.bits.getLsbD k || decide (k = f.fractionBits - 1)) := by
  have hwidth : f.width = 1 + f.exponentBits + f.fractionBits := rfl
  have hbit : (1#f.width <<< (f.fractionBits - 1)).getLsbD k = decide (k = f.fractionBits - 1) := by
    rw [BitVec.getLsbD_shiftLeft, BitVec.getLsbD_one, Bool.eq_iff_iff]
    simp only [Bool.and_eq_true, Bool.not_eq_true', decide_eq_true_eq, decide_eq_false_iff_not]
    omega
  rw [quieted, BitVec.getLsbD_or, hbit]

theorem quieted_of_getLsbD (hnan : v.isNaN = true)
    (hquiet : v.bits.getLsbD (f.fractionBits - 1) = true) : v.quieted = v := by
  refine eq_of_getLsbD_eq fun k => ?_
  rw [getLsbD_quieted (fractionBits_pos hnan)]
  by_cases hk : k = f.fractionBits - 1
  · rw [hk, hquiet, Bool.true_or]
  · rw [decide_eq_false hk, Bool.or_false]

theorem not_isNaN_of_isZero (h : v.isZero = true) : v.isNaN = false := by
  have hfraction : v.fraction = 0 := by
    rw [fraction, beq_iff_eq.1 h, Nat.zero_mod]
  rw [isNaN, hfraction, bne_self_eq_false, Bool.and_false]

theorem not_isZero_of_isNaN (h : v.isNaN = true) : v.isZero = false := by
  rw [Bool.eq_false_iff]
  intro hzero
  rw [not_isNaN_of_isZero hzero] at h
  cases h

theorem plusZero_of_isZero (h : v.isZero = true) : v.plusZero = ⟨0⟩ :=
  if_pos h

theorem plusZero_of_isNaN (h : v.isNaN = true) : v.plusZero = v.quieted := by
  rw [plusZero, if_neg (by simp [not_isZero_of_isNaN h]), if_pos h, quieted]

theorem plusZero_of_number (hzero : v.isZero = false) (hnan : v.isNaN = false) :
    v.plusZero = v := by
  rw [plusZero, if_neg (by simp [hzero]), if_neg (by simp [hnan])]

/-- The quiet bit of a NaN that is not signaling is set already. -/
theorem plusZero_of_not_isSignaling (h : v.isSignaling = false) : v.plusZero = v.foldZero := by
  rw [foldZero]
  by_cases hzero : v.isZero = true
  · rw [plusZero_of_isZero hzero, if_pos hzero]
  · rw [if_neg hzero]
    by_cases hnan : v.isNaN = true
    · have hquiet : v.bits.getLsbD (f.fractionBits - 1) = true := by
        simpa [isSignaling, hnan] using h
      rw [plusZero_of_isNaN hnan, quieted_of_getLsbD hnan hquiet]
    · rw [Bool.not_eq_true] at hzero hnan
      rw [plusZero_of_number hzero hnan]

end Binary.Pattern

namespace Item

/-- A floating-point zero as positive zero, any other item as it is. -/
def foldZero : Item → Item
  | float32 v => float32 v.foldZero
  | float64 v => float64 v.foldZero
  | i => i

/-- A signaling NaN of either floating-point type. -/
def isSignaling : Item → Bool
  | float32 v => v.isSignaling
  | float64 v => v.isSignaling
  | _ => false

theorem key_of_not_isSignaling {i : Item} (h : i.isSignaling = false) : i.key = i.foldZero := by
  cases i with
  | float32 v => exact congrArg float32 (Binary.Pattern.plusZero_of_not_isSignaling h)
  | float64 v => exact congrArg float64 (Binary.Pattern.plusZero_of_not_isSignaling h)
  | _ => rfl

end Item

/-- An order of the values of a type that sorts them: `sortCmp` follows it, it is linear,
and two values that are not signaling NaNs keep it as grouping keys. -/
structure Sorts {α : Type} [Cell α] (cmp : α → α → Ordering) : Prop where
  trans : Std.TransCmp cmp
  lawful : Std.LawfulEqCmp cmp
  sortCmp_eq : ∀ a b, Cell.sortCmp a b = some (cmp a b)
  isLE_key : ∀ a b : α, (Cell.item a).isSignaling = false → (Cell.item b).isSignaling = false →
    (cmp a b).isLE = true → (cmp (Cell.key a) (Cell.key b)).isLE = true

theorem Sorts.isLE_total {α : Type} [Cell α] {cmp : α → α → Ordering} (h : Sorts cmp) (a b : α) :
    (cmp a b).isLE = true ∨ (cmp b a).isLE = true := by
  have hswap : cmp a b = (cmp b a).swap := h.trans.eq_swap
  rw [hswap]
  cases cmp b a <;> simp

theorem Sorts.eq_lt_of_key_ne {α : Type} [Cell α] {cmp : α → α → Ordering} (h : Sorts cmp)
    {a b : α} (ha : (Cell.item a).isSignaling = false) (hb : (Cell.item b).isSignaling = false)
    (hle : (cmp a b).isLE = true) (hne : Cell.key a ≠ Cell.key b) :
    cmp (Cell.key a) (Cell.key b) = .lt := by
  have hkey := h.isLE_key a b ha hb hle
  cases hcmp : cmp (Cell.key a) (Cell.key b) with
  | lt => rfl
  | eq => exact absurd (h.lawful.eq_of_compare hcmp) hne
  | gt =>
      rw [hcmp] at hkey
      cases hkey

theorem sorts_compare {α : Type} [Cell α] [Ord α] [Std.TransOrd α] [Std.LawfulEqOrd α]
    (hkey : ∀ a : α, Cell.key a = a) (hcmp : ∀ a b : α, Cell.sortCmp a b = some (compare a b)) :
    Sorts (compare (α := α)) where
  trans := inferInstance
  lawful := inferInstance
  sortCmp_eq := hcmp
  isLE_key := by
    intro a b _ _ h
    rw [hkey, hkey]
    exact h

theorem sorts_totalOrder {f : Binary.Format} [Cell (Binary.Pattern f)]
    (hkey : ∀ v : Binary.Pattern f, Cell.key v = v.plusZero)
    (hcmp : ∀ v w : Binary.Pattern f, Cell.sortCmp v w = some (v.totalOrder w))
    (hitem : ∀ v : Binary.Pattern f, (Cell.item v).isSignaling = v.isSignaling) :
    Sorts (Binary.Pattern.totalOrder (f := f)) where
  trans := inferInstance
  lawful := inferInstance
  sortCmp_eq := hcmp
  isLE_key := by
    intro v w hv hw h
    rw [hitem] at hv hw
    rw [hkey, hkey, Binary.Pattern.plusZero_of_not_isSignaling hv,
      Binary.Pattern.plusZero_of_not_isSignaling hw]
    exact Binary.Pattern.isLE_foldZero h

/-- The order of two items as keys, of which both floating-point zeros are one. -/
def Item.compareKeys (a b : Item) : Option Ordering :=
  a.foldZero.sortCmp b.foldZero

theorem ElementType.foldZero_item {t : ElementType} {v : t.Value}
    (h : (Cell.item v).isSignaling = false) : (Cell.item v).foldZero = Cell.item (Cell.key v) := by
  rw [← Item.key_of_not_isSignaling h]
  exact (item_key t v).symm

theorem Sorts.compareKeys_item {t : ElementType} {cmp : t.Value → t.Value → Ordering}
    (h : Sorts cmp) {v w : t.Value} (hv : (Cell.item v).isSignaling = false)
    (hw : (Cell.item w).isSignaling = false) :
    (Cell.item v).compareKeys (Cell.item w) = some (cmp (Cell.key v) (Cell.key w)) := by
  rw [Item.compareKeys, ElementType.foldZero_item hv, ElementType.foldZero_item hw,
    ElementType.sortCmp_item, h.sortCmp_eq]

theorem ElementType.exists_sorts {t : ElementType} (h : t.dtype.isSortable = true) :
    ∃ cmp : t.Value → t.Value → Ordering, Sorts cmp := by
  cases t with
  | bool => exact ⟨_, sorts_compare (α := Bool) (fun _ => rfl) fun _ _ => rfl⟩
  | int32 => exact ⟨_, sorts_compare (α := Int32) (fun _ => rfl) fun _ _ => rfl⟩
  | int64 => exact ⟨_, sorts_compare (α := Int64) (fun _ => rfl) fun _ _ => rfl⟩
  | text => exact ⟨_, sorts_compare (α := String) (fun _ => rfl) fun _ _ => rfl⟩
  | bytes => exact ⟨_, sorts_compare (α := Bytes) (fun _ => rfl) fun _ _ => rfl⟩
  | float32 => exact ⟨_, sorts_totalOrder (fun _ => rfl) (fun _ _ => rfl) fun _ => rfl⟩
  | float64 => exact ⟨_, sorts_totalOrder (fun _ => rfl) (fun _ _ => rfl) fun _ => rfl⟩
  | itemId | schema | expr => cases h

end ObjectGraph
