import ObjectGraph.Proofs.Value.Order

/-!
# Floating-point values with one grouping key

The grouping key of a floating-point value is its sum with positive zero. The sum folds the
zeros, as it is meant to, and makes a signaling NaN quiet. So it forgets one bit of a NaN,
the quiet bit, and nothing else of any other value: the sign and the payload of a NaN stay.
-/

namespace ObjectGraph

namespace Binary.Pattern

variable {f : Format} {v w : Pattern f} {k : Nat}

/-! ### The bits of the fields -/

theorem testBit_magnitude (v : Pattern f) (k : Nat) : v.magnitude.testBit k =
    (decide (k < f.exponentBits + f.fractionBits) && v.bits.getLsbD k) := by
  rw [magnitude, Format.magnitudeLimit, Nat.one_shiftLeft, Nat.testBit_mod_two_pow,
    BitVec.testBit_toNat]

theorem testBit_exponentField (v : Pattern f) (k : Nat) : v.exponentField.testBit k =
    (decide (k < f.exponentBits) && v.bits.getLsbD (f.fractionBits + k)) := by
  rw [exponentField, Nat.testBit_shiftRight, testBit_magnitude, Nat.add_comm f.exponentBits]
  simp only [Nat.add_lt_add_iff_left]

theorem testBit_fraction (v : Pattern f) (k : Nat) :
    v.fraction.testBit k = (decide (k < f.fractionBits) && v.bits.getLsbD k) := by
  rw [fraction, Nat.one_shiftLeft, Nat.testBit_mod_two_pow, testBit_magnitude, ← Bool.and_assoc,
    ← Bool.decide_and]
  have hlt : (k < f.fractionBits ∧ k < f.exponentBits + f.fractionBits) ↔ k < f.fractionBits := by
    omega
  simp only [hlt]

theorem exponentField_congr (h : ∀ k, f.fractionBits ≤ k → v.bits.getLsbD k = w.bits.getLsbD k) :
    v.exponentField = w.exponentField := by
  refine Nat.eq_of_testBit_eq fun k => ?_
  rw [testBit_exponentField, testBit_exponentField, h _ (Nat.le_add_right _ _)]

/-! ### Quiet NaNs -/

theorem isNaN_quieted (h : v.isNaN = true) : v.quieted.isNaN = true := by
  have hpos := fractionBits_pos h
  have hexponent : v.quieted.exponentField = v.exponentField := by
    refine exponentField_congr fun k hk => ?_
    rw [getLsbD_quieted hpos, decide_eq_false (by omega), Bool.or_false]
  have hfraction : v.quieted.fraction.testBit (f.fractionBits - 1) = true := by
    rw [testBit_fraction, getLsbD_quieted hpos, decide_eq_true rfl, Bool.or_true,
      decide_eq_true (Nat.sub_lt hpos Nat.one_pos), Bool.true_and]
  rw [isNaN, Bool.and_eq_true] at h ⊢
  refine ⟨hexponent ▸ h.1, bne_iff_ne.2 fun hzero => ?_⟩
  rw [hzero, Nat.zero_testBit] at hfraction
  cases hfraction

/-- Two NaNs with one sign and one payload. Only the quiet bit may differ. -/
def SamePayload (v w : Pattern f) : Prop :=
  v.isNaN = true ∧ w.isNaN = true ∧
    ∀ k, k ≠ f.fractionBits - 1 → v.bits.getLsbD k = w.bits.getLsbD k

theorem quieted_eq_iff (hv : v.isNaN = true) (hw : w.isNaN = true) :
    v.quieted = w.quieted ↔ v.SamePayload w := by
  have hpos := fractionBits_pos hv
  constructor
  · intro h
    refine ⟨hv, hw, fun k hk => ?_⟩
    have hbit := congrArg (fun u : Pattern f => u.bits.getLsbD k) h
    simpa only [getLsbD_quieted hpos, decide_eq_false hk, Bool.or_false] using hbit
  · rintro ⟨-, -, h⟩
    refine eq_of_getLsbD_eq fun k => ?_
    rw [getLsbD_quieted hpos, getLsbD_quieted hpos]
    by_cases hk : k = f.fractionBits - 1
    · rw [decide_eq_true hk, Bool.or_true, Bool.or_true]
    · rw [h k hk]

/-! ### Values that count as one -/

/-- The values that count as one: equal ones, the two zeros, and NaNs of one payload. -/
def OneKey (v w : Pattern f) : Prop :=
  v = w ∨ (v.isZero = true ∧ w.isZero = true) ∨ v.SamePayload w

theorem isZero_plusZero (v : Pattern f) : v.plusZero.isZero = v.isZero := by
  by_cases hzero : v.isZero = true
  · rw [plusZero_of_isZero hzero, hzero, isZero, magnitude]
    simp
  · by_cases hnan : v.isNaN = true
    · rw [plusZero_of_isNaN hnan, not_isZero_of_isNaN (isNaN_quieted hnan),
        not_isZero_of_isNaN hnan]
    · rw [Bool.not_eq_true] at hnan hzero
      rw [plusZero_of_number hzero hnan]

theorem isNaN_plusZero (v : Pattern f) : v.plusZero.isNaN = v.isNaN := by
  by_cases hnan : v.isNaN = true
  · rw [plusZero_of_isNaN hnan, isNaN_quieted hnan, hnan]
  · by_cases hzero : v.isZero = true
    · have hsum : v.plusZero.isZero = true := (isZero_plusZero v).trans hzero
      rw [not_isNaN_of_isZero hsum, not_isNaN_of_isZero hzero]
    · rw [Bool.not_eq_true] at hnan hzero
      rw [plusZero_of_number hzero hnan]

/-- The sum with positive zero tells all values apart but those that count as one. -/
theorem plusZero_eq_iff : v.plusZero = w.plusZero ↔ v.OneKey w := by
  constructor
  · intro h
    have hzero : v.isZero = w.isZero := by rw [← isZero_plusZero v, h, isZero_plusZero]
    have hnan : v.isNaN = w.isNaN := by rw [← isNaN_plusZero v, h, isNaN_plusZero]
    cases hvzero : v.isZero with
    | true => exact .inr (.inl ⟨hvzero, hzero ▸ hvzero⟩)
    | false =>
        cases hvnan : v.isNaN with
        | true =>
            have hwnan := hnan ▸ hvnan
            rw [plusZero_of_isNaN hvnan, plusZero_of_isNaN hwnan] at h
            exact .inr (.inr ((quieted_eq_iff hvnan hwnan).1 h))
        | false =>
            rw [plusZero_of_number hvzero hvnan,
              plusZero_of_number (hzero ▸ hvzero) (hnan ▸ hvnan)] at h
            exact .inl h
  · rintro (rfl | ⟨hv, hw⟩ | h)
    · rfl
    · rw [plusZero_of_isZero hv, plusZero_of_isZero hw]
    · rw [plusZero_of_isNaN h.1, plusZero_of_isNaN h.2.1, quieted_eq_iff h.1 h.2.1]
      exact h

end Binary.Pattern

namespace Item

/-- Present items that count as one grouping key: equal ones, and floating-point values of
one type that count as one. -/
inductive Matches : Item → Item → Prop
  | refl {i : Item} : i.isPresent = true → Matches i i
  | float32 {v w : Binary.Pattern .single} : v.OneKey w → Matches (float32 v) (float32 w)
  | float64 {v w : Binary.Pattern .double} : v.OneKey w → Matches (float64 v) (float64 w)

theorem Matches.isPresent {a b : Item} (h : a.Matches b) :
    a.isPresent = true ∧ b.isPresent = true := by
  cases h with
  | refl h => exact ⟨h, h⟩
  | float32 | float64 => exact ⟨rfl, rfl⟩

/-- An item other than a floating-point value is the key of itself alone. -/
theorem eq_of_key_eq {a b : Item} (h : a.key = b) (hsingle : ∀ v, b ≠ float32 v)
    (hdouble : ∀ v, b ≠ float64 v) : a = b := by
  cases a with
  | float32 v => exact absurd h.symm (hsingle _)
  | float64 v => exact absurd h.symm (hdouble _)
  | _ => exact h

theorem key_eq_iff {a b : Item} (ha : a.isPresent = true) : a.key = b.key ↔ a.Matches b := by
  constructor
  · intro h
    cases b with
    | float32 w =>
        cases a with
        | float32 v => exact .float32 (Binary.Pattern.plusZero_eq_iff.1 (float32.inj h))
        | _ => cases h
    | float64 w =>
        cases a with
        | float64 v => exact .float64 (Binary.Pattern.plusZero_eq_iff.1 (float64.inj h))
        | _ => cases h
    | _ =>
        obtain rfl := eq_of_key_eq h nofun nofun
        exact .refl ha
  · rintro (- | h | h)
    · rfl
    · exact congrArg Item.float32 (Binary.Pattern.plusZero_eq_iff.2 h)
    · exact congrArg Item.float64 (Binary.Pattern.plusZero_eq_iff.2 h)

end Item

end ObjectGraph
