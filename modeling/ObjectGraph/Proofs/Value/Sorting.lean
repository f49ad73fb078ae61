import ObjectGraph.Proofs.Digest.TextOrder
import ObjectGraph.Proofs.Value.TotalOrder

/-!
# Items in ascending order

Items have an order where they are values of one sortable type, and there it is linear.
Every fact about it is the one about the values of that type.
-/

namespace ObjectGraph

open Digest (utf8)

/-- The order of byte strings is the lexicographic one. -/
theorem Bytes.compare_eq_lt_of_lt {a b : Bytes} (h : a < b) : compare a b = .lt := by
  induction a generalizing b with
  | nil =>
      cases b with
      | nil => cases h
      | cons y b => rfl
  | cons x a ih =>
      cases b with
      | nil => cases h
      | cons y b =>
          rw [List.compare_cons_cons]
          rcases List.cons_lt_cons_iff.1 h with hlt | ⟨rfl, hlt⟩
          · rw [Std.compare_eq_lt.2 hlt]
            rfl
          · rw [Std.compare_self, ih hlt]
            rfl

/-- Texts are ordered as their bytes. -/
theorem Digest.compare_utf8 (s t : String) : compare (utf8 s) (utf8 t) = compare s t := by
  cases h : compare s t with
  | lt => exact Bytes.compare_eq_lt_of_lt (utf8_lt_of_compare h)
  | eq =>
      rw [Std.LawfulEqOrd.eq_of_compare h]
      exact Std.compare_self
  | gt =>
      have hlt := Bytes.compare_eq_lt_of_lt (utf8_lt_of_compare (Std.OrientedCmp.lt_of_gt h))
      exact Std.OrientedCmp.gt_of_lt hlt

theorem ElementType.isSortable_iff_mem (t : ElementType) : t.dtype.isSortable = true ↔
    t ∈ [ElementType.bool, .int32, .int64, .float32, .float64, .text, .bytes] := by
  cases t <;> decide

namespace Item

variable {a b c : Item}

theorem exists_eq_item_of_type? {t : ElementType} (h : a.type? = some t) :
    ∃ v : t.Value, a = Cell.item v := by
  cases a <;> cases h <;> exact ⟨_, rfl⟩

/-- Only two values of one sortable type are ordered. -/
theorem isSome_sortCmp_iff : (a.sortCmp b).isSome = true ↔
    ∃ t : ElementType, t.dtype.isSortable = true ∧ a.type? = some t ∧ b.type? = some t := by
  constructor
  · intro h
    cases a <;> cases b <;> first | exact ⟨_, rfl, rfl, rfl⟩ | cases h
  · rintro ⟨t, ht, ha, hb⟩
    obtain ⟨v, rfl⟩ := exists_eq_item_of_type? ha
    obtain ⟨w, rfl⟩ := exists_eq_item_of_type? hb
    obtain ⟨cmp, hcmp⟩ := ElementType.exists_sorts ht
    rw [ElementType.sortCmp_item, hcmp.sortCmp_eq]
    rfl

/-- Where items are ordered, a linear order of the values of their type is behind it. -/
theorem exists_sorts_of_isSome (h : (a.sortCmp b).isSome = true) :
    ∃ (t : ElementType) (cmp : t.Value → t.Value → Ordering) (v w : t.Value), Sorts cmp ∧
      a = Cell.item v ∧ b = Cell.item w := by
  obtain ⟨t, ht, ha, hb⟩ := isSome_sortCmp_iff.1 h
  obtain ⟨v, rfl⟩ := exists_eq_item_of_type? ha
  obtain ⟨w, rfl⟩ := exists_eq_item_of_type? hb
  obtain ⟨cmp, hcmp⟩ := ElementType.exists_sorts ht
  exact ⟨t, cmp, v, w, hcmp, rfl, rfl⟩

end Item

theorem Sorts.sortCmp_item {t : ElementType} {cmp : t.Value → t.Value → Ordering} (h : Sorts cmp)
    (v w : t.Value) : (Cell.item v).sortCmp (Cell.item w) = some (cmp v w) := by
  rw [ElementType.sortCmp_item, h.sortCmp_eq]

namespace Item

variable {a b c : Item}

/-- The order read from the other side. -/
theorem sortCmp_swap (a b : Item) : b.sortCmp a = (a.sortCmp b).map Ordering.swap := by
  cases h : (a.sortCmp b).isSome with
  | false =>
      have hback : (b.sortCmp a).isSome = false := by
        rw [Bool.eq_false_iff, ne_eq, isSome_sortCmp_iff] at h ⊢
        rintro ⟨t, ht, hb, ha⟩
        exact h ⟨t, ht, ha, hb⟩
      rw [Option.isSome_eq_false_iff, Option.isNone_iff_eq_none] at h hback
      rw [h, hback, Option.map_none]
  | true =>
      obtain ⟨t, cmp, v, w, hcmp, rfl, rfl⟩ := exists_sorts_of_isSome h
      have hswap : cmp w v = (cmp v w).swap := hcmp.trans.eq_swap
      rw [hcmp.sortCmp_item, hcmp.sortCmp_item, hswap, Option.map_some]

theorem sortCmp_eq_iff (h : (a.sortCmp b).isSome = true) : a.sortCmp b = some .eq ↔ a = b := by
  obtain ⟨t, cmp, v, w, hcmp, rfl, rfl⟩ := exists_sorts_of_isSome h
  have := hcmp.lawful
  rw [hcmp.sortCmp_item, Option.some_inj, Std.LawfulEqCmp.compare_eq_iff_eq]
  refine ⟨congrArg Cell.item, fun heq => ?_⟩
  rw [← Option.some_inj, ← ElementType.value?_item t v, heq, ElementType.value?_item]

/-- `a` stands before `b` in the ascending order of their type, or is equal to it. -/
def SortLE (a b : Item) : Prop :=
  ∃ o, a.sortCmp b = some o ∧ o.isLE = true

theorem SortLE.isSome (h : SortLE a b) : (a.sortCmp b).isSome = true := by
  obtain ⟨o, ho, -⟩ := h
  rw [ho, Option.isSome_some]

theorem SortLE.total (h : (a.sortCmp b).isSome = true) : SortLE a b ∨ SortLE b a := by
  obtain ⟨t, cmp, v, w, hcmp, rfl, rfl⟩ := exists_sorts_of_isSome h
  exact (hcmp.isLE_total v w).imp (fun hle => ⟨_, hcmp.sortCmp_item v w, hle⟩)
    fun hle => ⟨_, hcmp.sortCmp_item w v, hle⟩

theorem SortLE.antisymm (hab : SortLE a b) (hba : SortLE b a) : a = b := by
  refine (sortCmp_eq_iff hab.isSome).1 ?_
  obtain ⟨o, ho, hle⟩ := hab
  obtain ⟨o', ho', hle'⟩ := hba
  rw [sortCmp_swap, ho, Option.map_some, Option.some_inj] at ho'
  subst ho'
  cases o with
  | eq => exact ho
  | lt => cases hle'
  | gt => cases hle

theorem SortLE.trans (hab : SortLE a b) (hbc : SortLE b c) : SortLE a c := by
  obtain ⟨t, ht, ha, hb⟩ := isSome_sortCmp_iff.1 hab.isSome
  obtain ⟨t', -, hb', hc⟩ := isSome_sortCmp_iff.1 hbc.isSome
  obtain rfl : t = t' := Option.some_inj.1 (hb.symm.trans hb')
  obtain ⟨u, rfl⟩ := exists_eq_item_of_type? ha
  obtain ⟨v, rfl⟩ := exists_eq_item_of_type? hb
  obtain ⟨w, rfl⟩ := exists_eq_item_of_type? hc
  obtain ⟨cmp, hcmp⟩ := ElementType.exists_sorts ht
  have := hcmp.trans
  obtain ⟨o, ho, hle⟩ := hab
  obtain ⟨o', ho', hle'⟩ := hbc
  rw [hcmp.sortCmp_item, Option.some_inj] at ho ho'
  subst ho ho'
  exact ⟨_, hcmp.sortCmp_item u w, Std.TransCmp.isLE_trans hle hle'⟩

open Binary in
/-- Two items are ordered exactly when they are values of one sortable type, and the values
of such a type are in a linear order that agrees with equality. Texts are ordered as their
bytes. Floating-point values are compared by their bits: by class, within the numbers by
value, and NaNs by payload. A column orders its values as the items they stand for. -/
theorem sortCmp_isLinearOrder :
    (∀ a b : Item, (a.sortCmp b).isSome = true ↔
      ∃ t ∈ [ElementType.bool, .int32, .int64, .float32, .float64, .text, .bytes],
        a.type? = some t ∧ b.type? = some t) ∧
    (∀ a b : Item, b.sortCmp a = (a.sortCmp b).map Ordering.swap) ∧
    (∀ a b : Item, (a.sortCmp b).isSome = true → (a.sortCmp b = some .eq ↔ a = b)) ∧
    (∀ a b : Item, (a.sortCmp b).isSome = true → SortLE a b ∨ SortLE b a) ∧
    (∀ a b : Item, SortLE a b → SortLE b a → a = b) ∧
    (∀ a b c : Item, SortLE a b → SortLE b c → SortLE a c) ∧
    (∀ s t : String, (text s).sortCmp (text t) = (bytes (utf8 s)).sortCmp (bytes (utf8 t))) ∧
    (∀ v w : Pattern .single,
      (float32 v).sortCmp (float32 w) = some (compare v.orderKey w.orderKey)) ∧
    (∀ v w : Pattern .double,
      (float64 v).sortCmp (float64 w) = some (compare v.orderKey w.orderKey)) ∧
    (∀ (f : Format) (v w : Pattern f),
      (v.rank < w.rank → v.totalOrder w = .lt) ∧
      (v.isNaN = false → w.isNaN = false → v.isZero = false ∨ w.isZero = false →
        v.isInfinite = false → w.isInfinite = false →
        (v.totalOrder w = .lt ↔ v.value < w.value)) ∧
      (v.isNaN = true → w.isNaN = true → v.isNegative = w.isNegative →
        (v.totalOrder w = .lt ↔
          if v.isNegative then w.fraction < v.fraction else v.fraction < w.fraction))) ∧
    (∀ (t : ElementType) (v w : t.Value),
      Cell.sortCmp v w = (Cell.item v).sortCmp (Cell.item w)) ∧
    (∀ a b : Item, Cell.sortCmp a b = a.sortCmp b) := by
  have hkeys : ∀ {f : Format} (v w : Pattern f),
      some (v.totalOrder w) = some (compare v.orderKey w.orderKey) := by
    intro f v w
    rw [Pattern.orderKey_eq_place, Pattern.orderKey_eq_place, Pattern.totalOrder]
  refine ⟨fun a b => ?_, sortCmp_swap, fun a b => sortCmp_eq_iff, fun a b => SortLE.total,
    fun a b => SortLE.antisymm, fun a b c => SortLE.trans,
    fun s t => congrArg some (Digest.compare_utf8 s t).symm, hkeys, hkeys,
    fun f v w => ⟨Pattern.totalOrder_of_rank_lt, ?_, Pattern.totalOrder_of_isNaN⟩,
    fun t v w => (ElementType.sortCmp_item t v w).symm, fun a b => rfl⟩
  · rw [isSome_sortCmp_iff]
    exact exists_congr fun t => and_congr_left' (ElementType.isSortable_iff_mem t)
  · intro _ _ hzero _ _
    exact Pattern.totalOrder_eq_lt_iff_value_lt hzero

-- a NaN with its sign set, negative infinity, -1.5, both zeros, 1.5, infinity and two NaNs
example : [0xFFC00000#32, 0xFF800000#32, 0xBFC00000#32, 0x80000000#32, 0#32, 0x3FC00000#32,
    0x7F800000#32, 0x7F800001#32, 0x7FC00000#32].IsChain fun v w =>
      (float32 ⟨v⟩).sortCmp (float32 ⟨w⟩) = some .lt := by
  decide

end Item

end ObjectGraph
