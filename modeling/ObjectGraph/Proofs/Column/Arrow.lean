import ObjectGraph.Column.Arrow
import ObjectGraph.Proofs.Column.Items

/-!
# Columns as arrays

A column and its array determine each other. The columns without an array are the mixed
ones and those of ids, tags and expressions, whatever they hold; the arrays without a column
are those of other types. An array is null at the positions where its column has no item,
but for a column of no known type, the array of which has a length only.
-/

namespace ObjectGraph

namespace ArrowArray

variable {α : Type} {slots : List (Option α)} {i : Nat}

/-- The array is of a type that columns have. -/
def IsSupported (a : ArrowArray) : Prop :=
  ∀ typeName, a ≠ .other typeName

theorem mem_emptySlots : i ∈ emptySlots slots ↔ slots[i]? = some none := by
  rw [emptySlots, List.mem_filter, List.mem_range, Option.isNone_iff_eq_none]
  constructor
  · rintro ⟨hi, hnone⟩
    rw [List.getElem?_eq_getElem hi] at hnone ⊢
    exact congrArg some hnone
  · intro h
    exact ⟨(List.getElem?_eq_some_iff.1 h).1, by rw [h]; rfl⟩

end ArrowArray

namespace Column

open ArrowArray

variable {c : Column} {a : ArrowArray} {e : ArrowError} {t : ElementType} {i : Nat}

/-- The column is mixed or of ids, tags or expressions, even if all of them are missing. -/
def LacksArray (c : Column) : Prop :=
  c.isMixed = true ∨ c.type? = some .itemId ∨ c.type? = some .schema ∨ c.type? = some .expr

/-- Making an array and reading it undo each other. -/
theorem ofArrow_eq_ok_iff : ofArrow a = .ok c ↔ c.toArrow = .ok a := by
  constructor
  · intro h
    cases a with
    | other typeName => cases h
    | _ =>
        obtain rfl := Except.ok.inj h
        rfl
  · intro h
    cases c with
    | empty size =>
        obtain rfl := Except.ok.inj h
        rfl
    | typed t cells => cases t <;> cases h <;> rfl
    | mixed items => cases h

/-- A column has no array because of its type, not because of what it holds. -/
theorem toArrow_eq_error_iff : c.toArrow = .error e ↔
    (c.isMixed = true ∧ e = .mixedColumn) ∨
      ∃ t, (t = .itemId ∨ t = .schema ∨ t = .expr) ∧ c.type? = some t ∧
        e = .columnType t.dtype := by
  cases c with
  | empty size => simp [toArrow, isMixed, type?]
  | typed t cells => cases t <;> simp [toArrow, isMixed, type?, eq_comm]
  | mixed items => simp [toArrow, isMixed, type?, eq_comm]

theorem exists_toArrow_eq_error_iff : (∃ e, c.toArrow = .error e) ↔ c.LacksArray := by
  simp only [toArrow_eq_error_iff]
  constructor
  · rintro ⟨e, ⟨hmixed, -⟩ | ⟨t, rfl | rfl | rfl, ht, -⟩⟩
    · exact .inl hmixed
    · exact .inr (.inl ht)
    · exact .inr (.inr (.inl ht))
    · exact .inr (.inr (.inr ht))
  · rintro (hmixed | ht | ht | ht)
    · exact ⟨_, .inl ⟨hmixed, rfl⟩⟩
    · exact ⟨_, .inr ⟨_, .inl rfl, ht, rfl⟩⟩
    · exact ⟨_, .inr ⟨_, .inr (.inl rfl), ht, rfl⟩⟩
    · exact ⟨_, .inr ⟨_, .inr (.inr rfl), ht, rfl⟩⟩

/-! ### Missing items -/

theorem get_typed_eq_missing_iff {cells : List (Option t.Value)} (hi : i < cells.length) :
    (typed t cells).get i = .missing ↔ cells[i]? = some none := by
  rw [List.getElem?_eq_getElem hi, Option.some.injEq]
  constructor
  · intro h
    cases hcell : cells[i] with
    | none => rfl
    | some v =>
        have hget := get_typed (List.getElem?_eq_some_iff.2 ⟨hi, hcell⟩)
        have htype := ElementType.type?_item t v
        rw [← hget, h] at htype
        cases htype
  · intro h
    simp [get, items, List.getElem?_eq_getElem hi, h, cellItem]

theorem mem_emptySlots_iff_get {cells : List (Option t.Value)} :
    i ∈ emptySlots cells ↔ i < cells.length ∧ (typed t cells).get i = .missing := by
  rw [mem_emptySlots]
  constructor
  · intro h
    have hi := (List.getElem?_eq_some_iff.1 h).1
    exact ⟨hi, (get_typed_eq_missing_iff hi).2 h⟩
  · rintro ⟨hi, h⟩
    exact (get_typed_eq_missing_iff hi).1 h

theorem length_of_toArrow (h : c.toArrow = .ok a) : a.length = c.size := by
  cases c with
  | empty size =>
      obtain rfl := Except.ok.inj h
      rfl
  | typed t cells => cases t <;> cases h <;> rfl
  | mixed items => cases h

/-- The array of a typed column is null where an item is missing. -/
theorem mem_nulls_of_toArrow (h : c.toArrow = .ok a) :
    i ∈ a.nulls ↔ c.isUnknown = false ∧ i < c.size ∧ c.get i = .missing := by
  cases c with
  | empty size =>
      obtain rfl := Except.ok.inj h
      simp [nulls, isUnknown]
  | typed t cells =>
      have hnulls : a.nulls = emptySlots cells := by cases t <;> cases h <;> rfl
      rw [hnulls, mem_emptySlots_iff_get]
      exact (and_iff_right rfl).symm
  | mixed items => cases h

/-! ### Round trips -/

theorem isSupported_of_toArrow (h : c.toArrow = .ok a) : a.IsSupported := by
  rintro typeName rfl
  cases ofArrow_eq_ok_iff.2 h

theorem exists_toArrow (h : ¬ c.LacksArray) :
    ∃ a, c.toArrow = .ok a ∧ ofArrow a = .ok c ∧ a.length = c.size ∧
      ∀ i, i ∈ a.nulls ↔ c.isUnknown = false ∧ i < c.size ∧ c.get i = .missing := by
  cases ha : c.toArrow with
  | error e => exact absurd (exists_toArrow_eq_error_iff.1 ⟨e, ha⟩) h
  | ok a =>
      exact ⟨a, rfl, ofArrow_eq_ok_iff.2 ha, length_of_toArrow ha,
        fun i => mem_nulls_of_toArrow ha⟩

theorem exists_ofArrow (h : a.IsSupported) : ∃ d, ofArrow a = .ok d ∧ d.toArrow = .ok a := by
  cases a with
  | other typeName => exact absurd rfl (h typeName)
  | _ => exact ⟨_, rfl, ofArrow_eq_ok_iff.1 rfl⟩

/-- A column has an array unless it is mixed or of ids, tags or expressions. The array is read
back as the column itself, has its size, and is null where the items of a typed column are
missing; and every array of a supported type is the array of the column that is read. -/
theorem arrow_roundTrip (c : Column) (array : ArrowArray) :
    ((∃ e, c.toArrow = .error e) ↔ c.LacksArray) ∧
    (¬ c.LacksArray → ∃ a, c.toArrow = .ok a ∧ ofArrow a = .ok c ∧ a.length = c.size ∧
      ∀ i, i ∈ a.nulls ↔ c.isUnknown = false ∧ i < c.size ∧ c.get i = .missing) ∧
    (array.IsSupported → ∃ d, ofArrow array = .ok d ∧ d.toArrow = .ok array) :=
  ⟨exists_toArrow_eq_error_iff, exists_toArrow, exists_ofArrow⟩

namespace Readings

/-- A signaling NaN and a negative zero around a gap. -/
def column : Column :=
  .typed .float32 [some ⟨0x7f800001⟩, none, some ⟨0x80000000⟩]

/-- Two slots of which nothing is known. -/
def unread : ArrowArray :=
  .null 2

/-- The patterns of bits are kept, and a column of ids has no array although it holds none. -/
theorem arrow_readings :
    (∃ a, column.toArrow = .ok a ∧ ofArrow a = .ok column ∧ a.length = column.size ∧
      ∀ i, i ∈ a.nulls ↔ column.isUnknown = false ∧ i < column.size ∧ column.get i = .missing) ∧
    (∃ d, ofArrow unread = .ok d ∧ d.toArrow = .ok unread) ∧
      ∃ e, (typed .itemId [none, none]).toArrow = .error e := by
  obtain ⟨-, hcolumn, harray⟩ := arrow_roundTrip column unread
  obtain ⟨hids, -, -⟩ := arrow_roundTrip (typed .itemId [none, none]) unread
  exact ⟨hcolumn (by rintro (h | h | h | h) <;> cases h), harray nofun, hids.2 (.inr (.inl rfl))⟩

end Readings

end Column

namespace ArrowLibrary

open Column

variable {A : ArrowLibrary} {c : Column} {e : ArrowError}

/-- An array shows the slots that it is made of. -/
def Shows (A : ArrowLibrary) : Prop :=
  ∀ a : ArrowArray, a.IsSupported → A.slots (A.collect a) = a

theorem shows_slotwise : slotwise.Shows :=
  fun _ _ => rfl

theorem ofColumn_eq_error_iff : A.ofColumn c = .error e ↔ c.toArrow = .error e := by
  rw [ofColumn]
  cases c.toArrow <;> simp [Except.map]

/-- With every library whose arrays show their slots, a column is read back from its array, and
the array of the column that is read from an array shows the same slots. -/
theorem Shows.roundTrip (hA : A.Shows) :
    (∀ c : Column, ((∃ e, A.ofColumn c = .error e) ↔ c.LacksArray) ∧
      (¬ c.LacksArray → ∃ x, A.ofColumn c = .ok x ∧ A.toColumn x = .ok c ∧
        (A.slots x).length = c.size ∧
        ∀ i, i ∈ (A.slots x).nulls ↔ c.isUnknown = false ∧ i < c.size ∧ c.get i = .missing)) ∧
    ∀ x, (A.slots x).IsSupported →
      ∃ c y, A.toColumn x = .ok c ∧ A.ofColumn c = .ok y ∧ A.slots y = A.slots x := by
  refine ⟨fun c => ⟨?_, fun h => ?_⟩, fun x hx => ?_⟩
  · simp only [ofColumn_eq_error_iff]
    exact exists_toArrow_eq_error_iff
  · obtain ⟨a, ha, hback, hlength, hnulls⟩ := exists_toArrow h
    have hslots := hA a (isSupported_of_toArrow ha)
    refine ⟨A.collect a, by rw [ofColumn, ha]; rfl, ?_⟩
    rw [toColumn, hslots]
    exact ⟨hback, hlength, hnulls⟩
  · obtain ⟨c, hc, ha⟩ := exists_ofArrow hx
    exact ⟨c, A.collect (A.slots x), hc, by rw [ofColumn, ha]; rfl, hA _ hx⟩

end ArrowLibrary

end ObjectGraph
