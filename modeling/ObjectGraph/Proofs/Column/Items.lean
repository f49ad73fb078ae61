import Mathlib.Data.List.Basic
import ObjectGraph.Slice

/-!
# Items of a column

The representation that `ofItems` chooses keeps the items, and the ids of a column
are found at the positions where its items are ids. The column of a valid slice has the
size of its shape.
-/

namespace ObjectGraph

theorem ElementType.exists_of_type? {item : Item} {t : ElementType} (h : item.type? = some t) :
    ∃ v : t.Value, item = Cell.item v := by
  cases item with
  | missing => cases h
  | _ v =>
      obtain rfl := Option.some.inj h
      exact ⟨v, rfl⟩

namespace Column

theorem cellItem_value? {t : ElementType} {item : Item}
    (h : item = .missing ∨ item.type? = some t) : cellItem (t.value? item) = item := by
  rcases h with rfl | h
  · cases t <;> rfl
  · obtain ⟨v, rfl⟩ := ElementType.exists_of_type? h
    rw [ElementType.value?_item]
    rfl

theorem eq_missing_of_type? {item : Item} (h : item.type? = none) : item = .missing := by
  cases item with
  | missing => rfl
  | _ => cases h

@[simp] theorem items_ofItems (items : List Item) : (ofItems items).items = items := by
  unfold ofItems
  split
  · rename_i hnil
    refine (List.eq_replicate_iff.2 ⟨rfl, fun item hitem => ?_⟩).symm
    have hnone := List.filterMap_eq_nil_iff.1 hnil item hitem
    exact eq_missing_of_type? hnone
  · rename_i t ts htypes
    split
    · rename_i hall
      rw [ofType, Column.items, List.map_map]
      refine (List.map_congr_left fun item hitem => ?_).trans (List.map_id items)
      refine cellItem_value? ?_
      cases htype : item.type? with
      | none => exact Or.inl (eq_missing_of_type? htype)
      | some u =>
          have hmem : u ∈ types items := List.mem_filterMap.2 ⟨item, hitem, htype⟩
          rw [htypes] at hmem
          rcases List.mem_cons.1 hmem with rfl | hmem
          · exact Or.inr rfl
          · have hu := List.all_eq_true.1 hall u hmem
            rw [beq_iff_eq] at hu
            exact Or.inr (congrArg some hu)
    · rfl

@[simp] theorem size_ofItems (items : List Item) : (ofItems items).size = items.length := by
  rw [← length_items, items_ofItems]

theorem getElem?_items {c : Column} {i : Nat} (h : i < c.size) : c.items[i]? = some (c.get i) := by
  rw [← length_items] at h
  rw [get, List.getElem?_eq_getElem h, Option.getD_some]

theorem lt_size_of_get {c : Column} {i : Nat} {id : ObjectId} (h : c.get i = .objectId id) :
    i < c.size := by
  by_contra hi
  rw [Nat.not_lt, ← length_items] at hi
  rw [get, List.getElem?_eq_none hi] at h
  cases h

/-- The items of a part of a column. -/
theorem map_get_range' {c : Column} {first size : Nat} (h : first + size ≤ c.size) :
    (List.range' first size).map c.get = (c.items.drop first).take size := by
  refine List.ext_getElem? fun i => ?_
  rw [List.getElem?_map, List.getElem?_take]
  split
  · rename_i hi
    rw [List.getElem?_range' hi, List.getElem?_drop, getElem?_items (by omega), Nat.one_mul]
    rfl
  · rename_i hi
    rw [List.getElem?_eq_none (by simpa using hi)]
    rfl

@[simp] theorem get_empty (n i : Nat) : (empty n).get i = .missing := by
  rw [get, items_empty, List.getElem?_replicate]
  split <;> rfl

theorem get_typed {t : ElementType} {cells : List (Option t.Value)} {i : Nat} {v : t.Value}
    (h : cells[i]? = some (some v)) : (typed t cells).get i = Cell.item v := by
  simp [get, items, h, cellItem]

theorem mem_idsFrom {start i : Nat} {items : List Item} {id : ObjectId} :
    (i, id) ∈ idsFrom start items ↔ ∃ k, i = start + k ∧ items[k]? = some (.objectId id) := by
  induction items generalizing start with
  | nil => simp [idsFrom]
  | cons item items ih =>
      have htail : (i, id) ∈ idsFrom (start + 1) items ↔
          ∃ k, i = start + (k + 1) ∧ (item :: items)[k + 1]? = some (.objectId id) := by
        rw [ih]
        simp only [List.getElem?_cons_succ, Nat.add_assoc, Nat.add_comm 1]
      have hsplit : (∃ k, i = start + k ∧ (item :: items)[k]? = some (.objectId id)) ↔
          (i = start ∧ item = .objectId id) ∨
            ∃ k, i = start + (k + 1) ∧ (item :: items)[k + 1]? = some (.objectId id) := by
        constructor
        · rintro ⟨k, hi, hk⟩
          cases k with
          | zero => exact Or.inl ⟨hi, Option.some.inj hk⟩
          | succ k => exact Or.inr ⟨k, hi, hk⟩
        · rintro (⟨rfl, rfl⟩ | ⟨k, hi, hk⟩)
          · exact ⟨0, rfl, rfl⟩
          · exact ⟨k + 1, hi, hk⟩
      rw [hsplit, ← htail, idsFrom]
      cases hid : item.objectId? with
      | none =>
          have hne : item ≠ .objectId id := fun heq => by
            rw [heq] at hid
            cases hid
          simp [hne]
      | some other =>
          obtain rfl := Item.objectId?_eq_some_iff.1 hid
          simp [eq_comm]

/-- The ids of a column with their positions. -/
theorem mem_objectIds {c : Column} {i : Nat} {id : ObjectId} :
    (i, id) ∈ c.objectIds ↔ c.items[i]? = some (.objectId id) := by
  rw [objectIds, mem_idsFrom]
  simp

end Column

theorem Slice.size_column {s : Slice} (hs : s.Valid) : s.column.size = s.size := by
  obtain ⟨-, hfits⟩ := hs
  unfold column
  cases hcontent : s.content with
  | item item =>
      rw [hcontent] at hfits
      rw [Column.size_ofItems, Slice.size, show s.shape = .scalar from hfits]
      rfl
  | column c =>
      rw [hcontent] at hfits
      exact hfits.2

end ObjectGraph
