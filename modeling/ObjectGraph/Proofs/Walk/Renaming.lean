import Mathlib.Data.List.Nodup
import ObjectGraph.Proofs.Column.Items
import ObjectGraph.Proofs.Store.Reading
import ObjectGraph.Walk.ShallowClone

/-!
# Fresh ids

The renaming of a column is injective on its objects, as long as their positions fit
into the offset of an id, and keeps their kinds. A fresh id belongs to one of the
next three allocations, since the objects of a column have at most three kinds. An id
outside of these is called earlier.
-/

namespace ObjectGraph

namespace Allocator

/-- An id in none of the next three allocations. -/
def Earlier (a : Allocator) (id : ObjectId) : Prop :=
  ∀ k < 3, id.allocation ≠ (a.skip k).number

instance (a : Allocator) (id : ObjectId) : Decidable (a.Earlier id) :=
  inferInstanceAs (Decidable (∀ k < 3, id.allocation ≠ (a.skip k).number))

@[simp] theorem skip_zero (a : Allocator) : a.skip 0 = a := by
  simp [skip]

theorem skip_skip (a : Allocator) (j k : Nat) : (a.skip j).skip k = a.skip (j + k) := by
  simp [skip, UInt64.ofNat_add, UInt64.add_assoc]

end Allocator

theorem Column.mem_roots {c : Column} {x : ObjectId} :
    x ∈ c.roots ↔ .objectId x ∈ c.items ∧ x.isSchema = false := by
  simp only [roots, List.mem_filterMap, Item.child?_eq_some_iff]
  constructor
  · rintro ⟨item, hitem, rfl, hx⟩
    exact ⟨hitem, hx⟩
  · rintro ⟨hitem, hx⟩
    exact ⟨_, hitem, rfl, hx⟩

namespace Renaming

variable {c : Column} {a : Allocator} {x y : ObjectId}

theorem allocateKinds_cons (kind : Kind) (kinds : List Kind) (a : Allocator) :
    (allocateKinds (kind :: kinds) a).1 =
      (kind, (a.allocate kind).1) :: (allocateKinds kinds (a.allocate kind).2).1 :=
  rfl

theorem mem_allocateKinds {kinds : List Kind} {kind : Kind} {allocation : AllocationId}
    (h : (kind, allocation) ∈ (allocateKinds kinds a).1) :
    allocation.kind = kind ∧ ∃ k < kinds.length,
      allocation.number = (a.skip k).number := by
  induction kinds generalizing a with
  | nil => cases h
  | cons first kinds ih =>
      rw [allocateKinds_cons, List.mem_cons] at h
      rcases h with h | h
      · obtain ⟨rfl, rfl⟩ := Prod.mk.inj h
        exact ⟨rfl, 0, Nat.succ_pos _, by rw [Allocator.skip_zero]; rfl⟩
      · obtain ⟨hkind, k, hk, hnumber⟩ := ih h
        refine ⟨hkind, k + 1, Nat.succ_lt_succ hk, ?_⟩
        rw [hnumber, Nat.add_comm k 1, ← Allocator.skip_skip]
        rfl

theorem exists_lookup_allocateKinds {kinds : List Kind} {kind : Kind} (a : Allocator)
    (h : kind ∈ kinds) : ∃ allocation, (allocateKinds kinds a).1.lookup kind = some allocation := by
  induction kinds generalizing a with
  | nil => cases h
  | cons first kinds ih =>
      rw [allocateKinds_cons, List.lookup_cons]
      by_cases heq : kind = first
      · exact ⟨(a.allocate first).1, by simp [heq]⟩
      · obtain ⟨allocation, hlookup⟩ := ih (a.allocate first).2 (List.mem_of_ne_of_mem heq h)
        have hne : (kind == first) = false := by simpa using heq
        exact ⟨allocation, by rw [hne]; exact hlookup⟩

theorem length_le_three {kinds : List Kind} (h : kinds.Nodup) (hs : Kind.schema ∉ kinds) :
    kinds.length ≤ 3 := by
  have hsub : kinds ⊆ [.entity, .list, .dict] := by
    intro kind hkind
    cases kind with
    | schema => exact absurd hkind hs
    | _ => decide
  exact (List.subperm_of_subset h hsub).length_le

theorem mem_positions {i : Nat} :
    (i, x) ∈ (ofColumn c a).1.positions ↔
      c.items[i]? = some (.objectId x) ∧ x.isSchema = false := by
  simp [ofColumn, Column.mem_objectIds]

/-- The kinds of the objects of a column. -/
def kinds (c : Column) : List Kind :=
  ((c.objectIds.filter fun p => !p.2.isSchema).map fun p => p.2.kind).eraseDups

theorem length_kinds_le (c : Column) : (kinds c).length ≤ 3 := by
  refine length_le_three (nodup_eraseDups _) fun h => ?_
  obtain ⟨p, hp, hkind⟩ := List.mem_map.1 (List.mem_eraseDups.1 h)
  have hplain := (List.mem_filter.1 hp).2
  simp [ObjectId.isSchema, hkind] at hplain

theorem exists_position (hx : x ∈ c.roots) : ∃ i, (i, x) ∈ (ofColumn c a).1.positions := by
  obtain ⟨hitem, hplain⟩ := Column.mem_roots.1 hx
  obtain ⟨i, hi⟩ := List.mem_iff_getElem?.1 hitem
  exact ⟨i, mem_positions.2 ⟨hi, hplain⟩⟩

/-- The fresh id of an object: a position of it, in an allocation of its kind. -/
theorem exists_rename_eq (a : Allocator) (hx : x ∈ c.roots) :
    ∃ (i : Nat) (allocation : AllocationId), c.items[i]? = some (.objectId x) ∧
      allocation.kind = x.kind ∧
      (∃ k < 3, allocation.number = (a.skip k).number) ∧
      (ofColumn c a).1.rename x = allocation.objectId (.ofNat i) := by
  obtain ⟨j, hj⟩ := exists_position hx (a := a)
  have hkind : x.kind ∈ kinds c := by
    have hmap : x.kind ∈ (ofColumn c a).1.positions.map fun p => p.2.kind :=
      List.mem_map.2 ⟨_, hj, rfl⟩
    exact List.mem_eraseDups.2 hmap
  obtain ⟨allocation, hlookup⟩ := exists_lookup_allocateKinds a hkind
  have hmem : (x.kind, allocation) ∈ (allocateKinds (kinds c) a).1 := by
    obtain ⟨before, after, heq, -⟩ := List.lookup_eq_some_iff.1 hlookup
    rw [heq]
    exact List.mem_append_right _ List.mem_cons_self
  obtain ⟨hallocation, k, hk, hnumber⟩ := mem_allocateKinds hmem
  cases hfind : (ofColumn c a).1.positions.find? fun p => p.2 = x with
  | none =>
      have hne := List.find?_eq_none.1 hfind _ hj
      simp at hne
  | some p =>
      obtain ⟨i, y⟩ := p
      obtain rfl : y = x := by simpa using List.find?_some hfind
      have hi := mem_positions.1 (List.mem_of_find?_eq_some hfind)
      refine ⟨i, allocation, hi.1, hallocation, ⟨k, hk.trans_le (length_kinds_le c), hnumber⟩, ?_⟩
      rw [rename, hfind, show (ofColumn c a).1.allocations.lookup y.kind = some allocation from
        hlookup]

theorem rename_of_notMem (a : Allocator) (hx : x ∉ c.roots) : (ofColumn c a).1.rename x = x := by
  have hfind : ((ofColumn c a).1.positions.find? fun p => p.2 = x) = none := by
    rw [List.find?_eq_none]
    rintro ⟨i, y⟩ hp heq
    obtain rfl : y = x := by simpa using heq
    obtain ⟨hi, hplain⟩ := mem_positions.1 hp
    exact hx (Column.mem_roots.2 ⟨List.mem_of_getElem? hi, hplain⟩)
  rw [rename, hfind]

/-- A fresh id has the kind of its object. -/
theorem kind_rename (c : Column) (a : Allocator) (x : ObjectId) :
    ((ofColumn c a).1.rename x).kind = x.kind := by
  by_cases hx : x ∈ c.roots
  · obtain ⟨i, allocation, -, hkind, -, hrename⟩ := exists_rename_eq a hx
    rw [hrename, ← hkind]
    exact Kind.kind_tag _
  · rw [rename_of_notMem a hx]

theorem isSchema_rename (c : Column) (a : Allocator) (x : ObjectId) :
    ((ofColumn c a).1.rename x).isSchema = x.isSchema := by
  rw [ObjectId.isSchema, kind_rename, ObjectId.isSchema]

/-- Objects have different fresh ids. -/
theorem rename_inj (hsize : c.size < UInt32.size) (hx : x ∈ c.roots) (hy : y ∈ c.roots)
    (h : (ofColumn c a).1.rename x = (ofColumn c a).1.rename y) : x = y := by
  obtain ⟨i, allocation, hi, -, -, hrename⟩ := exists_rename_eq a hx
  obtain ⟨j, allocation', hj, -, -, hrename'⟩ := exists_rename_eq a hy
  have hlt : i < c.size := by
    rw [← Column.length_items]
    exact (List.getElem?_eq_some_iff.1 hi).1
  have hlt' : j < c.size := by
    rw [← Column.length_items]
    exact (List.getElem?_eq_some_iff.1 hj).1
  rw [hrename, hrename'] at h
  have hoffset : UInt32.ofNat i = UInt32.ofNat j := congrArg ObjectId.offset h
  have hij := congrArg UInt32.toNat hoffset
  rw [UInt32.toNat_ofNat_of_lt' (hlt.trans hsize), UInt32.toNat_ofNat_of_lt' (hlt'.trans hsize)]
    at hij
  subst hij
  exact Item.objectId.inj (Option.some.inj (hi.symm.trans hj))

/-- Fresh ids are not earlier. -/
theorem not_earlier_rename (hx : x ∈ c.roots) : ¬ a.Earlier ((ofColumn c a).1.rename x) := by
  obtain ⟨i, allocation, -, -, ⟨k, hk, hnumber⟩, hrename⟩ := exists_rename_eq a hx
  intro h
  rw [hrename] at h
  exact h k hk hnumber

/-! ### Columns -/

theorem child?_renameItem (c : Column) (a : Allocator) (item : Item) :
    ((ofColumn c a).1.renameItem item).child? = item.child?.map (ofColumn c a).1.rename := by
  cases hc : item.child? with
  | none => simp [renameItem, hc]
  | some x =>
      have hplain : ((ofColumn c a).1.rename x).isSchema = false :=
        (isSchema_rename c a x).trans (Item.child?_eq_some_iff.1 hc).2
      rw [renameItem, hc]
      exact Item.child?_eq_some_iff.2 ⟨rfl, hplain⟩

@[simp] theorem items_renameColumn (r : Renaming) (c : Column) :
    (r.renameColumn c).items = c.items.map r.renameItem :=
  Column.items_ofItems _

@[simp] theorem size_renameColumn (r : Renaming) (c : Column) :
    (r.renameColumn c).size = c.size := by
  rw [← Column.length_items, items_renameColumn, List.length_map, Column.length_items]

theorem get_renameColumn (r : Renaming) (c : Column) (i : Nat) :
    (r.renameColumn c).get i = r.renameItem (c.get i) := by
  rw [Column.get, items_renameColumn, List.getElem?_map, Column.get]
  cases c.items[i]? with
  | none => rfl
  | some item => rfl

theorem roots_renameColumn (c : Column) (a : Allocator) :
    ((ofColumn c a).1.renameColumn c).roots = c.roots.map (ofColumn c a).1.rename := by
  rw [Column.roots, items_renameColumn, List.filterMap_map, Column.roots, List.map_filterMap]
  exact List.filterMap_congr fun item _ => child?_renameItem c a item

end Renaming

end ObjectGraph
