import Mathlib.Data.List.Induction
import Mathlib.Data.List.ReduceOption
import ObjectGraph.Proofs.Column.Items

/-!
# Building columns

A builder keeps the item that was put last at each position, and the column made of them
has the narrowest representation that holds them: unknown if none is present, of one type if
they have one, and mixed if two of them differ. A scan over the items decides between the
three; it stops at the first item of another type than those before it, and no item has one
of the tags that cannot be stored as a type.

Each representation finds its ids in its own way, and each collects the allocations as it is
made. Both are those of the items, whatever the representation, and so is equality.
-/

namespace ObjectGraph

namespace ColumnBuilder

/-- Puts items at positions, one after another. -/
def insertAll? (b : ColumnBuilder) (inserts : List (Nat × Item)) : Option ColumnBuilder :=
  inserts.foldlM (fun b p => b.insert? p.1 p.2) b

/-- The item that was put last at a position, missing if there is none. -/
def lastItem (inserts : List (Nat × Item)) (i : Nat) : Item :=
  ((inserts.filter fun p => p.1 = i).getLast?.map Prod.snd).getD .missing

theorem lastItem_concat (inserts : List (Nat × Item)) (i j : Nat) (item : Item) :
    lastItem (inserts ++ [(j, item)]) i = if j = i then item else lastItem inserts i := by
  rw [lastItem, List.filter_append]
  by_cases hji : j = i <;> simp [hji, lastItem]

/-- Items that are put in range can be put, and each position keeps the last one. -/
theorem exists_insertAll? {size : Nat} {inserts : List (Nat × Item)}
    (h : ∀ p ∈ inserts, p.1 < size) :
    ∃ b, (ofSize size).insertAll? inserts = some b ∧ b.items.length = size ∧
      ∀ i, b.items[i]?.getD .missing = lastItem inserts i := by
  induction inserts using List.reverseRecOn with
  | nil =>
      refine ⟨ofSize size, rfl, List.length_replicate, fun i => ?_⟩
      rw [ofSize, List.getElem?_replicate]
      split <;> rfl
  | append_singleton inserts p ih =>
      obtain ⟨b, hrun, hlength, hitems⟩ := ih fun q hq => h q (List.mem_append_left _ hq)
      obtain ⟨j, item⟩ := p
      have hj : j < b.items.length := by
        rw [hlength]
        exact h (j, item) (List.mem_append_right _ (List.mem_singleton_self _))
      refine ⟨⟨b.items.set j item⟩, ?_, List.length_set.trans hlength, fun i => ?_⟩
      · rw [insertAll?] at hrun ⊢
        rw [List.foldlM_append, hrun]
        simp [insert?, hj]
      · rw [lastItem_concat, ← hitems i, List.getElem?_set]
        by_cases hji : j = i
        · rw [if_pos hji, if_pos hj, if_pos hji, Option.getD_some]
        · rw [if_neg hji, if_neg hji]

end ColumnBuilder

namespace Column

variable {items : List Item} {c d : Column} {t u : ElementType} {i : Nat}

/-! ### Choosing the representation -/

/-- The tag of the first present item from here on, and whether a later one has another: the
scan stops there. -/
def scan : Option DType → List Item → Option DType × Bool
  | found, [] => (found, false)
  | found, item :: items =>
    match item.dtype?, found with
    | none, found => scan found items
    | some d, none => scan (some d) items
    | some d, some first => if d ≠ first then (some first, true) else scan (some first) items

/-- The column that the scan decides on. A tag that no item has makes none. -/
def scanned? (items : List Item) : Option Column :=
  match scan none items with
  | (none, _) => some (.empty items.length)
  | (some _, true) => some (.mixed items)
  | (some d, false) => (ElementType.ofDType? d).map fun t => ofType t items

theorem scan_some (t : ElementType) (items : List Item) :
    scan (some t.dtype) items = (some t.dtype, !(types items).all (· == t)) := by
  induction items with
  | nil => rfl
  | cons item items ih =>
      cases htype : item.type? with
      | none => simp [scan, types, Item.dtype?, htype, ih]
      | some u =>
          by_cases hut : u = t
          · simp [scan, types, Item.dtype?, htype, hut, ih]
          · simp [scan, types, Item.dtype?, htype, hut, ElementType.dtype_inj]

theorem scan_none (items : List Item) :
    scan none items = match types items with
      | [] => (none, false)
      | t :: ts => (some t.dtype, !ts.all (· == t)) := by
  induction items with
  | nil => rfl
  | cons item items ih =>
      cases htype : item.type? with
      | none => simpa [scan, types, Item.dtype?, htype] using ih
      | some t => simpa [scan, types, Item.dtype?, htype] using scan_some t items

theorem scanned?_eq (items : List Item) : scanned? items = some (ofItems items) := by
  rw [scanned?, scan_none, ofItems]
  cases types items with
  | nil => rfl
  | cons t ts => cases hall : ts.all (· == t) <;> simp [hall, ElementType.ofDType?_dtype]

theorem mem_types : t ∈ types c.items ↔ ∃ i, (c.get i).type? = some t := by
  rw [types, List.mem_filterMap]
  constructor
  · rintro ⟨item, hitem, htype⟩
    obtain ⟨i, hi⟩ := List.mem_iff_getElem?.1 hitem
    refine ⟨i, ?_⟩
    rw [get, hi]
    exact htype
  · rintro ⟨i, htype⟩
    cases hi : c.items[i]? with
    | none =>
        rw [get, hi] at htype
        cases htype
    | some item =>
        rw [get, hi] at htype
        exact ⟨item, List.mem_of_getElem? hi, htype⟩

/-- The representation of a column is the narrowest that its items allow. -/
structure Narrowest (c : Column) : Prop where
  unknown_iff : c.isUnknown = true ↔ ∀ i, c.get i = .missing
  typed_iff : ∀ d, c.type?.map ElementType.dtype = some d ↔
    (∃ i, c.get i ≠ .missing) ∧ ∀ i, c.get i ≠ .missing → (c.get i).dtype? = some d
  mixed_iff : c.isMixed = true ↔
    ∃ i j, c.get i ≠ .missing ∧ c.get j ≠ .missing ∧ (c.get i).dtype? ≠ (c.get j).dtype?

theorem ne_missing_of_type? {item : Item} (h : item.type? = some t) : item ≠ .missing := by
  rintro rfl
  cases h

theorem dtype?_of_type? {item : Item} (h : item.type? = some t) : item.dtype? = some t.dtype := by
  rw [Item.dtype?, h]
  rfl

theorem narrowest_empty (n : Nat) : (empty n).Narrowest where
  unknown_iff := by simp [isUnknown]
  typed_iff := by simp [type?]
  mixed_iff := by simp [isMixed]

/-- A column of one type, of which there is an item. -/
theorem narrowest_typed {cells : List (Option t.Value)} (ht : t ∈ types (typed t cells).items) :
    (typed t cells).Narrowest := by
  obtain ⟨i, hi⟩ := mem_types.1 ht
  have hall : ∀ j, (typed t cells).get j ≠ .missing →
      ((typed t cells).get j).dtype? = some t.dtype := by
    intro j hj
    cases hcell : cells[j]? with
    | none => simp [get, Column.items, hcell] at hj
    | some cell =>
        cases cell with
        | none => simp [get, Column.items, hcell, cellItem] at hj
        | some v =>
            rw [get_typed hcell]
            exact dtype?_of_type? (ElementType.type?_item t v)
  constructor
  case unknown_iff =>
    exact iff_of_false Bool.false_ne_true fun hmissing => ne_missing_of_type? hi (hmissing i)
  case typed_iff =>
    intro d
    constructor
    · intro hd
      obtain rfl : t.dtype = d := Option.some.inj hd
      exact ⟨⟨i, ne_missing_of_type? hi⟩, hall⟩
    · rintro ⟨⟨j, hj⟩, hdtype⟩
      exact (hall j hj).symm.trans (hdtype j hj)
  case mixed_iff =>
    refine iff_of_false Bool.false_ne_true ?_
    rintro ⟨j, k, hj, hk, hne⟩
    exact hne ((hall j hj).trans (hall k hk).symm)

/-- A column of any items, of which two have different types. -/
theorem narrowest_mixed (ht : t ∈ types items) (hu : u ∈ types items) (hne : t ≠ u) :
    (mixed items).Narrowest := by
  obtain ⟨i, hi⟩ := (mem_types (c := mixed items)).1 ht
  obtain ⟨j, hj⟩ := (mem_types (c := mixed items)).1 hu
  have hdtypes : ((mixed items).get i).dtype? ≠ ((mixed items).get j).dtype? := by
    rw [dtype?_of_type? hi, dtype?_of_type? hj]
    exact fun heq => hne (ElementType.dtype_inj.1 (Option.some.inj heq))
  refine ⟨⟨nofun, fun hmissing => absurd (hmissing i) (ne_missing_of_type? hi)⟩, fun d =>
    ⟨nofun, ?_⟩, fun _ => ⟨i, j, ne_missing_of_type? hi, ne_missing_of_type? hj, hdtypes⟩,
    fun _ => rfl⟩
  rintro ⟨-, hdtype⟩
  exact absurd ((hdtype i (ne_missing_of_type? hi)).trans (hdtype j (ne_missing_of_type? hj)).symm)
    hdtypes

theorem narrowest_ofItems (items : List Item) : (ofItems items).Narrowest := by
  have hitems := items_ofItems items
  rw [ofItems] at hitems ⊢
  cases htypes : types items with
  | nil => exact narrowest_empty _
  | cons t ts =>
      have ht : t ∈ types items := htypes ▸ List.mem_cons_self
      cases hall : ts.all (· == t) with
      | true =>
          rw [htypes] at hitems
          simp only [hall, if_true] at hitems ⊢
          exact narrowest_typed (by rwa [← hitems] at ht)
      | false =>
          simp only [hall, Bool.false_eq_true, if_false]
          obtain ⟨u, hu, hne⟩ := List.all_eq_false.1 hall
          rw [beq_iff_eq] at hne
          exact narrowest_mixed ht (htypes ▸ List.mem_cons_of_mem t hu) (Ne.symm hne)

/-! ### Ids and allocations -/

/-- The ids that a column stores, with their positions. -/
def storedIds : Column → List (Nat × ObjectId)
  | .empty _ => []
  | .typed .itemId ids => ids.zipIdx.filterMap fun p => p.1.map fun id => (p.2, id)
  | .typed _ _ => []
  | .mixed items => items.zipIdx.filterMap fun p => p.1.objectId?.map fun id => (p.2, id)

/-- The allocations of ids. -/
def allocationsOf (ids : List ObjectId) : AllocationSet :=
  ids.foldl (fun s id => s.insert id.allocationId) ∅

/-- The allocations that are collected when a column is made. -/
def storedAllocations : Column → AllocationSet
  | .empty _ => ∅
  | .typed .itemId ids => allocationsOf ids.reduceOption
  | .typed _ _ => ∅
  | .mixed items => allocationsOf (items.filterMap Item.objectId?)

theorem idsFrom_eq (start : Nat) (items : List Item) : idsFrom start items =
    (items.zipIdx start).filterMap fun p => p.1.objectId?.map fun id => (p.2, id) := by
  induction items generalizing start with
  | nil => rfl
  | cons item items ih =>
      rw [idsFrom, List.zipIdx_cons, ih]
      cases hid : item.objectId? <;> simp [hid]

theorem map_snd_idsFrom (start : Nat) (items : List Item) :
    (idsFrom start items).map Prod.snd = items.filterMap Item.objectId? := by
  induction items generalizing start with
  | nil => rfl
  | cons item items ih =>
      rw [idsFrom, List.filterMap_cons]
      cases item.objectId? with
      | none => exact ih (start + 1)
      | some id => exact congrArg (id :: ·) (ih (start + 1))

theorem pairwise_idsFrom (start : Nat) (items : List Item) :
    (idsFrom start items).Pairwise fun p q => p.1 < q.1 := by
  induction items generalizing start with
  | nil => exact .nil
  | cons item items ih =>
      rw [idsFrom]
      cases item.objectId? with
      | none => exact ih (start + 1)
      | some id =>
          refine List.pairwise_cons.2 ⟨fun p hp => ?_, ih (start + 1)⟩
          obtain ⟨k, hk, -⟩ := mem_idsFrom.1 hp
          rw [hk]
          exact Nat.lt_of_lt_of_le (Nat.lt_succ_self start) (Nat.le_add_right _ k)

theorem objectIds_eq_nil (h : c.items.filterMap Item.objectId? = []) : c.objectIds = [] :=
  List.map_eq_nil_iff.1 ((map_snd_idsFrom 0 c.items).trans h)

theorem allocations_eq (c : Column) :
    c.allocations = allocationsOf (c.items.filterMap Item.objectId?) := by
  rw [allocations, objectIds, allocationsOf, ← map_snd_idsFrom 0, List.foldl_map]

theorem filterMap_objectId?_empty (n : Nat) : (empty n).items.filterMap Item.objectId? = [] :=
  List.filterMap_replicate_of_none rfl

/-- The values of another type are no ids. -/
theorem filterMap_objectId?_typed (ht : t ≠ .itemId) (cells : List (Option t.Value)) :
    (typed t cells).items.filterMap Item.objectId? = [] := by
  rw [List.filterMap_eq_nil_iff]
  intro item hitem
  obtain ⟨cell, -, rfl⟩ := List.mem_map.1 hitem
  cases cell with
  | none => rfl
  | some v => cases t <;> first | rfl | exact absurd rfl ht

theorem objectId?_cellItem (cell : Option ObjectId) : (cellItem cell).objectId? = cell := by
  cases cell <;> rfl

theorem storedIds_eq (c : Column) : c.storedIds = c.objectIds := by
  cases c with
  | empty n => exact (objectIds_eq_nil (filterMap_objectId?_empty n)).symm
  | mixed items => exact (idsFrom_eq 0 items).symm
  | typed t cells =>
      cases t with
      | itemId =>
          rw [objectIds, Column.items, idsFrom_eq, List.zipIdx_map, List.filterMap_map]
          refine List.filterMap_congr fun p _ => ?_
          exact (congrArg (Option.map _) (objectId?_cellItem p.1)).symm
      | _ => exact (objectIds_eq_nil (filterMap_objectId?_typed (by decide) cells)).symm

theorem storedAllocations_eq (c : Column) : c.storedAllocations = c.allocations := by
  rw [allocations_eq]
  cases c with
  | empty n => exact congrArg allocationsOf (filterMap_objectId?_empty n).symm
  | mixed items => rfl
  | typed t cells =>
      cases t with
      | itemId =>
          rw [Column.items, List.filterMap_map]
          exact congrArg allocationsOf (List.filterMap_congr fun cell _ =>
            (objectId?_cellItem cell).symm)
      | _ => exact congrArg allocationsOf (filterMap_objectId?_typed (by decide) cells).symm

theorem mem_allocationsOf {ids : List ObjectId} {a : AllocationId} :
    a ∈ allocationsOf ids ↔ ∃ id ∈ ids, id.allocationId = a := by
  have hfold : ∀ s : AllocationSet, a ∈ ids.foldl (fun s id => s.insert id.allocationId) s ↔
      a ∈ s ∨ ∃ id ∈ ids, id.allocationId = a := by
    induction ids with
    | nil => simp
    | cons id ids ih =>
        intro s
        rw [List.foldl_cons, ih, Std.ExtTreeSet.mem_insert, Std.LawfulEqOrd.compare_eq_iff_eq]
        simp [or_left_comm, or_assoc]
  rw [allocationsOf, hfold]
  simp

/-- The ids of a column are those of its items, in the order of the positions, and so are the
allocations. Both are what is stored. -/
structure ListsIds (c : Column) : Prop where
  mem_iff : ∀ i id, (i, id) ∈ c.objectIds ↔ c.get i = .objectId id
  ascending : c.objectIds.Pairwise fun p q => p.1 < q.1
  stored : c.storedIds = c.objectIds
  mem_allocations_iff : ∀ a, a ∈ c.allocations ↔
    ∃ i id, c.get i = .objectId id ∧ id.allocationId = a
  allocated : c.storedAllocations = c.allocations

theorem mem_objectIds_iff_get {id : ObjectId} : (i, id) ∈ c.objectIds ↔ c.get i = .objectId id := by
  rw [mem_objectIds]
  constructor
  · intro hi
    rw [get, hi]
    rfl
  · intro hget
    rw [getElem?_items (lt_size_of_get hget), hget]

theorem listsIds (c : Column) : c.ListsIds where
  mem_iff := fun i id => mem_objectIds_iff_get
  ascending := pairwise_idsFrom 0 c.items
  stored := storedIds_eq c
  allocated := storedAllocations_eq c
  mem_allocations_iff := by
    intro a
    rw [allocations_eq, mem_allocationsOf, ← map_snd_idsFrom 0]
    constructor
    · rintro ⟨id, hid, ha⟩
      obtain ⟨⟨i, id⟩, hp, rfl⟩ := List.mem_map.1 hid
      exact ⟨i, id, mem_objectIds_iff_get.1 hp, ha⟩
    · rintro ⟨i, id, hget, ha⟩
      exact ⟨id, List.mem_map.2 ⟨(i, id), mem_objectIds_iff_get.2 hget, rfl⟩, ha⟩

/-- Columns are the same when they have one size and the same item at each position. -/
theorem same_iff : c.same d = true ↔ c.size = d.size ∧ ∀ i, c.get i = d.get i := by
  rw [same, beq_iff_eq]
  constructor
  · intro heq
    refine ⟨?_, fun i => by rw [get, get, heq]⟩
    rw [← length_items, heq, length_items]
  · rintro ⟨hsize, hget⟩
    refine List.ext_getElem? fun i => ?_
    by_cases hi : i < c.size
    · rw [getElem?_items hi, getElem?_items (hsize ▸ hi), hget]
    · rw [List.getElem?_eq_none (by simpa using hi),
        List.getElem?_eq_none (by simpa [← hsize] using hi)]

end Column

namespace ColumnBuilder

/-- A column of the items that were put last. -/
structure Built (size : Nat) (inserts : List (Nat × Item)) (c : Column) : Prop where
  size_eq : c.size = size
  get_eq : ∀ i, c.get i = lastItem inserts i
  narrowest : c.Narrowest

end ColumnBuilder

open ColumnBuilder

/-- Items that are put in range make the narrowest column that holds the last one at each
position. Every column, built or given by its values, lists the ids of its items with their
allocations, and equality asks for the items alone. -/
theorem column_of_inserts (size : Nat) (inserts : List (Nat × Item))
    (h : ∀ p ∈ inserts, p.1 < size) :
    (∃ b, (ofSize size).insertAll? inserts = some b ∧ Column.scanned? b.items = some b.build ∧
        Built size inserts b.build) ∧
      (∀ c : Column, c.ListsIds) ∧
      ∀ c d : Column, c.same d = true ↔ c.size = d.size ∧ ∀ i, c.get i = d.get i := by
  obtain ⟨b, hrun, hlength, hitems⟩ := exists_insertAll? h
  refine ⟨⟨b, hrun, Column.scanned?_eq b.items, ?_⟩, Column.listsIds, fun c d => Column.same_iff⟩
  refine ⟨(Column.size_ofItems b.items).trans hlength, fun i => ?_,
    Column.narrowest_ofItems b.items⟩
  rw [← hitems i, build, Column.get, Column.items_ofItems]

namespace Shelf

/-- A number that gives way to the NoFollow form of a schema id, a book, and a place left free. -/
def inserts : List (Nat × Item) :=
  [(2, .int32 5), (0, .objectId ⟨1, 0, .entity⟩), (2, .objectId ⟨4, 0, .nofollow⟩)]

theorem column_of_shelf : (∀ p ∈ inserts, p.1 < 4) ∧
    (∃ b, (ofSize 4).insertAll? inserts = some b ∧ Column.scanned? b.items = some b.build ∧
        Built 4 inserts b.build) ∧
      (∀ c : Column, c.ListsIds) ∧
      ∀ c d : Column, c.same d = true ↔ c.size = d.size ∧ ∀ i, c.get i = d.get i :=
  ⟨by decide, column_of_inserts 4 inserts (by decide)⟩

example : ((ofSize 4).insertAll? inserts).map (fun b => (b.build.type?, b.build.objectIds)) =
    some (some .itemId, [(0, ⟨1, 0, .entity⟩), (2, ⟨4, 0, .nofollow⟩)]) := by
  decide

end Shelf

end ObjectGraph
