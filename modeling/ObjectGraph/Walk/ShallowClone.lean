import ObjectGraph.Walk.Extract

/-!
# Shallow clones

A shallow clone gives the objects of a column fresh ids and copies their first
level: their attributes, items and entries, without what these lead to. All
objects of one kind get one allocation, made when the kind is first met, and the
offset of a fresh id is the first position of its object in the column. The
allocation numbers are used up also when the copy fails.
-/

namespace ObjectGraph

/-- The fresh ids of the objects of a column. -/
structure Renaming where
  /-- The objects with their positions, in order. -/
  positions : List (Nat × ObjectId)
  /-- The allocation of the fresh ids of each kind. -/
  allocations : List (Kind × AllocationId)

namespace Renaming

/-- One allocation for each kind of a list. -/
def allocateKinds : List Kind → Allocator → List (Kind × AllocationId) × Allocator
  | [], a => ([], a)
  | kind :: kinds, a =>
    let (allocation, a) := a.allocate kind
    let (rest, a) := allocateKinds kinds a
    ((kind, allocation) :: rest, a)

/-- Fresh ids for the objects of a column. -/
def ofColumn (c : Column) (a : Allocator) : Renaming × Allocator :=
  let positions := c.objectIds.filter fun p => !p.2.isSchema
  let kinds := (positions.map fun p => p.2.kind).eraseDups
  let (allocations, a) := allocateKinds kinds a
  (⟨positions, allocations⟩, a)

/-- The fresh id of an object; other ids stay as they are. -/
def rename (r : Renaming) (id : ObjectId) : ObjectId :=
  match r.positions.find? fun p => p.2 = id, r.allocations.lookup id.kind with
  | some p, some allocation => allocation.objectId (.ofNat p.1)
  | _, _ => id

/-- Renames the object that an item leads to. -/
def renameItem (r : Renaming) (item : Item) : Item :=
  match item.child? with
  | some id => .objectId (r.rename id)
  | none => item

/-- Renames the objects of a column. -/
def renameColumn (r : Renaming) (c : Column) : Column :=
  .ofItems (c.items.map r.renameItem)

end Renaming

/-- The walk that copies the first level of the renamed objects. -/
def Walk.firstLevel (data : View) (schemas : Option View) (r : Renaming) : Walk :=
  ⟨data, schemas, r.rename, true⟩

/-- The first level of the objects of a column under fresh ids, the column of these
ids, and the schema that they are typed with. -/
def shallowClone (data : View) (schemas : Option View) (objects : Column) (schema : Item)
    (a : Allocator) : Except Error (Store × Column × Item) × Allocator :=
  let (r, a) := Renaming.ofColumn objects a
  let result := (Walk.firstLevel data schemas r).run objects.roots schema
  (result.map fun store => (store, r.renameColumn objects, schema), a)

end ObjectGraph
