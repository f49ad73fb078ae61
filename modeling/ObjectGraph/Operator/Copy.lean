import ObjectGraph.Walk.ShallowClone
import ObjectGraph.Workspace

/-!
# Copying slices

The operators that copy what a slice refers to into a new bag. They read through
the bag of the slice, and take the schema from a second slice: from its bag too,
unless this is the same bag. A clone is a shallow clone, followed by an extraction
of the fresh ids through both bags, so that all below the first level is copied
under its own ids.
-/

namespace ObjectGraph.Slice

/-- What a copy works on: the data, the schemas if they are kept elsewhere, and
the schema to begin with. -/
structure CopySource where
  data : View
  schemas : Option View
  schema : Item

/-- Checks the arguments of a copy. -/
def copySource (use : BagUse) (s schema : Slice) : Session CopySource := do
  let some bag := s.bag | throw (.noBag use)
  let some item := schema.item? | throw .schemaNotItem
  Schema.verify item
  let bags := (← get).bags
  let other := schema.bag.filter fun h => h ≠ bag
  return ⟨bags.view bag, other.map bags.view, item⟩

/-- The slice in a new bag that holds what the schema reaches from it. -/
def extract (s schema : Slice) : Session Slice := do
  let source ← copySource .extract s schema
  let store ← ObjectGraph.extract source.data source.schemas s.column source.schema
  let bag ← Workspace.newBag store
  return (s.withSchema source.schema).withBag bag

/-- The slice under fresh ids in a new bag that holds their first level. -/
def shallowClone (s schema : Slice) : Session Slice := do
  let source ← copySource .clone s schema
  let outcome ← modifyGetThe Workspace fun w =>
    let (outcome, allocator) := ObjectGraph.shallowClone source.data source.schemas s.column
      source.schema w.allocator
    (outcome, { w with allocator })
  let (store, column, item) ← outcome
  let cloned ←
    match s.content with
    | .item _ => pure (ofItem (column.get 0) item)
    | .column _ => ofColumn column s.shape item
  let bag ← Workspace.newBag store
  return cloned.withBag bag

/-- The slice under fresh ids in a new bag that holds all that is reached from
them. -/
def clone (s schema : Slice) : Session Slice := do
  let some bag := s.bag | throw (.noBag .clone)
  let cloned ← s.shallowClone schema
  let combined ← Workspace.combine [cloned.bag, some bag]
  let cloned := cloned.withBag combined
  cloned.extract cloned.schemaSlice

end ObjectGraph.Slice
