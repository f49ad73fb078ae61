import ObjectGraph.Bag.Basic
import ObjectGraph.Shape.Basic

/-!
# Slices

A slice is what operators take and return: a single item or a column with a
jagged shape, a schema, and the bag that the ids in it refer to. A shape without
dimensions goes with a single item, every other shape with a column of its size;
this is the predicate `Valid`.
-/

namespace ObjectGraph

/-- The items of a slice. -/
inductive Content where
  | item (item : Item)
  | column (column : Column)

/-- Items with a shape, a schema and a bag. -/
structure Slice where
  content : Content
  shape : Shape
  schema : Item
  bag : Option Handle

namespace Slice

/-- The shape is valid and fits the content. -/
def Valid (s : Slice) : Prop :=
  s.shape.Valid ∧
    match s.content with
    | .item _ => s.shape = .scalar
    | .column c => s.shape.edges ≠ [] ∧ c.size = s.shape.size

/-- A single item. -/
def ofItem (item schema : Item) : Slice :=
  ⟨.item item, .scalar, schema, none⟩

/-- A column with a shape of its size. Without dimensions it becomes an item. -/
def ofColumn (column : Column) (shape : Shape) (schema : Item) : Except Error Slice :=
  if shape.size ≠ column.size then .error (.shapeMismatch shape.size column.size)
  else if shape.rank = 0 then .ok ⟨.item (column.get 0), shape, schema, none⟩
  else .ok ⟨.column column, shape, schema, none⟩

/-- A column with one dimension. -/
def flat (column : Column) (schema : Item) : Slice :=
  ⟨.column column, .flat column.size, schema, none⟩

def withBag (s : Slice) (bag : Option Handle) : Slice :=
  { s with bag }

def withSchema (s : Slice) (schema : Item) : Slice :=
  { s with schema }

/-- The item of a slice without dimensions. -/
def item? (s : Slice) : Option Item :=
  match s.content with
  | .item item => some item
  | .column _ => none

/-- The items as a column, a single item filling one position. -/
def column (s : Slice) : Column :=
  match s.content with
  | .item item => .ofItems [item]
  | .column c => c

def rank (s : Slice) : Nat :=
  s.shape.rank

def size (s : Slice) : Nat :=
  s.shape.size

/-- The slice under the NoFollow form of its schema. -/
def noFollow (s : Slice) : Except Error Slice :=
  return s.withSchema (← Schema.noFollow s.schema)

/-- The slice under the schema whose NoFollow form it has. -/
def followed (s : Slice) : Except Error Slice :=
  return s.withSchema (← Schema.followed s.schema)

/-- The schema as a slice of its own, with the same bag. -/
def schemaSlice (s : Slice) : Slice :=
  (ofItem s.schema (.dtype .schema)).withBag s.bag

def render (s : Slice) : String :=
  match s.content with
  | .item item => "DataItem(" ++ item.render ++ ", schema: " ++ s.schema.render ++ ")"
  | .column c =>
    "DataSlice([" ++ ", ".intercalate (c.items.map Item.render) ++ "], rank: " ++
      toString s.rank ++ ", schema: " ++ s.schema.render ++ ")"

end Slice

end ObjectGraph
