import Std.Data.ExtTreeSet
import ObjectGraph.Value.Cell

/-!
# Columns

A column is a flat list of items in one of three representations: nothing but
missing items of no known type, values of one type with gaps, or items of any
types. What a column holds is read through `items`, and two columns are the same
when their items are, whatever the representations.

`ofItems` chooses the narrowest representation. `build` fills the positions of a
column one by one.
-/

namespace ObjectGraph

/-- A flat list of items. -/
inductive Column where
  /-- Missing items only, of no known type. -/
  | empty (size : Nat)
  /-- Values of one type, with gaps for missing items. -/
  | typed (type : ElementType) (cells : List (Option type.Value))
  /-- Items of any types. -/
  | mixed (items : List Item)

/-- A set of allocations, in ascending order. -/
abbrev AllocationSet := Std.ExtTreeSet AllocationId

namespace Column

/-- The item of a cell. -/
def cellItem {α : Type} [Cell α] : Option α → Item
  | some v => Cell.item v
  | none => .missing

/-- The items at all positions in order. -/
def items : Column → List Item
  | empty size => List.replicate size .missing
  | typed _ cells => cells.map cellItem
  | mixed items => items

def size : Column → Nat
  | empty size => size
  | typed _ cells => cells.length
  | mixed items => items.length

@[simp] theorem length_items (c : Column) : c.items.length = c.size := by
  cases c <;> simp [items, size]

/-- The item at a position; beyond the end it is missing. -/
def get (c : Column) (i : Nat) : Item :=
  c.items[i]?.getD .missing

/-- Whether two columns have the same items. -/
def same (c d : Column) : Bool :=
  c.items == d.items

def isUnknown : Column → Bool
  | empty _ => true
  | _ => false

def isMixed : Column → Bool
  | mixed _ => true
  | _ => false

/-- The type of a column of one type. -/
def type? : Column → Option ElementType
  | typed t _ => some t
  | _ => none

def presentCount (c : Column) : Nat :=
  c.items.countP Item.isPresent

/-- The positions from `start` on that hold ids, with the ids. -/
def idsFrom : Nat → List Item → List (Nat × ObjectId)
  | _, [] => []
  | start, item :: items =>
    match item.objectId? with
    | some id => (start, id) :: idsFrom (start + 1) items
    | none => idsFrom (start + 1) items

/-- The positions that hold ids, with the ids. -/
def objectIds (c : Column) : List (Nat × ObjectId) :=
  idsFrom 0 c.items

/-- The allocations of the ids of a column. -/
def allocations (c : Column) : AllocationSet :=
  c.objectIds.foldl (fun s p => s.insert p.2.allocationId) ∅

/-- A column of type `t`; items of another type leave gaps. -/
def ofType (t : ElementType) (items : List Item) : Column :=
  typed t (items.map t.value?)

/-- A column of ids. -/
def ofIds (ids : List (Option ObjectId)) : Column :=
  typed .itemId ids

/-- The types that occur among the items. -/
def types (items : List Item) : List ElementType :=
  items.filterMap Item.type?

/-- The narrowest column with the given items: unknown if none is present, of one
type if all present items have it, and mixed otherwise. -/
def ofItems (items : List Item) : Column :=
  match types items with
  | [] => empty items.length
  | t :: ts => if ts.all (· == t) then ofType t items else mixed items

@[simp] theorem items_empty (n : Nat) : (empty n).items = List.replicate n .missing := rfl

end Column

/-- A column under construction: the items so far, missing where none was put. -/
structure ColumnBuilder where
  items : List Item

namespace ColumnBuilder

/-- All positions missing. -/
def ofSize (size : Nat) : ColumnBuilder :=
  ⟨List.replicate size .missing⟩

/-- Puts an item at a position, if there is such a position. -/
def insert? (b : ColumnBuilder) (i : Nat) (item : Item) : Option ColumnBuilder :=
  if i < b.items.length then some ⟨b.items.set i item⟩ else none

/-- The column of the items put so far. -/
def build (b : ColumnBuilder) : Column :=
  .ofItems b.items

end ColumnBuilder

end ObjectGraph
