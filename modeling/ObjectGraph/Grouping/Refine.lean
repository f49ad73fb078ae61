import ObjectGraph.Column.Basic
import ObjectGraph.Shape.Edge

/-!
# Refining groups by a key

Each position of a segment is in a group, given by a number, or in none. A further
key splits the groups: positions stay together when they were together and have
values with one grouping key, and a position without a value leaves its group. The
new groups are numbered in the order of their first positions or, when sorted, by
the old group and then the value.

The algorithm is stated once for all kinds of cells, so a column of one type is
refined on its plain values and a mixed column on its items.
-/

namespace ObjectGraph.Grouping

/-- The members of a list without those that are the same as an earlier one. -/
def distinctBy {α : Type} (same : α → α → Bool) : List α → List α
  | [] => []
  | a :: as => a :: (distinctBy same as).filter fun b => !same a b

/-- Ascending order, in which values without an order count as equal. -/
def ascending {α : Type} [Cell α] (a b : α) : Bool :=
  ((Cell.sortCmp a b).getD .eq).isLE

section Cells

variable {α : Type} [DecidableEq α] [Cell α]

/-- Whether two values are one grouping key. -/
def sameKey (a b : α) : Bool :=
  Cell.key a == Cell.key b

/-- The old groups and the values of the positions that have both. -/
def members (groups : List (Option Nat)) (cells : List (Option α)) :
    List (Option (Nat × α)) :=
  groups.zipWith (fun group cell => group.bind fun g => cell.map fun v => (g, v)) cells

/-- Whether two members stay together. -/
def sameClass (a b : Nat × α) : Bool :=
  a.1 == b.1 && sameKey a.2 b.2

/-- The order of members by the old group and then the value. -/
def classOrder (a b : Nat × α) : Bool :=
  ((compare a.1 b.1).then ((Cell.sortCmp a.2 b.2).getD .eq)).isLE

/-- The first member of every new group, in the order of the new numbers. -/
def classes (sorted : Bool) (ms : List (Nat × α)) : List (Nat × α) :=
  let firsts := distinctBy sameClass ms
  if sorted then firsts.mergeSort classOrder else firsts

/-- The groups of one segment after splitting them by the values of a key. -/
def refine (sorted : Bool) (groups : List (Option Nat)) (cells : List (Option α)) :
    List (Option Nat) :=
  let ms := members groups cells
  let firsts := classes sorted ms.reduceOption
  ms.map fun m => m.bind fun m => firsts.findIdx? (sameClass m)

/-- The distinct values of one segment, in the order of their first positions or
in ascending order. -/
def distinctValues (sorted : Bool) (cells : List (Option α)) : List α :=
  let firsts := distinctBy sameKey cells.reduceOption
  if sorted then firsts.mergeSort ascending else firsts

end Cells

/-- The value of a present item, as a cell of a mixed column. -/
def presentCell (item : Item) : Option Item :=
  if item.isPresent then some item else none

/-- The groups of all segments after splitting them by the column of a key. -/
def refineColumn (sorted : Bool) (edge : Edge) (groups : List (List (Option Nat))) :
    Column → List (List (Option Nat))
  | .empty _ => groups.map fun segment => segment.map fun _ => none
  | .typed _ cells => groups.zipWith (refine sorted) (edge.segments cells)
  | .mixed items => groups.zipWith (refine sorted) (edge.segments (items.map presentCell))

/-- The distinct items of all segments of a column. -/
def distinctItems (sorted : Bool) (edge : Edge) : Column → List (List Item)
  | .empty _ => edge.sizes.map fun _ => []
  | .typed _ cells =>
    (edge.segments cells).map fun segment => (distinctValues sorted segment).map Cell.item
  | .mixed items => (edge.segments (items.map presentCell)).map (distinctValues sorted)

end ObjectGraph.Grouping
