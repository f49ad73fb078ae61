import ObjectGraph.Grouping.Refine
import ObjectGraph.Slice

/-!
# Grouping and distinct values

Both operators work on the last dimension of a slice, segment by segment.
`groupBy` puts the positions of a segment into groups with equal keys and returns,
group by group, the positions counted from the start of the segment: the result
has one dimension more than its arguments. `unique` keeps one item of each group
that its only argument would form.
-/

namespace ObjectGraph

namespace Grouping

/-- Rejects the columns that cannot be put in ascending order. -/
def checkSortable (c : Column) : Except Error Unit :=
  match c with
  | .mixed _ => .error .sortMixed
  | .empty _ => .ok ()
  | .typed t _ => if t.dtype.isSortable then .ok () else .error (.sortType t.dtype)

/-- One group for each segment, of all its positions. -/
def wholeSegments (edge : Edge) : List (List (Option Nat)) :=
  edge.sizes.map fun size => List.replicate size (some 0)

/-- Splits the groups by one key after another. -/
def refineKeys (sorted : Bool) (shape : Shape) (edge : Edge) :
    List (List (Option Nat)) → List Slice → Except Error (List (List (Option Nat)))
  | groups, [] => .ok groups
  | groups, key :: keys => do
    if !key.shape.isEquivalentTo shape then throw .groupKeyShapes
    if sorted then checkSortable key.column
    refineKeys sorted shape edge (refineColumn sorted edge groups key.column) keys

/-- The positions of a segment that are in a group. -/
def positionsIn (segment : List (Option Nat)) (group : Nat) : List Nat :=
  (segment.zipIdx.filter fun p => p.1 = some group).map Prod.snd

/-- The positions of a segment, group by group. -/
def groupsOf (segment : List (Option Nat)) : List (List Nat) :=
  ((List.range segment.length).map (positionsIn segment)).filter fun group => !group.isEmpty

end Grouping

open Grouping

/-- The positions of the last dimension, grouped by the tuple of the keys.
Positions that are missing in a key are in no group. -/
def groupBy (sorted : Bool) : List Slice → Except Error Slice
  | [] => .error .noGroupKeys
  | first :: keys =>
    match first.shape.edges.getLast? with
    | none => .error .groupByScalar
    | some edge => do
      let groups ← refineKeys sorted first.shape edge (wholeSegments edge) (first :: keys)
      let perSegment := groups.map groupsOf
      let perGroup := perSegment.flatten
      let shape ← (first.shape.removeDims (first.rank - 1)).addDims
        [⟨perSegment.map List.length⟩, ⟨perGroup.map List.length⟩]
      let indices := perGroup.flatten.map fun i => some (Int64.ofNat i)
      Slice.ofColumn (.typed .int64 indices) shape (.dtype .int64)

/-- The distinct items of the last dimension, segment by segment. The flag says
whether they are put in ascending order. A scalar is returned as it is. -/
def unique (x flag : Slice) : Except Error Slice :=
  match x.shape.edges.getLast? with
  | none => .ok x
  | some edge => do
    let some sorted := flag.item?.bind Item.bool? | throw .sortFlag
    if sorted then checkSortable x.column
    let perSegment := distinctItems sorted edge x.column
    let shape ← (x.shape.removeDims (x.rank - 1)).addDims [⟨perSegment.map List.length⟩]
    return (← Slice.ofColumn (.ofItems perSegment.flatten) shape x.schema).withBag x.bag

end ObjectGraph
