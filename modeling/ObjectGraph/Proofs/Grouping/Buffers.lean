import ObjectGraph.Grouping.GroupBy
import ObjectGraph.Proofs.Buffer.Column

/-!
# Grouping in buffers

`groupBy` and `unique` are stated on lists of segments. Here they are stated on flat
buffers that are read and written by index: one buffer numbers the groups of all
positions, another counts the positions of each group and then holds the place where the
next position goes. A computation on buffers has a fault, an error of the operator or a
result.

Groups are numbered over all segments, and a sorted key renumbers the groups that it made
in a segment. A last pass over the numbers collects the positions of each group, with the
split points of the groups and of their positions.
-/

namespace ObjectGraph

open Buffer

namespace Grouping

/-- Where the groups of an edge begin and end: each split point with the next one. -/
def ranges (e : Edge) : List (Nat × Nat) :=
  let positions := e.points.map Edge.position
  positions.zip positions.tail

/-! ### Numbering the groups -/

/-- The classes met so far, after one more member. -/
def enter {α : Type} (same : α → α → Bool) (met : List α) (m : α) : List α :=
  if met.any fun d => same d m then met else met ++ [m]

section Cells

variable {α : Type} [DecidableEq α] [Cell α]

/-- Renumbers one position by the class of its old group and its value. A new class gets
the next number. -/
def visit (cells : List (Option α)) (first : Nat) (state : List (Option Nat) × List (Nat × α))
    (i : Nat) : Checked (List (Option Nat) × List (Nat × α)) := do
  let group ← read state.1 i
  let cell ← read cells i
  match group, cell with
  | some g, some v =>
    let met := enter sameClass state.2 (g, v)
    let ids ← write state.1 i ((met.findIdx? (sameClass (g, v))).map (first + ·))
    return (ids, met)
  | _, _ => return (← write state.1 i none, state.2)

/-- The classes met, in ascending order, by the order in which they were met. -/
def order (met : List (Nat × α)) : List Nat :=
  ((List.finRange met.length).mergeSort fun a b => classOrder met[a] met[b]).map Fin.val

/-- The places that the classes have in ascending order. -/
def ranks (met : List (Nat × α)) : Checked (List Nat) :=
  (order met).zipIdx.foldlM (fun rank p => write rank p.1 p.2) (List.replicate met.length 0)

/-- The number of a position when the groups from `first` on are put in order. -/
def renumber (first : Nat) (rank : List Nat) : Option Nat → Checked (Option Nat)
  | none => .ok none
  | some g => do
    if g < first then throw .outOfRange
    return some (first + (← read rank (g - first)))

def sortSegment (first : Nat) (range : Nat × Nat) (ids : List (Option Nat))
    (met : List (Nat × α)) : Checked (List (Option Nat)) := do
  let rank ← ranks met
  let segment ← window ids range.1 range.2
  let sorted ← segment.mapM (renumber first rank)
  return ids.take range.1 ++ sorted ++ ids.drop range.2

/-- Splits the groups of one segment. The number is that of the next new group. -/
def processSegment (sorted : Bool) (cells : List (Option α)) (state : List (Option Nat) × Nat)
    (range : Nat × Nat) : Checked (List (Option Nat) × Nat) := do
  let (ids, met) ← (List.range' range.1 (range.2 - range.1)).foldlM (visit cells state.2)
    (state.1, [])
  let ids ← if sorted then sortSegment state.2 range ids met else pure ids
  return (ids, state.2 + met.length)

def processValues (sorted : Bool) (cells : List (Option α)) (ids : List (Option Nat))
    (ranges : List (Nat × Nat)) : Checked (List (Option Nat)) := do
  let (ids, _) ← ranges.foldlM (processSegment sorted cells) (ids, 0)
  return ids

/-- Looks at one position for a value with another key than those seen before. -/
def see (cells : List (Option α)) (seen : List α) (i : Nat) : Checked (List α) := do
  let cell ← read cells i
  return match cell with
    | some v => enter sameKey seen v
    | none => seen

/-- The distinct values of one segment. -/
def uniqueSegment (sorted : Bool) (cells : List (Option α)) (range : Nat × Nat) :
    Checked (List α) := do
  let seen ← (List.range' range.1 (range.2 - range.1)).foldlM (see cells) []
  return if sorted then seen.mergeSort ascending else seen

def uniqueValues (sorted : Bool) (cells : List (Option α)) (ranges : List (Nat × Nat)) :
    Checked (List (List Item)) := do
  let segments ← ranges.mapM (uniqueSegment sorted cells)
  return segments.map fun segment => segment.map Cell.item

end Cells

/-- Splits the groups by one key. -/
def processKey (sorted : Bool) (ranges : List (Nat × Nat)) (ids : List (Option Nat)) :
    Column → Checked (List (Option Nat))
  | .empty _ => .ok (ids.map fun _ => none)
  | .typed _ cells => processValues sorted cells ids ranges
  | .mixed items => processValues sorted (items.map presentCell) ids ranges

/-- Splits the groups by one key after another. -/
def processKeys (sorted : Bool) (shape : Shape) (ranges : List (Nat × Nat)) :
    List (Option Nat) → List Slice → ExceptT Error Checked (List (Option Nat))
  | ids, [] => pure ids
  | ids, key :: keys => do
    if !key.shape.isEquivalentTo shape then throw .groupKeyShapes
    if sorted then liftM (checkSortable key.column)
    let ids ← ExceptT.lift (processKey sorted ranges ids key.column)
    processKeys sorted shape ranges ids keys

/-! ### Collecting the positions -/

/-- The positions of a segment counted by groups. -/
structure Tally where
  /-- The number of positions of each group. -/
  slots : List Nat
  /-- The number of groups. -/
  groups : Nat
  /-- The least group and the one after the last, if there is any. -/
  bounds : Option (Nat × Nat)

/-- The bounds of one group more. -/
def widen : Option (Nat × Nat) → Nat → Nat × Nat
  | none, g => (g, g + 1)
  | some (least, limit), g => (min least g, max limit (g + 1))

def Tally.count (t : Tally) : Option Nat → Checked Tally
  | none => .ok t
  | some g => do
    let count ← read t.slots g
    let slots ← write t.slots g (count + 1)
    return ⟨slots, if count = 0 then t.groups + 1 else t.groups, some (widen t.bounds g)⟩

/-- The places from which on groups of the given sizes are put. -/
def starts : Nat → List Nat → List Nat
  | _, [] => []
  | place, count :: counts => place :: starts (place + count) counts

/-- The places at which groups of the given sizes end, without the empty ones. -/
def ends : Nat → List Nat → List Nat
  | _, [] => []
  | place, count :: counts =>
    if count = 0 then ends place counts else (place + count) :: ends (place + count) counts

/-- Puts a position at the next place of its group. -/
def put (state : List Nat × List Nat) (p : Option Nat × Nat) : Checked (List Nat × List Nat) :=
  match p.1 with
  | none => .ok state
  | some g => do
    let place ← read state.1 g
    let indices ← write state.2 place p.2
    return (← write state.1 g (place + 1), indices)

/-- The positions collected so far. -/
structure Collected where
  /-- The next place of each group. -/
  slots : List Nat
  /-- The positions, group by group. -/
  indices : List Nat
  groupPoints : List Nat
  itemPoints : List Nat
  /-- The number of positions. -/
  filled : Nat
  /-- The number of groups. -/
  groups : Nat

/-- Collects the positions of one segment. -/
def collectSegment (ids : List (Option Nat)) (s : Collected) (range : (Nat × Nat) × Nat) :
    Checked Collected := do
  let segment ← window ids range.1.1 range.1.2
  let tally ← segment.foldlM Tally.count ⟨s.slots, 0, none⟩
  let groups := s.groups + tally.groups
  let groupPoints ← write s.groupPoints (range.2 + 1) groups
  match tally.bounds with
  | none => return { s with groupPoints, groups }
  | some (least, limit) =>
    let counts ← window tally.slots least limit
    let slots := tally.slots.take least ++ starts s.filled counts ++ tally.slots.drop limit
    let (slots, indices) ← segment.zipIdx.foldlM put (slots, s.indices)
    return ⟨slots, indices, groupPoints, s.itemPoints ++ ends s.filled counts,
      s.filled + Edge.total counts, groups⟩

def collect (ids : List (Option Nat)) (ranges : List (Nat × Nat)) : Checked Collected :=
  ranges.zipIdx.foldlM (collectSegment ids)
    ⟨List.replicate ids.length 0, List.replicate ids.length 0,
      List.replicate (ranges.length + 1) 0, [0], 0, 0⟩

end Grouping

open Grouping

/-- The split points as an edge. -/
def edgeOfPoints (points : List Nat) : Except Error Edge :=
  Edge.ofPoints (points.map .ofNat)

/-- The slice of the groups that are collected. -/
def sliceOfCollected (first : Slice) (collected : Collected) : Except Error Slice := do
  let indices := (collected.indices.take collected.filled).map fun i => some (Int64.ofNat i)
  let groupEdge ← edgeOfPoints collected.groupPoints
  let itemEdge ← edgeOfPoints collected.itemPoints
  let shape ← (first.shape.removeDims (first.rank - 1)).addDims [groupEdge, itemEdge]
  Slice.ofColumn (.typed .int64 indices) shape (.dtype .int64)

/-- `groupBy` on buffers. -/
def groupByBuffers (sorted : Bool) : List Slice → ExceptT Error Checked Slice
  | [] => throw .noGroupKeys
  | first :: keys =>
    match first.shape.edges.getLast? with
    | none => throw .groupByScalar
    | some edge => do
      let ids ← processKeys sorted first.shape (ranges edge)
        (List.replicate edge.children (some 0)) (first :: keys)
      let collected ← ExceptT.lift (collect ids (ranges edge))
      liftM (sliceOfCollected first collected)

/-- The items of a column of any types. -/
def Column.mixed? : Column → Option (List Item)
  | mixed items => some items
  | _ => none

/-- The cells of a column of one type. -/
def Column.typed? : Column → Option ((t : ElementType) × List (Option t.Value))
  | typed t cells => some ⟨t, cells⟩
  | _ => none

/-- The distinct items of each segment of a column. -/
def Grouping.uniqueColumn (sorted : Bool) (edge : Edge) (c : Column) :
    Checked (Column × List Nat) := do
  if c.isUnknown then return (.empty 0, List.replicate (edge.points.length - 1) 0)
  let segments ← match c.mixed?, c.typed? with
    | some items, _ => uniqueValues sorted (items.map presentCell) (ranges edge)
    | none, some ⟨_, cells⟩ => uniqueValues sorted cells (ranges edge)
    | none, none => throw .noStorage
  return (← fillColumn segments.flatten, segments.map List.length)

/-- The slice of a column of distinct items and their numbers. -/
def sliceOfDistinct (x : Slice) (found : Column × List Nat) : Except Error Slice := do
  let shape ← (x.shape.removeDims (x.rank - 1)).addDims [⟨found.2⟩]
  return (← Slice.ofColumn found.1 shape x.schema).withBag x.bag

/-- `unique` on buffers. -/
def uniqueBuffers (x flag : Slice) : ExceptT Error Checked Slice :=
  match x.shape.edges.getLast? with
  | none => pure x
  | some edge => do
    let some sorted := flag.item?.bind Item.bool? | throw .sortFlag
    if sorted then liftM (checkSortable x.column)
    let found ← ExceptT.lift (uniqueColumn sorted edge x.column)
    liftM (sliceOfDistinct x found)

end ObjectGraph
