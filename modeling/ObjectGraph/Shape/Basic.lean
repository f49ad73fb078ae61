import ObjectGraph.Shape.Edge

/-!
# Jagged shapes

A shape is a list of edges, one for each dimension. In a valid shape the first
edge has a single parent, each further edge has as many parents as the edge before
it has children, and the split points of no edge wrap around. The shape without
edges describes a scalar. Validity is the predicate `Valid`, which carries the
number of positions reached so far.
-/

namespace ObjectGraph

/-- The edges of the dimensions, outermost first. -/
structure Shape where
  edges : List Edge
deriving DecidableEq

namespace Shape

/-- Edges that fit onto a dimension of `size` positions, one after another. -/
def Chained : Nat → List Edge → Prop
  | _, [] => True
  | size, e :: edges => e.parents = size ∧ e.Fits ∧ Chained e.children edges

/-- The edges fit together, from a single position on. -/
def Valid (s : Shape) : Prop :=
  Chained 1 s.edges

/-- The shape without dimensions. -/
def scalar : Shape :=
  ⟨[]⟩

/-- The shape with one dimension. -/
def flat (size : Nat) : Shape :=
  ⟨[.uniform 1 size]⟩

def rank (s : Shape) : Nat :=
  s.edges.length

/-- The number of positions of the last dimension. -/
def size (s : Shape) : Nat :=
  (s.edges.getLast?.map Edge.children).getD 1

/-- The first `count` dimensions. -/
def removeDims (s : Shape) (count : Nat) : Shape :=
  ⟨s.edges.take count⟩

/-- Adds one dimension, which has to start where the shape ends. -/
def addDim (s : Shape) (e : Edge) : Except Error Shape :=
  if e.parents = s.size then .ok ⟨s.edges ++ [e]⟩
  else .error (.incompatibleEdge e.parents s.size)

/-- Adds dimensions one after another. -/
def addDims : Shape → List Edge → Except Error Shape
  | s, [] => .ok s
  | s, e :: edges => do (← s.addDim e).addDims edges

/-- The shape with the given edges. -/
def ofEdges (edges : List Edge) : Except Error Shape :=
  scalar.addDims edges

/-- Merges the dimensions from `first` up to, but without, `last` into one. Both
are cut back to the rank, and `first` to `last`; where nothing is left to merge,
a dimension of groups of one is put in. -/
def flattenDims (s : Shape) (first last : Nat) : Shape :=
  let last := min last s.rank
  let first := min first last
  let outer := s.edges.take first
  let merged :=
    match (s.edges.take last).drop first with
    | [] => .uniform (removeDims s first).size 1
    | e :: edges => edges.foldl Edge.andThen e
  ⟨outer ++ merged :: s.edges.drop last⟩

/-- Equality of shapes. -/
def isEquivalentTo (s t : Shape) : Bool :=
  s.edges == t.edges

/-- Whether the dimensions of `s` are the first dimensions of `t`. -/
def isBroadcastableTo (s t : Shape) : Bool :=
  s.rank ≤ t.rank && s.edges == t.edges.take s.rank

@[simp] theorem size_flat (n : Nat) : (flat n).size = n % UInt64.size := by
  simp [flat, size, Edge.uniform, Edge.children]

@[simp] theorem size_concat (edges : List Edge) (e : Edge) :
    (⟨edges ++ [e]⟩ : Shape).size = e.children := by
  simp [size]

end Shape

end ObjectGraph
