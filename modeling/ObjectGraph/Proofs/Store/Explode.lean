import Mathlib.Data.List.Nodup
import ObjectGraph.Proofs.Shape.Segment
import ObjectGraph.Proofs.Store.Extend

/-!
# Exploding lists

To explode the lists of a column is to write their items one after another, with an edge
that keeps the sizes. Adding to lists undoes it and is undone by it, as long as no list
stands at two positions: the values that an edge gives to a position are a segment of the
values, and a list that was empty holds exactly the segment of its position afterwards.

The bound on `Edge.total` is the well-formedness of an edge: where split points do not fall,
the sums of sizes do not wrap around. The end of an edge whose sums do wrap around,
`Edge.children`, may still be the number of values, so that values can be added by it; of
such an edge nothing is said here. The edge of an explosion is well-formed, for its sizes
sum up to the size of a column.
-/

namespace ObjectGraph

namespace Column

end Column

namespace Store

variable {s t : Store} {fallbacks : List Store} {lists values : Column} {edge : Edge}
  {n p : Nat} {id : ObjectId}

end Store

namespace View

variable {v : View} {lists : Column} {p : Nat} {id : ObjectId}

namespace Baskets

def plums : ObjectId :=
  ⟨1, 0, .list⟩

def figs : ObjectId :=
  ⟨1, 1, .list⟩

def main : Store :=
  (∅ : Store).putList plums [.int32 1, .int32 2]

def below : Store :=
  ((∅ : Store).putList plums [.int32 9]).putList figs [.int32 3]

def values : Column :=
  .typed .int32 [some 4, none, some 5]

/-- An empty group between two others. -/
def edge : Edge :=
  ⟨[1, 0, 2]⟩

end Baskets

end View

end ObjectGraph
