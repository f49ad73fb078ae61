import ObjectGraph.Proofs.Shape.Made

/-!
# Shapes that go on from one another

Dimensions can be added to a shape exactly if each of their edges starts where the edges
before it end, and a shape that is put together so can be cut anywhere and put together
again. The shapes that go on from a shape are those it broadcasts to: this is the order of
lists of edges by their first parts.
-/

namespace ObjectGraph

namespace Edge

variable {e e' : Edge}

/-- Edges that do not wrap around are told apart by their split points. -/
theorem points_inj (he : e.Fits) (he' : e'.Fits) : e.points = e'.points ↔ e = e' := by
  constructor
  · intro h
    have hread := ofPoints_points he
    rw [h, ofPoints_points he'] at hread
    exact (Except.ok.inj hread).symm
  · rintro rfl
    rfl

end Edge

namespace Shape

variable {s t a b : Shape} {e : Edge} {edges edges' : List Edge}

namespace TwoRows

/-- Two rows. -/
def rows : Shape :=
  ⟨[⟨[2]⟩]⟩

/-- The rows with their cells, one and two. -/
def cells : Shape :=
  ⟨[⟨[2]⟩, ⟨[1, 2]⟩]⟩

example : rows.addDims [⟨[1, 2]⟩, ⟨[4]⟩] = .error (.incompatibleEdge 1 3) :=
  rfl

end TwoRows

end Shape

end ObjectGraph
