import ObjectGraph.Column.Basic
import ObjectGraph.Proofs.Buffer.Access

/-!
# Filling columns

A column of known items is built by putting them into a builder one by one. The builder has
a place for each of them.
-/

namespace ObjectGraph.Buffer

/-- Puts an item at a position of a builder. -/
def putItem (builder : ColumnBuilder) (p : Item × Nat) : Checked ColumnBuilder :=
  match builder.insert? p.2 p.1 with
  | some builder => .ok builder
  | none => .error .outOfRange

/-- The column of items that are put one by one. -/
def fillColumn (items : List Item) : Checked Column := do
  let builder ← items.zipIdx.foldlM putItem (ColumnBuilder.ofSize items.length)
  return builder.build

theorem foldlM_putItem (done items : List Item) :
    (items.zipIdx done.length).foldlM putItem ⟨done ++ List.replicate items.length .missing⟩ =
      .ok ⟨done ++ items⟩ := by
  induction items generalizing done with
  | nil => rfl
  | cons item items ih =>
      have hrest := ih (done ++ [item])
      simp only [List.length_append, List.length_singleton, List.append_assoc,
        List.singleton_append] at hrest
      have hput : putItem ⟨done ++ List.replicate (item :: items).length .missing⟩
          (item, done.length) = .ok ⟨done ++ item :: List.replicate items.length .missing⟩ := by
        simp [putItem, ColumnBuilder.insert?, List.replicate_succ]
      rw [List.zipIdx_cons, List.foldlM_cons, hput, ok_bind]
      exact hrest

/-- Items that are put one by one into a builder of their number are put in range. -/
theorem fillColumn_eq (items : List Item) : fillColumn items = .ok (.ofItems items) := by
  have hrun := foldlM_putItem [] items
  rw [List.length_nil, List.nil_append, List.nil_append] at hrun
  rw [fillColumn, ColumnBuilder.ofSize, hrun, ok_bind]
  rfl

end ObjectGraph.Buffer
