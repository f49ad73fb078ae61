/-!
# Counting what is left

A walk that never visits a thing twice ends because fewer and fewer things are
left. What is left is a count over a list of everything there is, and these
lemmas compare two such counts.
-/

namespace ObjectGraph

/-- Taking a member out of what is counted makes the count smaller. -/
theorem countP_lt_countP {α : Type} {l : List α} {p q : α → Bool} {x : α}
    (h : ∀ a ∈ l, q a = true → p a = true) (hx : x ∈ l) (hp : p x = true)
    (hq : q x = false) : l.countP q < l.countP p := by
  obtain ⟨s, t, rfl⟩ := List.append_of_mem hx
  have hs := List.countP_mono_left fun a (ha : a ∈ s) => h a (List.mem_append_left _ ha)
  have ht := List.countP_mono_left fun a (ha : a ∈ t) =>
    h a (List.mem_append_right _ (List.mem_cons_of_mem x ha))
  rw [List.countP_append, List.countP_append, List.countP_cons_of_pos hp,
    List.countP_cons_of_neg (by simp [hq])]
  omega

/-- The number of members of `all` that are not in `seen`. -/
def leftOver {α : Type} [DecidableEq α] (all seen : List α) : Nat :=
  all.countP fun a => a ∉ seen

theorem leftOver_le {α : Type} [DecidableEq α] {all seen more : List α} (h : seen ⊆ more) :
    leftOver all more ≤ leftOver all seen :=
  List.countP_mono_left fun a _ ha => by
    simp only [decide_eq_true_eq] at ha ⊢
    exact fun hs => ha (h hs)

theorem leftOver_lt {α : Type} [DecidableEq α] {all seen more : List α} {x : α}
    (h : seen ⊆ more) (hall : x ∈ all) (hseen : x ∉ seen) (hmore : x ∈ more) :
    leftOver all more < leftOver all seen := by
  refine countP_lt_countP (x := x) (fun a _ ha => ?_) hall (by simpa using hseen)
    (by simpa using hmore)
  simp only [decide_eq_true_eq] at ha ⊢
  exact fun hs => ha (h hs)

end ObjectGraph
