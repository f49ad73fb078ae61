import ObjectGraph.Shape.Basic

/-!
# Segments of a shape

Where the segments of an edge begin and end, as long as its split points do not wrap
around, and how a chain of edges goes on after its first ones.
-/

namespace ObjectGraph

namespace Edge

variable {e : Edge} {sizes : List Nat} {i : Nat}

theorem total_append (sizes sizes' : List Nat) :
    total (sizes ++ sizes') = total sizes + total sizes' := by
  induction sizes with
  | nil => simp
  | cons size sizes ih => simp [ih, Nat.add_assoc]

theorem total_map_length {α : Type} (xss : List (List α)) :
    total (xss.map List.length) = xss.flatten.length := by
  induction xss with
  | nil => rfl
  | cons xs xss ih => simp [ih]

theorem total_take_add {n : Nat} (h : sizes[i]? = some n) :
    total (sizes.take i) + n + total (sizes.drop (i + 1)) = total sizes := by
  obtain ⟨hi, rfl⟩ := List.getElem?_eq_some_iff.1 h
  have hsplit := congrArg total (List.take_append_drop i sizes)
  rw [List.drop_eq_getElem_cons hi, total_append, total_cons] at hsplit
  rw [Nat.add_assoc]
  exact hsplit

theorem total_take_add_le {n : Nat} (h : sizes[i]? = some n) :
    total (sizes.take i) + n ≤ total sizes :=
  Nat.le.intro (total_take_add h)

/-- A piece starts where the pieces before it end. -/
theorem getElem?_cut {α : Type} (sizes : List Nat) (xs : List α) (i : Nat) :
    (cut sizes xs)[i]? = sizes[i]?.map fun size => (xs.drop (total (sizes.take i))).take size := by
  induction sizes generalizing xs i with
  | nil => rfl
  | cons size sizes ih =>
      cases i with
      | zero => rfl
      | succ i =>
          rw [cut, List.getElem?_cons_succ, ih, List.getElem?_cons_succ, List.take_succ_cons,
            total_cons, List.drop_drop]

theorem cut_map {α β : Type} (f : α → β) (sizes : List Nat) (xs : List α) :
    cut sizes (xs.map f) = (cut sizes xs).map (List.map f) := by
  induction sizes generalizing xs with
  | nil => rfl
  | cons size sizes ih =>
      rw [cut, ← List.map_take, ← List.map_drop, ih]
      rfl

theorem length_take_drop {α : Type} {xs : List α} {start size : Nat}
    (h : start + size ≤ xs.length) : ((xs.drop start).take size).length = size := by
  rw [List.length_take, List.length_drop]
  omega

theorem getElem?_take_drop {α : Type} {xs : List α} {start size p : Nat} (hp : p < size) :
    ((xs.drop start).take size)[p]? = xs[start + p]? := by
  rw [List.getElem?_take_of_lt hp, List.getElem?_drop]

theorem segments_flatten {α : Type} (xss : List (List α)) :
    segments ⟨xss.map List.length⟩ xss.flatten = xss := by
  rw [segments]
  induction xss with
  | nil => rfl
  | cons xs xss ih =>
      rw [List.map_cons, List.flatten_cons, cut, List.take_left, List.drop_left, ih]

theorem getElem?_pointsFrom (start : Nat) (sizes : List Nat) (hi : i ≤ sizes.length) :
    (pointsFrom start sizes)[i]? = some (start + total (sizes.take i)) := by
  induction sizes generalizing start i with
  | nil =>
      obtain rfl := Nat.le_zero.1 hi
      rfl
  | cons size sizes ih =>
      cases i with
      | zero => rfl
      | succ i =>
          rw [pointsFrom, List.getElem?_cons_succ, ih _ (Nat.le_of_succ_le_succ hi),
            List.take_succ_cons, total_cons, Nat.add_assoc]

/-- A split point is the sum of the sizes before it. -/
theorem getElem?_points (e : Edge) (hi : i ≤ e.parents) :
    e.points[i]? = some (.ofNat (total (e.sizes.take i))) := by
  rw [points, List.getElem?_map, getElem?_pointsFrom 0 e.sizes hi, Nat.zero_add]
  rfl

theorem total_take_succ {size : Nat} (hsize : sizes[i]? = some size) :
    total (sizes.take (i + 1)) = total (sizes.take i) + size := by
  obtain ⟨hi, rfl⟩ := List.getElem?_eq_some_iff.1 hsize
  rw [List.take_succ_eq_append_getElem hi, total_append, total_cons, total_nil, Nat.add_zero]

/-- A group covers as many positions as its size says, after those of the groups before,
as long as the sums do not wrap around. -/
theorem range?_of_lt {size : Nat} (htotal : total e.sizes < UInt64.size)
    (hsize : e.sizes[i]? = some size) :
    e.range? i = some (total (e.sizes.take i), total (e.sizes.take i) + size) := by
  have hi : i < e.parents := (List.getElem?_eq_some_iff.1 hsize).1
  have hsplit := total_take_add hsize
  rw [range?, getElem?_points e (Nat.le_of_lt hi), getElem?_points e hi, total_take_succ hsize]
  simp only [position_ofNat]
  rw [Nat.mod_eq_of_lt (by omega), Nat.mod_eq_of_lt (by omega)]

theorem range?_of_fits {size : Nat} (he : e.Fits) (hsize : e.sizes[i]? = some size) :
    e.range? i = some (total (e.sizes.take i), total (e.sizes.take i) + size) :=
  range?_of_lt (Nat.lt_trans he (by decide)) hsize

theorem lt_parents_of_range? {range : Nat × Nat} (h : e.range? i = some range) :
    i < e.parents := by
  refine Nat.lt_of_not_le fun hi => ?_
  have hpoint : e.points[i + 1]? = none := by
    rw [List.getElem?_eq_none_iff, points, List.length_map, length_pointsFrom]
    exact Nat.succ_le_succ hi
  rw [range?, hpoint] at h
  cases hfirst : e.points[i]? <;> rw [hfirst] at h <;> cases h

/-- The range of a group lies between the sums of the sizes before it and behind it. -/
theorem range?_eq_some_iff (he : e.Fits) {first last : Nat} : e.range? i = some (first, last) ↔
    i < e.parents ∧ first = total (e.sizes.take i) ∧ last = total (e.sizes.take (i + 1)) := by
  have hrange : ∀ hi : i < e.parents,
      e.range? i = some (total (e.sizes.take i), total (e.sizes.take (i + 1))) := by
    intro hi
    have hsize := List.getElem?_eq_getElem hi
    rw [range?_of_fits he hsize, ← total_take_succ hsize]
  constructor
  · intro h
    have hi := lt_parents_of_range? h
    rw [hrange hi] at h
    obtain ⟨rfl, rfl⟩ := Prod.mk.inj (Option.some.inj h)
    exact ⟨hi, rfl, rfl⟩
  · rintro ⟨hi, rfl, rfl⟩
    exact hrange hi

end Edge

namespace Shape

/-- The number of positions that edges lead to from a dimension. -/
def ending (size : Nat) (edges : List Edge) : Nat :=
  (edges.getLast?.map Edge.children).getD size

theorem ending_cons (size : Nat) (e : Edge) (edges : List Edge) :
    ending size (e :: edges) = ending e.children edges := by
  cases edges with
  | nil => rfl
  | cons e' edges =>
      rw [ending, ending, List.getLast?_cons_cons]
      cases h : (e' :: edges).getLast? with
      | none => simp at h
      | some last => rfl

theorem chained_append {size : Nat} {edges edges' : List Edge} :
    Chained size (edges ++ edges') ↔ Chained size edges ∧ Chained (ending size edges) edges' := by
  induction edges generalizing size with
  | nil => simp [Chained, ending]
  | cons e edges ih => simp [Chained, ih, ending_cons, and_assoc]

/-- Edges that fit onto a shape can be added to it. -/
theorem addDims_of_chained {edges edges' : List Edge} (h : Chained 1 (edges ++ edges')) :
    (⟨edges⟩ : Shape).addDims edges' = .ok ⟨edges ++ edges'⟩ := by
  induction edges' generalizing edges with
  | nil => rw [addDims, List.append_nil]
  | cons e edges' ih =>
      have hparents : e.parents = (⟨edges⟩ : Shape).size := (chained_append.1 h).2.1
      rw [List.append_cons] at h ⊢
      rw [addDims, addDim, if_pos hparents]
      exact ih h

end Shape

end ObjectGraph
