import ObjectGraph.Error

/-!
# Edges

An edge maps the positions of one dimension to consecutive groups of positions
of the next. It is carried as the sizes of these groups; its split points are the
running sums of the sizes, and group `i` covers the children from split point `i`
up to split point `i + 1`. `ofPoints` reads split points back into sizes.

A split point is a signed word of 64 bits and a position is its unsigned reading,
so sums of sizes wrap around. An edge on which they do not is one that `Fits`.

`segments` cuts a list along an edge. The remaining list is carried along
explicitly, so no index arithmetic is needed.
-/

namespace ObjectGraph

/-- The group sizes of one dimension. -/
structure Edge where
  sizes : List Nat
deriving DecidableEq

namespace Edge

/-- The running sums of `sizes` above `start`, the start included. -/
def pointsFrom : Nat → List Nat → List Nat
  | start, [] => [start]
  | start, size :: sizes => start :: pointsFrom (start + size) sizes

@[simp] theorem length_pointsFrom (start : Nat) (sizes : List Nat) :
    (pointsFrom start sizes).length = sizes.length + 1 := by
  induction sizes generalizing start with
  | nil => rfl
  | cons size sizes ih => simp [pointsFrom, ih]

/-- The split points, one more than there are groups. -/
def points (e : Edge) : List Int64 :=
  (pointsFrom 0 e.sizes).map Int64.ofNat

/-- The position that a split point stands for. -/
def position (point : Int64) : Nat :=
  point.toUInt64.toNat

@[simp] theorem position_ofNat (n : Nat) : position (.ofNat n) = n % UInt64.size := by
  simp [position]

/-- The number of groups. -/
def parents (e : Edge) : Nat :=
  e.sizes.length

/-- The number of positions in groups of the given sizes. -/
def total (sizes : List Nat) : Nat :=
  sizes.foldr (· + ·) 0

@[simp] theorem total_nil : total [] = 0 := rfl

@[simp] theorem total_cons (size : Nat) (sizes : List Nat) :
    total (size :: sizes) = size + total sizes := rfl

@[simp] theorem total_replicate (parents size : Nat) :
    total (List.replicate parents size) = parents * size := by
  induction parents with
  | zero => simp
  | succ parents ih => simp [List.replicate_succ, ih, Nat.succ_mul, Nat.add_comm]

/-- The position at which the last group ends. -/
def children (e : Edge) : Nat :=
  total e.sizes % UInt64.size

/-- The first split point that is too large. -/
def pointLimit : Nat :=
  1 <<< 63

/-- The sum of the sizes fits into a split point. -/
def Fits (e : Edge) : Prop :=
  total e.sizes < pointLimit

/-- No position is lost where the sums do not wrap around. -/
theorem children_of_fits {e : Edge} (h : e.Fits) : e.children = total e.sizes :=
  Nat.mod_eq_of_lt (Nat.lt_trans h (by decide))

/-- The positions at which a group begins and ends. -/
def range? (e : Edge) (i : Nat) : Option (Nat × Nat) :=
  match e.points[i]?, e.points[i + 1]? with
  | some first, some last => some (position first, position last)
  | _, _ => none

/-- Equal groups. -/
def uniform (parents size : Nat) : Edge :=
  ⟨List.replicate parents size⟩

/-- The distances between neighbours of a list that never descends. -/
def gaps? : Int64 → List Int64 → Option (List Nat)
  | _, [] => some []
  | p, q :: points =>
    if p ≤ q then (gaps? q points).map ((q.toInt - p.toInt).toNat :: ·) else none

/-- The edge with the given split points, which begin with zero and never
descend. -/
def ofPoints : List Int64 → Except Error Edge
  | [] => .error .splitPointsEmpty
  | first :: points =>
    if first ≠ 0 then .error (.splitPointsStart first.toInt)
    else
      match gaps? first points with
      | some sizes => .ok ⟨sizes⟩
      | none => .error .splitPointsUnsorted

/-- Cuts a list into consecutive pieces of the given sizes. -/
def cut {α : Type} : List Nat → List α → List (List α)
  | [], _ => []
  | size :: sizes, xs => xs.take size :: cut sizes (xs.drop size)

/-- The children of each group. -/
def segments {α : Type} (e : Edge) (xs : List α) : List (List α) :=
  cut e.sizes xs

@[simp] theorem length_segments {α : Type} (e : Edge) (xs : List α) :
    (e.segments xs).length = e.parents := by
  unfold segments parents
  induction e.sizes generalizing xs with
  | nil => rfl
  | cons size sizes ih => simp [cut, ih]

/-- The edge that leads from the parents of `e` to the children of `next` in one
step. A group of the result joins the groups of `next` under one parent. -/
def andThen (e next : Edge) : Edge :=
  ⟨(e.segments next.sizes).map total⟩

@[simp] theorem parents_andThen (e next : Edge) : (e.andThen next).parents = e.parents := by
  simp only [andThen, parents, List.length_map]
  exact length_segments e next.sizes

end Edge

end ObjectGraph
