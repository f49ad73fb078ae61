import ObjectGraph.Proofs.Buffer.Access
import ObjectGraph.Proofs.Shape.Made

/-!
# Merging dimensions

Merging leaves every position of the last merged dimension under the positions it had
above it: walking up the merged edge at once leads where walking up the edges one after
another did. In split points, the joined edge is found by looking up the split points of
one edge among those of the next. All look-ups are in range, since the last split point of
an edge is the number of parents of the next.
-/

namespace ObjectGraph

open Buffer

namespace Edge

variable {e next : Edge} {sizes : List Nat} {i j k : Nat}

/-- Position `j` is in the range of group `i`. -/
def Covers (e : Edge) (i j : Nat) : Prop :=
  ∃ first last, e.range? i = some (first, last) ∧ first ≤ j ∧ j < last

theorem total_take_le (sizes : List Nat) (i : Nat) : total (sizes.take i) ≤ total sizes := by
  have hsplit := congrArg total (List.take_append_drop i sizes)
  rw [total_append] at hsplit
  omega

theorem total_take_mono (h : i ≤ k) : total (sizes.take i) ≤ total (sizes.take k) := by
  have hle := total_take_le (sizes.take k) i
  rwa [List.take_take, Nat.min_eq_left h] at hle

theorem covers_iff (he : e.Fits) : e.Covers i j ↔
    i < e.parents ∧ total (e.sizes.take i) ≤ j ∧ j < total (e.sizes.take (i + 1)) := by
  simp only [Covers, range?_eq_some_iff he]
  constructor
  · rintro ⟨_, _, ⟨hi, rfl, rfl⟩, hfirst, hlast⟩
    exact ⟨hi, hfirst, hlast⟩
  · rintro ⟨hi, hfirst, hlast⟩
    exact ⟨_, _, ⟨hi, rfl, rfl⟩, hfirst, hlast⟩

/-! ### Split points of joined edges -/

theorem take_cut {α : Type} (sizes : List Nat) (xs : List α) (i : Nat) :
    (cut sizes xs).take i = cut (sizes.take i) xs := by
  induction sizes generalizing xs i with
  | nil => cases i <;> rfl
  | cons size sizes ih =>
      cases i with
      | zero => rfl
      | succ i => rw [cut, List.take_succ_cons, ih, List.take_succ_cons, cut]

/-- A split point of joined edges is the split point of the second at that of the first. -/
theorem total_take_andThen (e next : Edge) (i : Nat) :
    total ((e.andThen next).sizes.take i) = total (next.sizes.take (total (e.sizes.take i))) := by
  rw [andThen, segments, ← List.map_take, take_cut, total_map_cut]

/-- Where a function goes from below a bound to above it, one step crosses the bound. -/
theorem exists_crossing {f : Nat → Nat} {a b : Nat} (hab : a ≤ b) (ha : f a ≤ j) (hb : j < f b) :
    ∃ k, a ≤ k ∧ k < b ∧ f k ≤ j ∧ j < f (k + 1) := by
  induction b, hab using Nat.le_induction with
  | base => exact absurd hb (Nat.not_lt.2 ha)
  | succ b hab ih =>
      by_cases hlt : j < f b
      · obtain ⟨k, hak, hkb, hk⟩ := ih hlt
        exact ⟨k, hak, Nat.lt_succ_of_lt hkb, hk⟩
      · exact ⟨b, hab, Nat.lt_succ_self b, Nat.not_lt.1 hlt, hb⟩

/-- A group of joined edges covers what the groups that it covers first do. -/
theorem covers_andThen (he : e.Fits) (hnext : next.Fits) (hparents : next.parents = e.children) :
    (e.andThen next).Covers i j ↔ ∃ k, e.Covers i k ∧ next.Covers k j := by
  have hfits : (e.andThen next).Fits := by
    rw [Fits, total_andThen he hparents]
    exact hnext
  rw [children_of_fits he] at hparents
  simp only [covers_iff hfits, covers_iff he, covers_iff hnext, parents_andThen,
    total_take_andThen]
  constructor
  · rintro ⟨hi, hfirst, hlast⟩
    obtain ⟨k, hik, hki, hk⟩ := exists_crossing (f := fun k => total (next.sizes.take k))
      (total_take_mono (Nat.le_succ i)) hfirst hlast
    have hkparents := Nat.lt_of_lt_of_le hki (total_take_le e.sizes (i + 1))
    exact ⟨k, ⟨hi, hik, hki⟩, hparents ▸ hkparents, hk⟩
  · rintro ⟨k, ⟨hi, hik, hki⟩, -, hfirst, hlast⟩
    exact ⟨hi, Nat.le_trans (total_take_mono hik) hfirst,
      Nat.lt_of_lt_of_le hlast (total_take_mono hki)⟩

/-! ### Looking up split points -/

/-- The split points, group by group. -/
theorem points_eq_map (e : Edge) :
    e.points = (List.range (e.parents + 1)).map fun i => .ofNat (total (e.sizes.take i)) := by
  refine List.ext_getElem? fun i => ?_
  rw [List.getElem?_map]
  by_cases hi : i < e.parents + 1
  · rw [getElem?_points e (Nat.le_of_lt_succ hi), List.getElem?_range hi]
    rfl
  · have hpoints : e.points.length = e.parents + 1 := by
      rw [points, List.length_map, length_pointsFrom, parents]
    rw [List.getElem?_eq_none (by omega), List.getElem?_eq_none (by simpa using hi)]
    rfl

/-- The split points of joined edges: those of the second at the positions of the first. -/
def joinPoints (points next : List Int64) : Checked (List Int64) :=
  points.mapM fun p => read next (position p)

/-- The positions of an edge are groups of the next one, so it has split points there. -/
theorem joinPoints_points (he : e.Fits) (hparents : next.parents = e.children) :
    joinPoints e.points next.points = .ok (e.andThen next).points := by
  rw [children_of_fits he] at hparents
  have hread : ∀ i, read next.points (position (.ofNat (total (e.sizes.take i)))) =
      .ok (.ofNat (total ((e.andThen next).sizes.take i))) := by
    intro i
    have hle := total_take_le e.sizes i
    have hlimit : total e.sizes < 2 ^ 63 := he
    rw [position_ofNat, Nat.mod_eq_of_lt (Nat.lt_of_le_of_lt hle (Nat.lt_trans hlimit (by decide))),
      total_take_andThen]
    exact read_of_getElem? (getElem?_points next (hparents ▸ hle))
  rw [joinPoints, points_eq_map e, points_eq_map (e.andThen next), parents_andThen, List.mapM_map]
  exact mapM_eq_ok fun i _ => hread i

/-- The position after the last one, which is zero where there are no split points. -/
def endOfPoints (points : List Int64) : Nat :=
  position (points.getLast?.getD 0)

theorem endOfPoints_points (e : Edge) : endOfPoints e.points = e.children := by
  have hlast : e.points.getLast? = some (.ofNat (total e.sizes)) := by
    rw [points_eq_map, List.range_succ, List.map_append, List.map_singleton, List.getLast?_concat,
      parents, List.take_length]
  rw [endOfPoints, hlast, Option.getD_some, position_ofNat, children]

end Edge

namespace Shape

variable {s : Shape} {size i j : Nat} {e : Edge} {edges outer inner : List Edge}

/-- Walking up the edges, from the last to the first, leads from position `j` to `i`. -/
def Ancestor : List Edge → Nat → Nat → Prop
  | [], i, j => i = j
  | e :: edges, i, j => ∃ k, e.Covers i k ∧ Ancestor edges k j

@[simp] theorem ancestor_singleton : Ancestor [e] i j ↔ e.Covers i j := by
  simp [Ancestor]

/-- A merged edge leads at once where the edges lead one after another. -/
theorem covers_foldl_andThen (h : Chained size (e :: edges)) :
    (edges.foldl Edge.andThen e).Covers i j ↔ Ancestor (e :: edges) i j := by
  induction edges generalizing e with
  | nil => exact ancestor_singleton.symm
  | cons next edges ih =>
      have hjoined := (chained_andThen h).1
      obtain ⟨-, he, hparents, hnext, -⟩ := h
      rw [List.foldl_cons, ih hjoined]
      simp only [Ancestor, Edge.covers_andThen he hnext hparents]
      constructor
      · rintro ⟨k, ⟨l, hil, hlk⟩, hkj⟩
        exact ⟨l, hil, k, hlk, hkj⟩
      · rintro ⟨l, hil, k, hlk, hkj⟩
        exact ⟨k, ⟨l, hil, hlk⟩, hkj⟩

/-! ### The parts of a merged shape -/

/-- The bounds are cut back to the rank, and the first one to the last. -/
theorem flattenDims_min (s : Shape) (first last : Nat) :
    s.flattenDims first last = s.flattenDims (min first (min last s.rank)) (min last s.rank) := by
  simp [flattenDims]

/-- The edges before, between and after two bounds. -/
theorem exists_parts {first last : Nat} (hle : first ≤ last) (hlast : last ≤ s.rank) :
    ∃ outer between inner, s = ⟨outer ++ (between ++ inner)⟩ ∧ first = outer.length ∧
      last = outer.length + between.length := by
  have hbetween : ((s.edges.drop first).take (last - first)).length = last - first := by
    rw [List.length_take, List.length_drop]
    exact Nat.min_eq_left (Nat.sub_le_sub_right hlast first)
  have houter : (s.edges.take first).length = first := by
    rw [List.length_take]
    exact Nat.min_eq_left (Nat.le_trans hle hlast)
  refine ⟨s.edges.take first, (s.edges.drop first).take (last - first), s.edges.drop last,
    ?_, houter.symm, ?_⟩
  · have hdrop : s.edges.drop last = (s.edges.drop first).drop (last - first) := by
      rw [List.drop_drop, Nat.add_sub_cancel' hle]
    rw [hdrop, List.take_append_drop, List.take_append_drop]
  · rw [houter, hbetween, Nat.add_sub_cancel' hle]

theorem flattenDims_append (outer inner : List Edge) (e : Edge) (edges : List Edge) :
    (⟨outer ++ (e :: edges ++ inner)⟩ : Shape).flattenDims outer.length
        (outer.length + (edges.length + 1)) =
      ⟨outer ++ edges.foldl Edge.andThen e :: inner⟩ := by
  have hrank : outer.length + (edges.length + 1) ≤
      (⟨outer ++ (e :: edges ++ inner)⟩ : Shape).rank := by
    simp only [rank, List.length_append, List.length_cons]
    omega
  have htake : (outer ++ (e :: edges ++ inner)).take (outer.length + (edges.length + 1)) =
      outer ++ e :: edges := by
    rw [← List.append_assoc]
    exact List.take_left' (by simp)
  have hdrop : (outer ++ (e :: edges ++ inner)).drop (outer.length + (edges.length + 1)) =
      inner := by
    rw [← List.append_assoc]
    exact List.drop_left' (by simp)
  simp only [flattenDims, Nat.min_eq_left hrank, Nat.min_eq_left (Nat.le_add_right _ _), htake,
    hdrop, List.take_left, List.drop_left]

theorem flattenDims_append_nil (outer inner : List Edge) :
    (⟨outer ++ inner⟩ : Shape).flattenDims outer.length outer.length =
      ⟨outer ++ .uniform (⟨outer⟩ : Shape).size 1 :: inner⟩ := by
  have hrank : outer.length ≤ (⟨outer ++ inner⟩ : Shape).rank := by
    simp [rank]
  have hdrop : outer.drop outer.length = [] := List.drop_length
  simp only [flattenDims, Nat.min_eq_left hrank, Nat.min_self, List.take_left, List.drop_left,
    hdrop, removeDims]

/-- Merging some dimensions and then the merged one with those after it is merging all of
them. -/
theorem flattenDims_flattenDims {first mid last : Nat} (hmid : first < mid) (hlast : mid ≤ last)
    (hrank : last ≤ s.rank) :
    (s.flattenDims first mid).flattenDims first (first + 1 + (last - mid)) =
      s.flattenDims first last := by
  obtain ⟨outer, edges, rest, rfl, rfl, rfl⟩ :=
    exists_parts (Nat.le_of_lt hmid) (Nat.le_trans hlast hrank)
  obtain ⟨edges', inner, rfl, hrest⟩ : ∃ edges' inner, rest = edges' ++ inner ∧
      edges'.length = last - (outer.length + edges.length) := by
    refine ⟨_, _, (List.take_append_drop (last - (outer.length + edges.length)) rest).symm, ?_⟩
    simp only [rank, List.length_append] at hrank
    rw [List.length_take]
    omega
  cases edges with
  | nil => exact absurd hmid (Nat.lt_irrefl _)
  | cons e edges =>
      have hall : last = outer.length + ((edges ++ edges').length + 1) := by
        rw [List.length_append]
        rw [List.length_cons] at hlast hrest
        omega
      have hstep := flattenDims_append outer (edges' ++ inner) e edges
      have hnext := flattenDims_append outer inner (edges.foldl Edge.andThen e) edges'
      have hjoined := flattenDims_append outer inner e (edges ++ edges')
      rw [List.cons_append] at hnext
      rw [List.cons_append, List.append_assoc, List.foldl_append] at hjoined
      rw [← hrest, hall, List.length_cons, List.cons_append, hjoined, ← List.cons_append, hstep,
        Nat.add_assoc, Nat.add_comm 1, hnext]

/-! ### Merging by split points -/

/-- The split points of one merged dimension. -/
def mergePoints (edges : List (List Int64)) (first last : Nat) : Checked (List Int64) := do
  let points ← read edges first
  let rest ← window edges (first + 1) last
  rest.foldlM Edge.joinPoints points

/-- The split points of groups of one, for each position before a dimension. -/
def unitPoints (edges : List (List Int64)) (first : Nat) : Checked (List Int64) := do
  let size ← if first = 0 then pure 1 else Edge.endOfPoints <$> read edges (first - 1)
  return (Edge.uniform size 1).points

/-- Merging dimensions that are given by their split points. -/
def flattenPoints (edges : List (List Int64)) (first last : Nat) :
    Checked (List (List Int64)) := do
  let last := min last edges.length
  let first := min first last
  let outer ← window edges 0 first
  let merged ← if first = last then unitPoints edges first else mergePoints edges first last
  let inner ← window edges last edges.length
  return outer ++ merged :: inner

theorem foldlM_joinPoints (h : Chained size (e :: edges)) :
    (edges.map Edge.points).foldlM Edge.joinPoints e.points =
      .ok (edges.foldl Edge.andThen e).points := by
  induction edges generalizing e with
  | nil => rfl
  | cons next edges ih =>
      have hjoined := (chained_andThen h).1
      obtain ⟨-, he, hparents, -⟩ := h
      rw [List.map_cons, List.foldlM_cons, Edge.joinPoints_points he hparents, ok_bind, ih hjoined,
        List.foldl_cons]

theorem mergePoints_append (houter : Chained size (e :: edges)) (outer inner : List Edge) :
    mergePoints ((outer ++ (e :: edges ++ inner)).map Edge.points) outer.length
        (outer.length + (edges.length + 1)) =
      .ok (edges.foldl Edge.andThen e).points := by
  have hread : read ((outer ++ (e :: edges ++ inner)).map Edge.points) outer.length =
      .ok e.points := by
    refine read_of_getElem? ?_
    simp
  have hwindow : window ((outer ++ (e :: edges ++ inner)).map Edge.points) (outer.length + 1)
      (outer.length + (edges.length + 1)) = .ok (edges.map Edge.points) := by
    have hparts := window_append ((outer ++ [e]).map Edge.points) (edges.map Edge.points)
      (inner.map Edge.points)
    simp only [List.length_map, List.length_append, List.length_singleton] at hparts
    rw [Nat.add_comm edges.length, ← Nat.add_assoc, ← hparts]
    simp
  rw [mergePoints, hread, ok_bind, hwindow, ok_bind, foldlM_joinPoints houter]

theorem unitPoints_append (outer inner : List Edge) :
    unitPoints ((outer ++ inner).map Edge.points) outer.length =
      .ok (Edge.uniform (⟨outer⟩ : Shape).size 1).points := by
  rcases List.eq_nil_or_concat outer with rfl | ⟨front, e, rfl⟩
  · rfl
  · have hread : read ((front.concat e ++ inner).map Edge.points) ((front.concat e).length - 1) =
        .ok e.points := by
      refine read_of_getElem? ?_
      simp
    rw [unitPoints, if_neg (by simp), hread, map_ok, ok_bind, Edge.endOfPoints_points,
      List.concat_eq_append, size_concat]
    rfl

/-- All split points that merging looks up are there. -/
theorem flattenPoints_points (hs : s.Valid) (first last : Nat) :
    flattenPoints (s.edges.map Edge.points) first last =
      .ok ((s.flattenDims first last).edges.map Edge.points) := by
  rw [flattenDims_min, flattenPoints, List.length_map, ← rank]
  have hlast : min last s.rank ≤ s.rank := Nat.min_le_right last s.rank
  have hle : min first (min last s.rank) ≤ min last s.rank := Nat.min_le_right _ _
  generalize min last s.rank = last at hlast hle ⊢
  generalize min first last = first at hle ⊢
  obtain ⟨outer, between, inner, rfl, rfl, rfl⟩ := exists_parts hle hlast
  have houter : window ((outer ++ (between ++ inner)).map Edge.points) 0 outer.length =
      .ok (outer.map Edge.points) := by
    have hparts := window_append [] (outer.map Edge.points) ((between ++ inner).map Edge.points)
    simpa using hparts
  have hinner : window ((outer ++ (between ++ inner)).map Edge.points)
      (outer.length + between.length) (outer ++ (between ++ inner)).length =
        .ok (inner.map Edge.points) := by
    have hparts := window_append ((outer ++ between).map Edge.points) (inner.map Edge.points) []
    simp only [List.length_map, List.length_append, List.append_nil] at hparts
    rw [List.length_append, List.length_append, ← Nat.add_assoc, ← hparts]
    simp
  simp only [rank, houter, hinner, ok_bind]
  cases between with
  | nil =>
      rw [List.length_nil, Nat.add_zero, if_pos rfl, List.nil_append, unitPoints_append,
        flattenDims_append_nil, List.map_append]
      rfl
  | cons e edges =>
      have hchained : Chained (ending 1 outer) (e :: edges) :=
        (chained_append.1 (chained_append.1 hs).2).1
      rw [List.length_cons, if_neg (by omega), mergePoints_append hchained, flattenDims_append,
        List.map_append]
      rfl

/-! ### What merging keeps -/

/-- A shape with the dimensions between two bounds of another one merged into one. -/
structure Flattened (s : Shape) (first last : Nat) (t : Shape) : Prop where
  valid : t.Valid
  jagged : t.Jagged
  size_eq : t.size = s.size
  rank_eq : t.rank = s.rank - (last - first) + 1
  before : t.edges.take first = s.edges.take first
  after : t.edges.drop (first + 1) = s.edges.drop last
  merged : first < last → ∃ e, t.edges[first]? = some e ∧
    ∀ i j, e.Covers i j ↔ Ancestor ((s.edges.take last).drop first) i j
  inserted : first = last → ∃ e, t.edges[first]? = some e ∧
    e.parents = (s.removeDims first).size ∧ ∀ i < e.parents, e.range? i = some (i, i + 1)

theorem range?_uniform_one {n : Nat} (hn : n < Edge.pointLimit) (hi : i < n) :
    (Edge.uniform n 1).range? i = some (i, i + 1) := by
  have hfits := (chained_uniform_one hn).1.2.1
  have hsize : (Edge.uniform n 1).sizes[i]? = some 1 := by
    simp [Edge.uniform, hi]
  have hstart : Edge.total ((Edge.uniform n 1).sizes.take i) = i := by
    rw [Edge.uniform, List.take_replicate, Edge.total_replicate, Nat.mul_one,
      Nat.min_eq_left (Nat.le_of_lt hi)]
  rw [Edge.range?_of_fits hfits hsize, hstart]

theorem ending_append (size : Nat) (edges edges' : List Edge) :
    ending size (edges ++ edges') = ending (ending size edges) edges' := by
  induction edges generalizing size with
  | nil => rfl
  | cons e edges ih => rw [List.cons_append, ending_cons, ih, ending_cons]

/-- What one edge has to do to stand for the edges between two bounds. -/
theorem flattened_replace (between : List Edge) (ht : (⟨outer ++ e :: inner⟩ : Shape).Valid)
    (hend : e.children = ending (ending 1 outer) between)
    (hmerged : between ≠ [] → ∀ i j, e.Covers i j ↔ Ancestor between i j)
    (hinserted : between = [] → ∀ i < e.parents, e.range? i = some (i, i + 1)) :
    Flattened ⟨outer ++ (between ++ inner)⟩ outer.length (outer.length + between.length)
      ⟨outer ++ e :: inner⟩ := by
  have hedge : (outer ++ e :: inner)[outer.length]? = some e := by simp
  refine ⟨ht, ht.jagged, ?_, ?_, ?_, ?_, fun hlt => ⟨e, hedge, ?_⟩, fun heq => ⟨e, hedge, ?_, ?_⟩⟩
  · show ending 1 (outer ++ e :: inner) = ending 1 (outer ++ (between ++ inner))
    rw [ending_append, ending_append, ending_append, ending_cons, hend]
  · simp only [rank, List.length_append, List.length_cons]
    omega
  · rw [List.take_left, List.take_left]
  · simp [← List.append_assoc]
  · have hne : between ≠ [] := fun hnil => by
      rw [hnil] at hlt
      exact Nat.lt_irrefl _ hlt
    have hbetween : ((outer ++ (between ++ inner)).take (outer.length + between.length)).drop
        outer.length = between := by
      rw [← List.append_assoc, List.take_left' List.length_append, List.drop_left]
    rw [hbetween]
    exact hmerged hne
  · rw [removeDims, List.take_left]
    exact (chained_append.1 ht).2.1
  · exact hinserted (List.length_eq_zero_iff.1 (by omega))

/-- Merging keeps the size, the other dimensions, and every position under its ancestors; it
looks up no split point that is not there; and it can be done in two steps. -/
theorem flattened_flattenDims (hs : s.Valid) (first last : Nat) :
    Flattened s (min first (min last s.rank)) (min last s.rank) (s.flattenDims first last) ∧
      flattenPoints (s.edges.map Edge.points) first last =
        .ok ((s.flattenDims first last).edges.map Edge.points) ∧
      ∀ mid, first < mid → mid ≤ min last s.rank →
        (s.flattenDims first mid).flattenDims first (first + 1 + (min last s.rank - mid)) =
          s.flattenDims first last := by
  have hlast : min last s.rank ≤ s.rank := Nat.min_le_right last s.rank
  refine ⟨?_, flattenPoints_points hs first last, fun mid hmid hle => ?_⟩
  · rw [flattenDims_min]
    have hle : min first (min last s.rank) ≤ min last s.rank := Nat.min_le_right _ _
    generalize min last s.rank = last at hlast hle ⊢
    generalize min first last = first at hle ⊢
    have ht := valid_flattenDims hs first last
    obtain ⟨outer, between, inner, rfl, rfl, rfl⟩ := exists_parts hle hlast
    cases between with
    | nil =>
        have hsize := size_lt_of_valid (valid_removeDims hs outer.length)
        rw [removeDims, List.take_left] at hsize
        rw [List.length_nil, Nat.add_zero, List.nil_append, flattenDims_append_nil] at ht ⊢
        refine flattened_replace [] ht (chained_uniform_one hsize).2
          (fun hne => absurd rfl hne) fun _ i hi => range?_uniform_one hsize ?_
        rwa [(chained_uniform_one hsize).1.1] at hi
    | cons e edges =>
        have hchained := (chained_append.1 (chained_append.1 hs).2).1
        rw [List.length_cons, flattenDims_append] at ht ⊢
        exact flattened_replace (e :: edges) ht (chained_foldl_andThen hchained).2
          (fun _ i j => covers_foldl_andThen hchained) fun hnil => nomatch hnil
  · have hfirst : first ≤ min last s.rank := Nat.le_trans (Nat.le_of_lt hmid) hle
    rw [flattenDims_min s first last, Nat.min_eq_left hfirst]
    exact flattenDims_flattenDims hmid hle hlast

namespace ThreeDims

/-- Two rows, of one part and of two; the second of the three parts is empty. -/
def shape : Shape :=
  ⟨[⟨[2]⟩, ⟨[1, 2]⟩, ⟨[2, 0, 3]⟩]⟩

theorem valid_shape : shape.Valid := by
  refine ⟨rfl, ?_, rfl, ?_, rfl, ?_, trivial⟩
  · exact (by decide : 2 < Edge.pointLimit)
  · exact (by decide : 3 < Edge.pointLimit)
  · exact (by decide : 5 < Edge.pointLimit)

/-- The parts of each row are merged, and it does no harm to ask for more dimensions. -/
theorem flattened_shape :
    Flattened shape 1 3 ⟨[⟨[2]⟩, ⟨[2, 3]⟩]⟩ ∧
      flattenPoints (shape.edges.map Edge.points) 1 7 = .ok [[0, 2], [0, 2, 5]] ∧
      (shape.flattenDims 1 2).flattenDims 1 3 = ⟨[⟨[2]⟩, ⟨[2, 3]⟩]⟩ := by
  obtain ⟨hflattened, hpoints, hsteps⟩ := flattened_flattenDims valid_shape 1 7
  exact ⟨hflattened, hpoints, hsteps 2 (by decide) (by decide)⟩

end ThreeDims

end Shape

end ObjectGraph
