import Mathlib.Algebra.Group.Int.Defs
import Mathlib.Data.List.Chain
import ObjectGraph.Proofs.Shape.Segment

/-!
# Shapes that can be made

Edges read from split points fit into split points again, and so do edges whose sizes have
a sum that does. `Made` lists the ways to put such edges together: shapes of rank zero and
one, adding and removing dimensions, and merging some into one. The shapes made so are the
valid ones, and their split points never descend.
-/

namespace ObjectGraph

namespace Edge

variable {e next : Edge} {sizes : List Nat} {points : List Int64} {p : Int64}

theorem toInt_ofNat_of_lt {n : Nat} (h : n < pointLimit) : (Int64.ofNat n).toInt = n :=
  Int64.toInt_ofNat_of_lt h

theorem ofNat_le_ofNat {m n : Nat} (hmn : m ≤ n) (hn : n < pointLimit) :
    Int64.ofNat m ≤ Int64.ofNat n := by
  rw [Int64.le_iff_toInt_le, toInt_ofNat_of_lt hn, toInt_ofNat_of_lt (Nat.lt_of_le_of_lt hmn hn)]
  exact Int.ofNat_le.2 hmn

/-! ### Split points -/

theorem pointsFrom_eq_cons (start : Nat) (sizes : List Nat) :
    pointsFrom start sizes = start :: (pointsFrom start sizes).tail := by
  cases sizes <;> rfl

theorem le_of_mem_pointsFrom {start n : Nat} (h : n ∈ pointsFrom start sizes) :
    start ≤ n ∧ n ≤ start + total sizes := by
  induction sizes generalizing start with
  | nil =>
      obtain rfl := List.mem_singleton.1 h
      exact ⟨Nat.le_refl n, Nat.le_refl n⟩
  | cons size sizes ih =>
      rw [total_cons]
      rcases List.mem_cons.1 h with rfl | h
      · omega
      · have hbounds := ih h
        omega

theorem pairwise_pointsFrom (start : Nat) (sizes : List Nat) :
    (pointsFrom start sizes).Pairwise (· ≤ ·) := by
  induction sizes generalizing start with
  | nil => exact List.pairwise_singleton _ _
  | cons size sizes ih =>
      refine List.pairwise_cons.2 ⟨fun n hn => ?_, ih (start + size)⟩
      have hbounds := le_of_mem_pointsFrom hn
      omega

/-- Split points that do not wrap around never descend. -/
theorem pairwise_points (he : e.Fits) : e.points.Pairwise (· ≤ ·) := by
  refine List.pairwise_map.2 ((pairwise_pointsFrom 0 e.sizes).imp_of_mem ?_)
  intro m n _ hn hmn
  have hle := (le_of_mem_pointsFrom hn).2
  rw [Nat.zero_add] at hle
  exact ofNat_le_ofNat hmn (Nat.lt_of_le_of_lt hle he)

theorem head?_points (e : Edge) : e.points.head? = some 0 := by
  rw [points, pointsFrom_eq_cons]
  rfl

theorem gaps?_points {start : Nat} (h : start + total sizes < pointLimit) :
    gaps? (.ofNat start) ((pointsFrom start sizes).tail.map .ofNat) = some sizes := by
  induction sizes generalizing start with
  | nil => rfl
  | cons size sizes ih =>
      rw [total_cons] at h
      have hnext : start + size < pointLimit := by omega
      have hgap : ((Int64.ofNat (start + size)).toInt - (Int64.ofNat start).toInt).toNat =
          size := by
        rw [toInt_ofNat_of_lt hnext, toInt_ofNat_of_lt (by omega)]
        omega
      rw [pointsFrom, List.tail_cons, pointsFrom_eq_cons, List.map_cons, gaps?,
        if_pos (ofNat_le_ofNat (Nat.le_add_right start size) hnext), hgap, ih (by omega)]
      rfl

/-- The split points of an edge can be read back. -/
theorem ofPoints_points (he : e.Fits) : ofPoints e.points = .ok e := by
  have hgaps : gaps? (.ofNat 0) ((pointsFrom 0 e.sizes).tail.map .ofNat) = some e.sizes :=
    gaps?_points (by rw [Nat.zero_add]; exact he)
  rw [points, pointsFrom_eq_cons, List.map_cons, ofPoints, if_neg (fun h => h rfl), hgaps]

theorem toInt_add_total_lt (h : gaps? p points = some sizes) :
    p.toInt + total sizes < 2 ^ 63 := by
  induction points generalizing p sizes with
  | nil =>
      obtain rfl := Option.some.inj h
      have hlt := p.toInt_lt
      rw [total_nil]
      omega
  | cons q points ih =>
      rw [gaps?] at h
      split at h
      · rename_i hpq
        obtain ⟨rest, hrest, rfl⟩ := Option.map_eq_some_iff.1 h
        have hlt := ih hrest
        rw [Int64.le_iff_toInt_le] at hpq
        rw [total_cons]
        omega
      · cases h

/-- Split points are words, so the sizes read from them have a sum that fits. -/
theorem fits_of_ofPoints (h : ofPoints points = .ok e) : e.Fits := by
  cases points with
  | nil => cases h
  | cons first points =>
      rw [ofPoints] at h
      split at h
      · cases h
      · rename_i hfirst
        have hzero : first.toInt = 0 := by
          rw [Decidable.not_not.1 hfirst]
          rfl
        split at h
        · rename_i sizes hgaps
          obtain rfl := Except.ok.inj h
          have hlt := toInt_add_total_lt hgaps
          have hlimit : total sizes < 2 ^ 63 := by omega
          exact hlimit
        · cases h

/-- Edges that are read from split points, or made from sizes with a sum that fits. -/
inductive Made : Edge → Prop
  | ofPoints {points : List Int64} {e : Edge} (h : Edge.ofPoints points = .ok e) : Made e
  | ofSizes {sizes : List Nat} (h : total sizes < pointLimit) : Made ⟨sizes⟩

theorem Made.fits (h : e.Made) : e.Fits := by
  cases h with
  | ofPoints h => exact fits_of_ofPoints h
  | ofSizes h => exact h

/-! ### Joining edges -/

theorem total_map_cut (sizes xs : List Nat) :
    total ((cut sizes xs).map total) = total (xs.take (total sizes)) := by
  induction sizes generalizing xs with
  | nil => rfl
  | cons size sizes ih =>
      rw [cut, List.map_cons, total_cons, ih, total_cons, ← total_append, List.take_add]

/-- Joining a fitting edge to the next one loses no position. -/
theorem total_andThen (he : e.Fits) (hparents : next.parents = e.children) :
    total (e.andThen next).sizes = total next.sizes := by
  rw [children_of_fits he] at hparents
  rw [andThen, segments, total_map_cut, ← hparents, parents, List.take_length]

end Edge

namespace Shape

variable {s t : Shape} {size : Nat} {e : Edge} {edges outer inner : List Edge}

theorem isEquivalentTo_iff : s.isEquivalentTo t = true ↔ s = t := by
  cases s
  cases t
  rw [isEquivalentTo, beq_iff_eq, mk.injEq]

theorem valid_of_addDims (hs : s.Valid) (hedges : ∀ e ∈ edges, e.Fits)
    (h : s.addDims edges = .ok t) : t.Valid := by
  induction edges generalizing s with
  | nil =>
      obtain rfl := Except.ok.inj h
      exact hs
  | cons e edges ih =>
      rw [addDims, addDim] at h
      split at h
      · rename_i hparents
        have hfits := hedges e List.mem_cons_self
        have hnext : (⟨s.edges ++ [e]⟩ : Shape).Valid :=
          chained_append.2 ⟨hs, hparents, hfits, trivial⟩
        exact ih hnext (fun e he => hedges e (List.mem_cons_of_mem _ he)) h
      · cases h

theorem valid_removeDims (hs : s.Valid) (count : Nat) : (s.removeDims count).Valid := by
  rw [Valid, ← List.take_append_drop count s.edges] at hs
  exact (chained_append.1 hs).1

theorem size_lt_of_valid (hs : s.Valid) : s.size < Edge.pointLimit := by
  rcases List.eq_nil_or_concat s.edges with hnil | ⟨edges, e, hconcat⟩
  · rw [size, hnil]
    decide
  · rw [Valid, hconcat, List.concat_eq_append] at hs
    obtain ⟨-, -, hfits, -⟩ := chained_append.1 hs
    have hsize : s.size = e.children := by simp [size, hconcat]
    rw [hsize, Edge.children_of_fits hfits]
    exact hfits

/-- Two edges that are joined may take the place of both. -/
theorem chained_andThen {next : Edge} (h : Chained size (e :: next :: edges)) :
    Chained size (e.andThen next :: edges) ∧ (e.andThen next).children = next.children := by
  obtain ⟨hparents, hfits, hnext, hnextFits, hrest⟩ := h
  have htotal := Edge.total_andThen hfits hnext
  have hjoined : (e.andThen next).Fits := by
    rw [Edge.Fits, htotal]
    exact hnextFits
  have hchildren : (e.andThen next).children = next.children := by
    rw [Edge.children, htotal, Edge.children]
  refine ⟨⟨(Edge.parents_andThen e next).trans hparents, hjoined, ?_⟩, hchildren⟩
  rw [hchildren]
  exact hrest

/-- Edges that are joined lead to where the last of them led. -/
theorem chained_foldl_andThen (h : Chained size (e :: edges)) :
    Chained size [edges.foldl Edge.andThen e] ∧
      (edges.foldl Edge.andThen e).children = ending size (e :: edges) := by
  induction edges generalizing e with
  | nil => exact ⟨h, rfl⟩
  | cons next edges ih =>
      obtain ⟨hchained, hchildren⟩ := chained_andThen h
      obtain ⟨hfold, hend⟩ := ih hchained
      refine ⟨hfold, ?_⟩
      rw [List.foldl_cons, hend, ending_cons, ending_cons, hchildren, ending_cons]

theorem chained_uniform_one (h : size < Edge.pointLimit) :
    Chained size [.uniform size 1] ∧ (Edge.uniform size 1).children = size := by
  have htotal : Edge.total (Edge.uniform size 1).sizes = size := by
    rw [Edge.uniform, Edge.total_replicate, Nat.mul_one]
  have hfits : (Edge.uniform size 1).Fits := by
    rw [Edge.Fits, htotal]
    exact h
  refine ⟨⟨List.length_replicate, hfits, trivial⟩, ?_⟩
  rw [Edge.children_of_fits hfits, htotal]

/-- One edge may take the place of others that lead to the same dimension. -/
theorem chained_replace (edges : List Edge) (houter : Chained size outer)
    (hedge : Chained (ending size outer) [e])
    (hend : e.children = ending (ending size outer) edges)
    (hinner : Chained (ending (ending size outer) edges) inner) :
    Chained size (outer ++ e :: inner) := by
  refine chained_append.2 ⟨houter, hedge.1, hedge.2.1, ?_⟩
  rw [hend]
  exact hinner

theorem valid_flattenDims (hs : s.Valid) (first last : Nat) : (s.flattenDims first last).Valid := by
  -- The edges are those before, those merged and those after.
  have hsplit : ∀ first last : Nat, first ≤ last →
      s.edges = s.edges.take first ++ ((s.edges.take last).drop first ++ s.edges.drop last) := by
    intro first last hle
    have htake : s.edges.take first = (s.edges.take last).take first := by
      rw [List.take_take, Nat.min_eq_left hle]
    rw [htake, ← List.append_assoc, List.take_append_drop, List.take_append_drop]
  simp only [flattenDims]
  generalize min last s.rank = last
  have hle := Nat.min_le_right first last
  generalize min first last = first at hle
  have hchained := hs
  rw [Valid, hsplit first last hle] at hchained
  obtain ⟨houter, hrest⟩ := chained_append.1 hchained
  obtain ⟨hmerged, hinner⟩ := chained_append.1 hrest
  cases hedges : (s.edges.take last).drop first with
  | nil =>
      have hunit := chained_uniform_one (size_lt_of_valid (valid_removeDims hs first))
      rw [hedges] at hinner
      exact chained_replace [] houter hunit.1 hunit.2 hinner
  | cons e edges =>
      rw [hedges] at hmerged hinner
      obtain ⟨hjoined, hend⟩ := chained_foldl_andThen hmerged
      exact chained_replace (e :: edges) houter hjoined hend hinner

/-- The edges map each dimension to the next one by split points that never descend. -/
structure Jagged (s : Shape) : Prop where
  root : ∀ e ∈ s.edges.head?, e.parents = 1
  chained : s.edges.IsChain fun e e' => e'.parents = e.children
  points : ∀ e ∈ s.edges, e.points.head? = some 0 ∧ e.points.Pairwise (· ≤ ·)

theorem parents_of_chained (h : Chained size edges) (e : Edge) (he : e ∈ edges.head?) :
    e.parents = size := by
  cases edges with
  | nil => cases he
  | cons e' edges =>
      obtain rfl := Option.some.inj he
      exact h.1

theorem isChain_of_chained (h : Chained size edges) :
    edges.IsChain fun e e' => e'.parents = e.children := by
  induction edges generalizing size with
  | nil => exact .nil
  | cons e edges ih => exact (ih h.2.2).cons fun e' he' => parents_of_chained h.2.2 e' he'

theorem fits_of_chained (h : Chained size edges) : ∀ e ∈ edges, e.Fits := by
  induction edges generalizing size with
  | nil => exact List.forall_mem_nil _
  | cons e edges ih => exact List.forall_mem_cons.2 ⟨h.2.1, ih h.2.2⟩

theorem Valid.jagged (h : s.Valid) : s.Jagged where
  root := parents_of_chained h
  chained := isChain_of_chained h
  points := fun e he => ⟨e.head?_points, Edge.pairwise_points (fits_of_chained h e he)⟩

/-- Shapes that are put together from edges that can be made. -/
inductive Made : Shape → Prop
  | scalar : Made .scalar
  | flat {size : Nat} (h : size < Edge.pointLimit) : Made (.flat size)
  | addDims {s t : Shape} {edges : List Edge} (hs : Made s) (hedges : ∀ e ∈ edges, e.Made)
      (h : s.addDims edges = .ok t) : Made t
  | removeDims {s : Shape} (hs : Made s) (count : Nat) : Made (s.removeDims count)
  | flattenDims {s : Shape} (hs : Made s) (first last : Nat) : Made (s.flattenDims first last)

theorem valid_flat (h : size < Edge.pointLimit) : (flat size).Valid := by
  refine ⟨rfl, ?_, trivial⟩
  rw [Edge.Fits, Edge.uniform, Edge.total_replicate, Nat.one_mul]
  exact h

theorem Made.valid (h : s.Made) : s.Valid := by
  induction h with
  | scalar => trivial
  | flat h => exact valid_flat h
  | addDims _ hedges h ih => exact valid_of_addDims ih (fun e he => (hedges e he).fits) h
  | removeDims _ count ih => exact valid_removeDims ih count
  | flattenDims _ first last ih => exact valid_flattenDims ih first last

/-- The shapes that can be made are the valid ones, so those of valid slices can be taken for
other columns. -/
theorem made_iff : s.Made ↔ s.Valid := by
  refine ⟨Made.valid, fun h => ?_⟩
  have hadd : scalar.addDims s.edges = .ok s := addDims_of_chained h
  exact .addDims .scalar (fun e he => .ofSizes (fits_of_chained h e he)) hadd

end Shape

end ObjectGraph
