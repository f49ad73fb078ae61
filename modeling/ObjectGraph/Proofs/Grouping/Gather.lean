import ObjectGraph.Proofs.Grouping.Collect

/-!
# Collecting all segments

After some segments, the buffers hold the groups of these segments: their positions one
after another, the split points of the groups and those of their positions. The counters
that later segments need are still zero, and so is the rest of the output.
-/

namespace ObjectGraph.Grouping

open Buffer

/-! ### Split points of more groups -/

theorem pointsFrom_append (start : Nat) (sizes sizes' : List Nat) :
    Edge.pointsFrom start (sizes ++ sizes') = Edge.pointsFrom start sizes ++
      (Edge.pointsFrom (start + Edge.total sizes) sizes').tail := by
  induction sizes generalizing start with
  | nil =>
      rw [List.nil_append, Edge.pointsFrom_eq_cons]
      rfl
  | cons size sizes ih =>
      rw [List.cons_append, Edge.pointsFrom, ih, Edge.pointsFrom, Edge.total_cons, Nat.add_assoc]
      rfl

variable {ids labels : List (Option Nat)} {segments todo : List (List (Option Nat))}
  {size parents : Nat} {s : Collected}

theorem laidOut_append (first : Nat) (segments todo : List (List (Option Nat))) :
    laidOut first (segments ++ todo) = laidOut first segments ++
      laidOut (first + (segments.map groupsOf).flatten.length) todo := by
  induction segments generalizing first with
  | nil => rfl
  | cons labels segments ih =>
      rw [List.cons_append, laidOut, ih, laidOut, List.map_cons, List.flatten_cons,
        List.length_append, List.append_assoc, Nat.add_assoc]

theorem length_positions_le (segments : List (List (Option Nat))) :
    (segments.map groupsOf).flatten.flatten.length ≤ Edge.total (segments.map List.length) := by
  induction segments with
  | nil => exact Nat.le_refl 0
  | cons labels segments ih =>
      have hfirst := length_flatten_groupsOf_le labels
      simp only [List.map_cons, List.flatten_cons, List.flatten_append, List.length_append,
        Edge.total_cons]
      omega

theorem length_groups_le (segments : List (List (Option Nat))) :
    (segments.map groupsOf).flatten.length ≤ Edge.total (segments.map List.length) :=
  Nat.le_trans (length_flatten_le (ne_nil_of_mem_groups segments)) (length_positions_le segments)

/-- The buffers after the groups of some segments are collected. -/
structure Gathered (size parents : Nat) (done : List (List (List Nat))) (s : Collected) :
    Prop where
  slots : ∃ used : List Nat, used.length = done.flatten.length ∧
    s.slots = used ++ List.replicate (size - used.length) 0
  indices : s.indices = done.flatten.flatten ++
    List.replicate (size - done.flatten.flatten.length) 0
  groupPoints : s.groupPoints = Edge.pointsFrom 0 (done.map List.length) ++
    List.replicate (parents - done.length) 0
  itemPoints : s.itemPoints = Edge.pointsFrom 0 (done.flatten.map List.length)
  filled : s.filled = done.flatten.flatten.length
  groups : s.groups = done.flatten.length

theorem gathered_nil (size parents : Nat) : Gathered size parents []
    ⟨List.replicate size 0, List.replicate size 0, List.replicate (parents + 1) 0, [0], 0, 0⟩ where
  slots := ⟨[], rfl, rfl⟩
  indices := rfl
  groupPoints := List.replicate_succ
  itemPoints := rfl
  filled := rfl
  groups := rfl

variable {done : List (List (List Nat))}

theorem replicate_sub {m k : Nat} (h : k ≤ m) :
    List.replicate m 0 = List.replicate k 0 ++ List.replicate (m - k) 0 := by
  rw [List.replicate_append_replicate, Nat.add_sub_cancel' h]

/-- The split point behind the groups of one more segment is written in range. -/
theorem Gathered.write_groupPoints (h : Gathered size parents done s)
    (hparents : done.length < parents) (groups : List (List Nat)) :
    write s.groupPoints (done.length + 1) (s.groups + groups.length) =
      .ok (Edge.pointsFrom 0 ((done ++ [groups]).map List.length) ++
        List.replicate (parents - (done ++ [groups]).length) 0) := by
  have hrest : List.replicate (parents - done.length) 0 =
      0 :: List.replicate (parents - (done ++ [groups]).length) 0 := by
    rw [← List.replicate_succ, List.length_append, List.length_singleton]
    congr 1
    omega
  have hlength : (Edge.pointsFrom 0 (done.map List.length)).length = done.length + 1 := by
    rw [Edge.length_pointsFrom, List.length_map]
  rw [h.groupPoints, hrest, ← hlength, write_append, List.map_append, pointsFrom_append,
    Edge.total_map_length, h.groups, Nat.zero_add, List.append_assoc]
  rfl

theorem ne_zero_of_mem_lengths (labels : List (Option Nat)) :
    ∀ count ∈ (groupsOf labels).map List.length, count ≠ 0 := by
  intro count hcount
  obtain ⟨group, hgroup, rfl⟩ := List.mem_map.1 hcount
  obtain ⟨-, -, -, hne⟩ := mem_groupsOf.1 hgroup
  exact (List.length_pos_iff.2 hne).ne'

/-- The buffers after the groups of one more segment. -/
theorem Gathered.next (h : Gathered size parents done s) (groups : List (List Nat))
    (hne : ∀ count ∈ groups.map List.length, count ≠ 0) {used : List Nat} (slots : List Nat)
    (hused : used.length = done.flatten.length) (hslots : slots.length = groups.length) :
    Gathered size parents (done ++ [groups])
      ⟨used ++ (slots ++ List.replicate (size - used.length - groups.length) 0),
        done.flatten.flatten ++
          (groups.flatten ++ List.replicate (size - s.filled - groups.flatten.length) 0),
        Edge.pointsFrom 0 ((done ++ [groups]).map List.length) ++
          List.replicate (parents - (done ++ [groups]).length) 0,
        s.itemPoints ++ ends s.filled (groups.map List.length),
        s.filled + Edge.total (groups.map List.length), s.groups + groups.length⟩ := by
  have hflatten : (done ++ [groups]).flatten = done.flatten ++ groups := by simp
  have hends : ends s.filled (groups.map List.length) =
      (Edge.pointsFrom s.filled (groups.map List.length)).tail := by
    rw [← ends_eq s.filled hne, List.tail_cons]
  rw [h.filled] at hends
  constructor
  case slots =>
    refine ⟨used ++ slots, ?_, ?_⟩
    · rw [List.length_append, hflatten, List.length_append, hused, hslots]
    · simp only [List.length_append, hslots, Nat.sub_sub, List.append_assoc]
  case indices =>
    simp only [hflatten, List.flatten_append, List.length_append, h.filled, Nat.sub_sub,
      List.append_assoc]
  case groupPoints => rfl
  case itemPoints =>
    simp only [hflatten, List.map_append, pointsFrom_append, Edge.total_map_length, Nat.zero_add,
      h.itemPoints, hends, h.filled]
  case filled =>
    simp only [hflatten, List.flatten_append, List.length_append, h.filled, Edge.total_map_length]
  case groups => simp only [hflatten, List.length_append, h.groups]

/-- The groups of one more segment are collected in range. -/
theorem Gathered.collectSegment (h : Gathered size parents done s) (hlabels : Compact labels)
    (hgroups : done.flatten.length + (groupsOf labels).length ≤ size)
    (hpositions : done.flatten.flatten.length + (groupsOf labels).flatten.length ≤ size)
    (hparents : done.length < parents) (before after : List (Option Nat)) :
    ∃ s', Grouping.collectSegment (before ++ (shift done.flatten.length labels ++ after)) s
        ((before.length, before.length + labels.length), done.length) = .ok s' ∧
      Gathered size parents (done ++ [groupsOf labels]) s' := by
  obtain ⟨used, hused, hslots⟩ := h.slots
  have hwindow := window_append before (shift used.length labels) after
  rw [length_shift] at hwindow
  -- The counters of the segment are the next ones, and still zero.
  have hcount := foldlM_count used
    (List.replicate (size - used.length - (groupsOf labels).length) 0) hlabels
  rw [← replicate_sub (by omega), ← hslots] at hcount
  have hpoints := h.write_groupPoints hparents (groupsOf labels)
  rw [Grouping.collectSegment, ← hused]
  simp only [hwindow, ok_bind, hcount, hpoints]
  by_cases hnone : (groupsOf labels).length = 0
  · have hnext := h.next [] nofun [] hused rfl
    simp only [List.nil_append, List.length_nil, Nat.sub_zero, List.flatten_nil, List.map_nil,
      ends, List.append_nil, Edge.total_nil, Nat.add_zero, h.filled] at hnext
    rw [if_pos hnone, hnone, List.length_eq_zero_iff.1 hnone]
    exact ⟨_, rfl, by rw [hslots, h.indices, h.filled]; exact hnext⟩
  · have hput := foldlM_put used
      (List.replicate (size - used.length - (groupsOf labels).length) 0) done.flatten.flatten
      (List.replicate (size - done.flatten.flatten.length - (groupsOf labels).flatten.length) 0)
      [] labels hlabels
    rw [List.nil_append, placed_nil hlabels, placed_self hlabels, ← replicate_sub (by omega),
      ← h.indices, ← h.filled, ← List.append_assoc, List.length_nil] at hput
    have hcounts := window_append used ((groupsOf labels).map List.length)
      (List.replicate (size - used.length - (groupsOf labels).length) 0)
    rw [List.length_map] at hcounts
    have hdrop : (used ++ ((groupsOf labels).map List.length ++
        List.replicate (size - used.length - (groupsOf labels).length) 0)).drop
          (used.length + (groupsOf labels).length) =
        List.replicate (size - used.length - (groupsOf labels).length) 0 := by
      rw [← List.append_assoc, List.drop_left' (by simp)]
    rw [if_neg hnone]
    simp only [hcounts, ok_bind, List.take_left, hdrop, hput]
    exact ⟨_, rfl, h.next (groupsOf labels) (ne_zero_of_mem_lengths labels) _ hused (by simp)⟩

theorem foldlM_collectSegment (segments : List (List (Option Nat)))
    (hcompact : ∀ labels ∈ todo, Compact labels)
    (hsize : Edge.total ((segments ++ todo).map List.length) ≤ size)
    (hparents : (segments ++ todo).length ≤ parents) (h : Gathered size parents
      (segments.map groupsOf) s) :
    ∃ s', ((rangesFrom (laidOut 0 segments).length (todo.map List.length)).zipIdx
        segments.length).foldlM (Grouping.collectSegment (laidOut 0 (segments ++ todo))) s =
          .ok s' ∧
      Gathered size parents ((segments ++ todo).map groupsOf) s' := by
  induction todo generalizing segments s with
  | nil => exact ⟨s, rfl, by rwa [List.append_nil]⟩
  | cons labels todo ih =>
      have hle : Edge.total ((segments ++ [labels]).map List.length) ≤ size := by
        rw [List.append_cons, List.map_append, Edge.total_append] at hsize
        omega
      have hgroups := Nat.le_trans (length_groups_le (segments ++ [labels])) hle
      have hpositions := Nat.le_trans (length_positions_le (segments ++ [labels])) hle
      simp only [List.map_append, List.map_cons, List.map_nil, List.flatten_append,
        List.flatten_cons, List.flatten_nil, List.append_nil, List.length_append]
        at hgroups hpositions
      have hlt : (segments.map groupsOf).length < parents := by
        rw [List.length_append, List.length_cons] at hparents
        rw [List.length_map]
        omega
      have hids : laidOut 0 (segments ++ labels :: todo) = laidOut 0 segments ++
          (shift (segments.map groupsOf).flatten.length labels ++
            laidOut ((segments.map groupsOf).flatten.length + (groupsOf labels).length) todo) := by
        rw [laidOut_append, Nat.zero_add, laidOut]
      have hlength : (laidOut 0 (segments ++ [labels])).length =
          (laidOut 0 segments).length + labels.length := by
        simp [laidOut_append, laidOut]
      obtain ⟨s', hstep, hs'⟩ := h.collectSegment (hcompact labels List.mem_cons_self) hgroups
        hpositions hlt (laidOut 0 segments)
        (laidOut ((segments.map groupsOf).flatten.length + (groupsOf labels).length) todo)
      rw [← hids, List.length_map] at hstep
      obtain ⟨s'', hrest, hs''⟩ := ih (segments ++ [labels])
        (fun l hl => hcompact l (List.mem_cons_of_mem labels hl)) (by rwa [← List.append_cons])
        (by rwa [← List.append_cons]) (by rwa [List.map_append])
      rw [hlength, ← List.append_cons, List.length_append] at hrest
      refine ⟨s'', ?_, by rwa [List.append_cons]⟩
      rw [List.map_cons, rangesFrom, List.zipIdx_cons, List.foldlM_cons, hstep, ok_bind]
      exact hrest

/-- Collecting the numbers of all groups gives the groups one after another, with their
split points. -/
theorem exists_collect {edge : Edge} (hcompact : ∀ labels ∈ segments, Compact labels)
    (he : edge.Fits) (hsizes : segments.map List.length = edge.sizes) :
    ∃ s, collect (laidOut 0 segments) (ranges edge) = .ok s ∧
      s.indices.take s.filled = (segments.map groupsOf).flatten.flatten ∧
      s.groupPoints = Edge.pointsFrom 0 ((segments.map groupsOf).map List.length) ∧
      s.itemPoints = Edge.pointsFrom 0 ((segments.map groupsOf).flatten.map List.length) := by
  have hsize : (laidOut 0 segments).length = Edge.total (segments.map List.length) :=
    (laid_laidOut 0 segments).length
  have hranges : ranges edge = rangesFrom 0 (segments.map List.length) := by
    rw [ranges_of_fits he, hsizes]
  have hlength : (ranges edge).length = segments.length := by
    rw [hranges, length_rangesFrom, List.length_map]
  obtain ⟨s, hrun, hs⟩ := foldlM_collectSegment [] hcompact (Nat.le_of_eq hsize.symm)
    (Nat.le_refl _) (gathered_nil _ _)
  have hpoints := hs.groupPoints
  rw [List.nil_append] at hrun hpoints
  rw [List.length_map, Nat.sub_self, List.replicate_zero, List.append_nil] at hpoints
  refine ⟨s, ?_, ?_, hpoints, hs.itemPoints⟩
  · rw [collect, hlength, hranges]
    exact hrun
  · rw [hs.indices, hs.filled, List.take_left]
    rfl

end ObjectGraph.Grouping
