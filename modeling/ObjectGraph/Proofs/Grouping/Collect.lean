import Mathlib.Data.Finset.Card
import Mathlib.Data.List.Perm.Subperm
import ObjectGraph.Proofs.Grouping.Laid

/-!
# Collecting positions from a buffer

The last pass of grouping is a counting sort of each segment: it counts the positions of
every group, gives each group a part of the output of that size, and puts the positions
there in order. Because the groups of a segment are numbered without gaps, and not below
those of the segments before, their counters are the next ones in the buffer and have not
been used. So every access is in range, and the output is the groups one after another.
-/

namespace ObjectGraph.Grouping

open Buffer

/-! ### Positions with a label -/

section Positions

variable {labels : List (Option Nat)} {label : Option Nat} {g j k : Nat}

theorem positionsIn_concat (labels : List (Option Nat)) (label : Option Nat) (g : Nat) :
    positionsIn (labels ++ [label]) g =
      positionsIn labels g ++ if label = some g then [labels.length] else [] := by
  rw [positionsIn, List.zipIdx_append, List.filter_append, List.map_append, positionsIn]
  by_cases h : label = some g <;> simp [h]

@[simp] theorem positionsIn_nil (g : Nat) : positionsIn [] g = [] :=
  rfl

theorem positionsIn_ne_nil_iff : positionsIn labels g ≠ [] ↔ some g ∈ labels := by
  constructor
  · intro hne
    obtain ⟨p, hp⟩ := List.exists_mem_of_ne_nil _ hne
    exact List.mem_of_getElem? (mem_positionsIn.1 hp)
  · intro hmem
    obtain ⟨p, hp⟩ := List.mem_iff_getElem?.1 hmem
    exact List.ne_nil_of_mem (mem_positionsIn.2 hp)

theorem Compact.groupsOf_eq (h : Compact labels) :
    groupsOf labels = (List.range (groupsOf labels).length).map (positionsIn labels) := by
  have hle : (groupsOf labels).length ≤ labels.length := by
    have hfilter := List.length_filter_le (fun group : List Nat => !group.isEmpty)
      ((List.range labels.length).map (positionsIn labels))
    rw [List.length_map, List.length_range] at hfilter
    exact hfilter
  exact groupsOf_eq_map hle h

theorem Compact.mem_iff (h : Compact labels) : some g ∈ labels ↔ g < (groupsOf labels).length := by
  rw [← h g, List.mem_iff_getElem?]

theorem nodup_flatten_groupsOf (labels : List (Option Nat)) : (groupsOf labels).flatten.Nodup := by
  refine List.nodup_flatten.2 ⟨fun group hgroup => ?_, (ordered_ne labels).groupsOf.imp ?_⟩
  · obtain ⟨g, -, rfl, -⟩ := mem_groupsOf.1 hgroup
    exact (pairwise_positionsIn labels g).imp Nat.ne_of_lt
  · intro a b hne p hpa hpb
    exact hne p hpa p hpb rfl

/-- No more positions are in groups than there are. -/
theorem length_flatten_groupsOf_le (labels : List (Option Nat)) :
    (groupsOf labels).flatten.length ≤ labels.length := by
  have hsubset : (groupsOf labels).flatten ⊆ List.range labels.length := by
    intro p hp
    obtain ⟨group, hgroup, hp⟩ := List.mem_flatten.1 hp
    obtain ⟨g, -, rfl, -⟩ := mem_groupsOf.1 hgroup
    exact List.mem_range.2 (List.getElem?_eq_some_iff.1 (mem_positionsIn.1 hp)).1
  have hle := ((nodup_flatten_groupsOf labels).subperm hsubset).length_le
  rwa [List.length_range] at hle

end Positions

/-! ### Counting -/

section Count

variable {used rest : List Nat} {first k : Nat} {done labels : List (Option Nat)}
  {bounds : Option (Nat × Nat)} {t : Tally}

/-- The least number of labels and the one after the greatest, counted from a number on. -/
def Spans (first : Nat) (labels : List (Option Nat)) : Option (Nat × Nat) → Prop
  | none => ∀ g : Nat, some g ∉ labels
  | some (least, limit) => (∃ g : Nat, some g ∈ labels ∧ least = first + g) ∧
    (∃ g : Nat, some g ∈ labels ∧ limit = first + g + 1) ∧
    ∀ g : Nat, some g ∈ labels → least ≤ first + g ∧ first + g < limit

theorem mem_concat_some {g h : Nat} : some h ∈ done ++ [some g] ↔ some h ∈ done ∨ h = g := by
  simp

theorem mem_concat_none {h : Nat} : some h ∈ done ++ [none] ↔ some h ∈ done := by
  simp

theorem Spans.concat_none (hspans : Spans first done bounds) :
    Spans first (done ++ [none]) bounds := by
  cases bounds with
  | none =>
      intro g
      rw [mem_concat_none]
      exact hspans g
  | some b =>
      simp only [Spans, mem_concat_none]
      exact hspans

theorem Spans.concat_some (hspans : Spans first done bounds) (g : Nat) :
    Spans first (done ++ [some g]) (some (widen bounds (first + g))) := by
  cases bounds with
  | none =>
      have hsingle : ∀ h : Nat, some h ∈ done ++ [some g] ↔ h = g := fun h => by
        rw [mem_concat_some, or_iff_right (hspans h)]
      simp only [Spans, widen, hsingle]
      refine ⟨⟨g, rfl, rfl⟩, ⟨g, rfl, rfl⟩, ?_⟩
      rintro _ rfl
      omega
  | some b =>
      obtain ⟨least, limit⟩ := b
      obtain ⟨⟨a, ha, hleast⟩, ⟨c, hc, hlimit⟩, hall⟩ := hspans
      simp only [Spans, widen, mem_concat_some]
      refine ⟨?_, ?_, ?_⟩
      · rcases Nat.le_total least (first + g) with hle | hle
        · exact ⟨a, Or.inl ha, (Nat.min_eq_left hle).trans hleast⟩
        · exact ⟨g, Or.inr rfl, Nat.min_eq_right hle⟩
      · rcases Nat.le_total (first + g + 1) limit with hle | hle
        · exact ⟨c, Or.inl hc, (Nat.max_eq_left hle).trans hlimit⟩
        · exact ⟨g, Or.inr rfl, Nat.max_eq_right hle⟩
      · rintro h (hh | rfl)
        · have hbounds := hall h hh
          omega
        · omega

/-- Labels without gaps span the numbers of their groups. -/
theorem Spans.eq_of_compact (hspans : Spans first labels bounds) (h : Compact labels) :
    bounds = if (groupsOf labels).length = 0 then none
      else some (first, first + (groupsOf labels).length) := by
  generalize hk : (groupsOf labels).length = k
  have hmem : ∀ g : Nat, some g ∈ labels ↔ g < k := fun g => hk ▸ h.mem_iff
  cases bounds with
  | none =>
      rw [if_pos]
      have hnone := hspans 0
      rw [hmem] at hnone
      omega
  | some b =>
      obtain ⟨least, limit⟩ := b
      obtain ⟨⟨a, ha, hleast⟩, ⟨c, hc, hlimit⟩, hall⟩ := hspans
      rw [hmem] at ha hc
      have hzero := hall 0 ((hmem 0).2 (by omega))
      have hlast := hall (k - 1) ((hmem _).2 (by omega))
      rw [if_neg (by omega), Option.some.injEq, Prod.mk.injEq]
      omega

/-- The counts of the groups of labels, behind counters that are in use. -/
def counters (used : List Nat) (k : Nat) (rest : List Nat) (labels : List (Option Nat)) :
    List Nat :=
  used ++ ((List.range k).map (fun j => (positionsIn labels j).length) ++ rest)

/-- A tally of labels that are counted from the number of used counters. -/
structure Tallied (used rest : List Nat) (k : Nat) (done : List (Option Nat)) (t : Tally) :
    Prop where
  slots : t.slots = counters used k rest done
  groups : t.groups = done.reduceOption.toFinset.card
  bounds : Spans used.length done t.bounds

theorem tallied_nil (used rest : List Nat) (k : Nat) :
    Tallied used rest k [] ⟨used ++ (List.replicate k 0 ++ rest), 0, none⟩ where
  slots := by simp [counters]
  groups := rfl
  bounds := fun _ => List.not_mem_nil

/-- One more label is counted in range. -/
theorem Tallied.count (h : Tallied used rest k done t) (label : Option Nat)
    (hlabel : ∀ g ∈ label, g < k) :
    ∃ t', t.count (label.map (used.length + ·)) = .ok t' ∧
      Tallied used rest k (done ++ [label]) t' := by
  cases label with
  | none =>
      refine ⟨t, rfl, ?_, ?_, h.bounds.concat_none⟩
      · simp [h.slots, counters, positionsIn_concat]
      · simp [h.groups, List.reduceOption_append]
  | some g =>
      have hg := hlabel g rfl
      have hread : read t.slots (used.length + g) = .ok (positionsIn done g).length := by
        rw [h.slots]
        exact read_map_range hg
      have hwrite : write t.slots (used.length + g) ((positionsIn done g).length + 1) =
          .ok (counters used k rest (done ++ [some g])) := by
        have hcount : (positionsIn done g).length + 1 =
            (positionsIn (done ++ [some g]) g).length := by
          simp [positionsIn_concat]
        rw [h.slots, hcount]
        refine write_map_range (fun j => (positionsIn (done ++ [some g]) j).length) hg
          fun i hi => ?_
        simp [positionsIn_concat, Ne.symm hi]
      refine ⟨⟨counters used k rest (done ++ [some g]),
        if (positionsIn done g).length = 0 then t.groups + 1 else t.groups,
        some (widen t.bounds (used.length + g))⟩, ?_, rfl, ?_, h.bounds.concat_some g⟩
      · rw [Option.map_some, Tally.count, hread, ok_bind, hwrite, ok_bind]
        rfl
      · -- A counter is zero exactly when its group has not come up.
        have hzero : (positionsIn done g).length = 0 ↔ g ∉ done.reduceOption.toFinset := by
          rw [List.mem_toFinset, List.reduceOption_mem_iff, ← positionsIn_ne_nil_iff, not_not,
            List.length_eq_zero_iff]
        have hinsert : (done ++ [some g]).reduceOption.toFinset =
            insert g done.reduceOption.toFinset := by
          rw [List.reduceOption_append, List.toFinset_append, Finset.union_comm]
          rfl
        rw [hinsert, h.groups]
        by_cases hnew : g ∉ done.reduceOption.toFinset
        · rw [if_pos (hzero.2 hnew), Finset.card_insert_of_notMem hnew]
        · rw [if_neg (hzero.not.2 hnew), Finset.insert_eq_of_mem (not_not.1 hnew)]

theorem exists_tallied (h : Tallied used rest k done t)
    (hlabels : ∀ g : Nat, some g ∈ labels → g < k) :
    ∃ t', (shift used.length labels).foldlM Tally.count t = .ok t' ∧
      Tallied used rest k (done ++ labels) t' := by
  induction labels generalizing done t with
  | nil => exact ⟨t, rfl, by rwa [List.append_nil]⟩
  | cons label labels ih =>
      obtain ⟨t', hstep, ht'⟩ := h.count label fun g hg => by
        rw [Option.mem_def] at hg
        exact hlabels g (hg ▸ List.mem_cons_self)
      obtain ⟨t'', hrest, ht''⟩ := ih ht' fun g hg => hlabels g (List.mem_cons_of_mem label hg)
      refine ⟨t'', ?_, by rwa [List.append_cons]⟩
      rw [shift, List.map_cons, List.foldlM_cons, hstep, ok_bind]
      exact hrest

/-- The tally of a segment: how large its groups are, how many there are, and where their
counters are. -/
theorem foldlM_count (used rest : List Nat) (h : Compact labels) :
    (shift used.length labels).foldlM Tally.count
        ⟨used ++ (List.replicate (groupsOf labels).length 0 ++ rest), 0, none⟩ =
      .ok ⟨used ++ ((groupsOf labels).map List.length ++ rest), (groupsOf labels).length,
        if (groupsOf labels).length = 0 then none
        else some (used.length, used.length + (groupsOf labels).length)⟩ := by
  obtain ⟨t, hrun, ht⟩ := exists_tallied (tallied_nil used rest (groupsOf labels).length)
    fun g hg => h.mem_iff.1 hg
  rw [List.nil_append] at ht
  have hcounts : (List.range (groupsOf labels).length).map
      (fun j => (positionsIn labels j).length) = (groupsOf labels).map List.length := by
    nth_rewrite 2 [h.groupsOf_eq]
    rw [List.map_map]
    rfl
  have hcard : labels.reduceOption.toFinset.card = (groupsOf labels).length := by
    have hrange : labels.reduceOption.toFinset = Finset.range (groupsOf labels).length := by
      ext g
      rw [List.mem_toFinset, List.reduceOption_mem_iff, Finset.mem_range]
      exact h.mem_iff
    rw [hrange, Finset.card_range]
  have hslots : t.slots = used ++ ((groupsOf labels).map List.length ++ rest) := by
    rw [ht.slots, counters, hcounts]
  rw [hrun, ← ht.bounds.eq_of_compact h, ← hslots, ← ht.groups.trans hcard]

end Count

/-! ### Placing -/

section Place

theorem starts_eq (place : Nat) (counts : List Nat) : starts place counts =
    (List.range counts.length).map fun j => place + Edge.total (counts.take j) := by
  induction counts generalizing place with
  | nil => rfl
  | cons count counts ih =>
      rw [starts, ih, List.length_cons, List.range_succ_eq_map, List.map_cons, List.map_map]
      simp [Function.comp_def, Nat.add_assoc]

/-- Without empty groups, the places where groups end are split points. -/
theorem ends_eq {counts : List Nat} (place : Nat) (h : ∀ count ∈ counts, count ≠ 0) :
    place :: ends place counts = Edge.pointsFrom place counts := by
  induction counts generalizing place with
  | nil => rfl
  | cons count counts ih =>
      rw [ends, if_neg (h count List.mem_cons_self), Edge.pointsFrom,
        ih _ fun c hc => h c (List.mem_cons_of_mem count hc)]

/-- An entry of one of several parts that follow one another. -/
theorem set_flatten {blocks : List (List Nat)} {block : List Nat} {j r : Nat} (a : Nat)
    (hj : blocks[j]? = some block) (hr : r < block.length) :
    blocks.flatten.set (Edge.total ((blocks.map List.length).take j) + r) a =
      (blocks.set j (block.set r a)).flatten := by
  induction blocks generalizing j with
  | nil => cases hj
  | cons first blocks ih =>
      cases j with
      | zero =>
          obtain rfl := Option.some.inj hj
          rw [List.take_zero, Edge.total_nil, Nat.zero_add, List.flatten_cons,
            List.set_append_left _ _ hr, List.set_cons_zero, List.flatten_cons]
      | succ j =>
          rw [List.map_cons, List.take_succ_cons, Edge.total_cons, Nat.add_assoc,
            List.flatten_cons, List.set_append_right _ _ (Nat.le_add_right _ _),
            Nat.add_sub_cancel_left, ih hj, List.set_cons_succ, List.flatten_cons]

variable {used rest out after : List Nat} {done todo labels : List (Option Nat)} {g j : Nat}

theorem write_flatten (out after : List Nat) {blocks : List (List Nat)} {block : List Nat}
    {j r : Nat} (a : Nat)
    (hj : blocks[j]? = some block) (hr : r < block.length) :
    write (out ++ (blocks.flatten ++ after))
        (out.length + Edge.total ((blocks.map List.length).take j) + r) a =
      .ok (out ++ ((blocks.set j (block.set r a)).flatten ++ after)) := by
  have hlength : (blocks.map List.length)[j]? = some block.length := by
    rw [List.getElem?_map, hj]
    rfl
  have hle := Edge.total_take_add_le hlength
  rw [Edge.total_map_length] at hle
  have hlt : Edge.total ((blocks.map List.length).take j) + r < blocks.flatten.length := by omega
  rw [write_of_lt, Nat.add_assoc, List.set_append_right _ _ (Nat.le_add_right _ _),
    Nat.add_sub_cancel_left, List.set_append_left _ _ hlt, set_flatten a hj hr]
  simp only [List.length_append]
  omega

theorem exists_positionsIn_append (done todo : List (Option Nat)) (g : Nat) :
    ∃ more, positionsIn (done ++ todo) g = positionsIn done g ++ more := by
  rw [positionsIn, List.zipIdx_append, List.filter_append, List.map_append]
  exact ⟨_, rfl⟩

/-- The part of the output for a group of labels, filled up to some position. -/
def block (labels done : List (Option Nat)) (g : Nat) : List Nat :=
  positionsIn done g ++
    List.replicate ((positionsIn labels g).length - (positionsIn done g).length) 0

theorem block_self (labels : List (Option Nat)) (g : Nat) :
    block labels labels g = positionsIn labels g := by
  rw [block, Nat.sub_self, List.replicate_zero, List.append_nil]

theorem length_block (g : Nat) :
    (block (done ++ todo) done g).length = (positionsIn (done ++ todo) g).length := by
  obtain ⟨more, hmore⟩ := exists_positionsIn_append done todo g
  rw [block, hmore, List.length_append, List.length_replicate, List.length_append]
  omega

/-- The next position of a group goes behind those that are in its part. -/
theorem set_block (g : Nat) (done todo : List (Option Nat)) :
    (positionsIn done g).length < (block (done ++ some g :: todo) done g).length ∧
      (block (done ++ some g :: todo) done g).set (positionsIn done g).length done.length =
        block (done ++ some g :: todo) (done ++ [some g]) g := by
  obtain ⟨more, hmore⟩ := exists_positionsIn_append (done ++ [some g]) todo g
  rw [List.append_assoc, List.singleton_append, positionsIn_concat, if_pos rfl] at hmore
  constructor
  · rw [length_block, hmore]
    simp
  · rw [block, block, hmore, positionsIn_concat, if_pos rfl,
      List.set_append_right _ _ (Nat.le_refl _), Nat.sub_self]
    have hlength : (positionsIn done g ++ [done.length] ++ more).length -
        (positionsIn done g).length = more.length + 1 := by
      simp only [List.length_append, List.length_singleton]
      omega
    have hrest : (positionsIn done g ++ [done.length] ++ more).length -
        (positionsIn done g ++ [done.length]).length = more.length := by
      rw [List.length_append, Nat.add_sub_cancel_left]
    rw [hlength, hrest, List.replicate_succ, List.set_cons_zero, List.append_assoc]
    rfl

/-- The place of the next position of a group, in an output that starts somewhere. -/
def nextPlace (start : Nat) (labels done : List (Option Nat)) (g : Nat) : Nat :=
  start + Edge.total (((groupsOf labels).map List.length).take g) + (positionsIn done g).length

/-- The next places of the groups of labels, and the output, after some positions. -/
def placed (used rest out after : List Nat) (labels done : List (Option Nat)) :
    List Nat × List Nat :=
  (used ++ ((List.range (groupsOf labels).length).map (nextPlace out.length labels done) ++ rest),
    out ++ (((List.range (groupsOf labels).length).map (block labels done)).flatten ++ after))

theorem lengths_blocks (done todo : List (Option Nat)) (h : Compact (done ++ todo)) :
    ((List.range (groupsOf (done ++ todo)).length).map
      (block (done ++ todo) done)).map List.length =
        (groupsOf (done ++ todo)).map List.length := by
  nth_rewrite 2 [h.groupsOf_eq]
  rw [List.map_map, List.map_map]
  exact List.map_congr_left fun g _ => length_block g

/-- One more position is put in range. -/
theorem put_some (h : Compact (done ++ some g :: todo)) :
    put (placed used rest out after (done ++ some g :: todo) done)
        (some (used.length + g), done.length) =
      .ok (placed used rest out after (done ++ some g :: todo) (done ++ [some g])) := by
  have hg : g < (groupsOf (done ++ some g :: todo)).length := h.mem_iff.1 (by simp)
  have hlengths := lengths_blocks done (some g :: todo) h
  obtain ⟨hr, hset⟩ := set_block g done todo
  generalize done ++ some g :: todo = labels at *
  have hother : ∀ i, i ≠ g → positionsIn (done ++ [some g]) i = positionsIn done i := by
    intro i hi
    rw [positionsIn_concat, if_neg (by simpa using Ne.symm hi), List.append_nil]
  have hblock : ((List.range (groupsOf labels).length).map (block labels done))[g]? =
      some (block labels done g) := by
    simp [hg]
  have hread : read (placed used rest out after labels done).1 (used.length + g) =
      .ok (nextPlace out.length labels done g) :=
    read_map_range hg
  have hindices : write (placed used rest out after labels done).2
      (nextPlace out.length labels done g) done.length =
        .ok (placed used rest out after labels (done ++ [some g])).2 := by
    have hwrite := write_flatten out after done.length hblock hr
    rw [hlengths, hset, set_map_range (block labels (done ++ [some g]))
      fun i hi => by rw [block, block, hother i hi]] at hwrite
    exact hwrite
  have hslots : write (placed used rest out after labels done).1 (used.length + g)
      (nextPlace out.length labels done g + 1) =
        .ok (placed used rest out after labels (done ++ [some g])).1 := by
    have hnext : nextPlace out.length labels done g + 1 =
        nextPlace out.length labels (done ++ [some g]) g := by
      simp [nextPlace, positionsIn_concat, Nat.add_assoc]
    rw [hnext]
    exact write_map_range _ hg fun i hi => by rw [nextPlace, nextPlace, hother i hi]
  rw [put]
  simp only [hread, ok_bind, hindices, hslots]
  rfl

theorem put_none :
    put (placed used rest out after (done ++ none :: todo) done) (none, done.length) =
      .ok (placed used rest out after (done ++ none :: todo) (done ++ [none])) := by
  have hsame : ∀ g, positionsIn (done ++ [none]) g = positionsIn done g := by
    intro g
    rw [positionsIn_concat, if_neg (Option.some_ne_none g).symm, List.append_nil]
  have hplace : nextPlace out.length (done ++ none :: todo) (done ++ [none]) =
      nextPlace out.length (done ++ none :: todo) done := by
    funext g
    rw [nextPlace, nextPlace, hsame]
  have hblock : block (done ++ none :: todo) (done ++ [none]) =
      block (done ++ none :: todo) done := by
    funext g
    rw [block, block, hsame]
  rw [put, placed, placed, hplace, hblock]

/-- Going through a segment puts every position behind those of its group. -/
theorem foldlM_put (used rest out after : List Nat) (done todo : List (Option Nat))
    (h : Compact (done ++ todo)) :
    ((shift used.length todo).zipIdx done.length).foldlM put
        (placed used rest out after (done ++ todo) done) =
      .ok (placed used rest out after (done ++ todo) (done ++ todo)) := by
  induction todo generalizing done with
  | nil =>
      rw [List.append_nil]
      rfl
  | cons label todo ih =>
      have hrest := ih (done ++ [label]) (by rwa [List.append_assoc])
      simp only [List.append_assoc, List.singleton_append, List.length_append,
        List.length_singleton] at hrest
      rw [shift, List.map_cons, List.zipIdx_cons, List.foldlM_cons]
      cases label with
      | none => rw [Option.map_none, put_none, ok_bind]; exact hrest
      | some g => rw [Option.map_some, put_some h, ok_bind]; exact hrest

/-- At first the places are those where the groups start, and the output is empty. -/
theorem placed_nil (h : Compact labels) (used rest out after : List Nat) :
    placed used rest out after labels [] =
      (used ++ (starts out.length ((groupsOf labels).map List.length) ++ rest),
        out ++ (List.replicate (groupsOf labels).flatten.length 0 ++ after)) := by
  have hplaces : (List.range (groupsOf labels).length).map (nextPlace out.length labels []) =
      starts out.length ((groupsOf labels).map List.length) := by
    rw [starts_eq, List.length_map]
    rfl
  have hblocks : ((List.range (groupsOf labels).length).map (block labels [])).flatten =
      List.replicate (groupsOf labels).flatten.length 0 := by
    have hlengths := lengths_blocks [] labels h
    rw [List.nil_append] at hlengths
    rw [List.eq_replicate_iff, ← Edge.total_map_length, hlengths, Edge.total_map_length]
    refine ⟨rfl, fun n hn => ?_⟩
    obtain ⟨part, hpart, hn⟩ := List.mem_flatten.1 hn
    obtain ⟨g, -, rfl⟩ := List.mem_map.1 hpart
    exact List.eq_of_mem_replicate hn
  rw [placed, hplaces, hblocks]

/-- In the end the output is the groups one after another. -/
theorem placed_self (h : Compact labels) (used rest out after : List Nat) :
    placed used rest out after labels labels =
      (used ++ ((List.range (groupsOf labels).length).map
          (nextPlace out.length labels labels) ++ rest),
        out ++ ((groupsOf labels).flatten ++ after)) := by
  have hblocks : block labels labels = positionsIn labels := funext (block_self labels)
  rw [placed, hblocks, ← h.groupsOf_eq]

end Place

end ObjectGraph.Grouping
