import ObjectGraph.Grouping.GroupBy
import ObjectGraph.Proofs.Grouping.Label
import Mathlib.Data.List.Nodup
import Mathlib.Data.List.Perm.Basic

/-!
# Groups of a segment

The groups that the labels of a segment stand for are its classes: every position with a
label is in one group, together with the positions that it belongs to. Positions ascend in
a group, and the groups are in the order of their first positions.
-/

namespace ObjectGraph.Grouping

/-- Groups of the positions below `n` that are present, by the positions that belong
together. -/
structure Grouped (n : Nat) (present : Nat → Prop) (same : Nat → Nat → Prop)
    (groups : List (List Nat)) : Prop where
  mem_iff : ∀ p, (∃ group ∈ groups, p ∈ group) ↔ p < n ∧ present p
  class_iff : ∀ group ∈ groups, ∀ p ∈ group, ∀ q, q ∈ group ↔ q < n ∧ present q ∧ same p q
  nonempty : ∀ group ∈ groups, group ≠ []
  ascending : ∀ group ∈ groups, group.Pairwise (· < ·)
  ordered : groups.Pairwise fun a b => ∀ p ∈ a.head?, ∀ q ∈ b.head?, p < q

variable {labels : List (Option Nat)} {n g p q : Nat} {present : Nat → Prop}
  {same : Nat → Nat → Prop} {groups : List (List Nat)} {group : List Nat}

/-! ### Positions with a label -/

theorem mem_positionsIn : p ∈ positionsIn labels g ↔ labels[p]? = some (some g) := by
  simp only [positionsIn, List.mem_map, List.mem_filter, decide_eq_true_eq, Prod.exists,
    List.mem_zipIdx_iff_getElem?]
  constructor
  · rintro ⟨l, _, ⟨hl, rfl⟩, rfl⟩
    exact hl
  · intro h
    exact ⟨some g, p, ⟨h, rfl⟩, rfl⟩

theorem pairwise_positionsIn (labels : List (Option Nat)) (g : Nat) :
    (positionsIn labels g).Pairwise (· < ·) := by
  have hsub : (positionsIn labels g).Sublist (labels.zipIdx.map Prod.snd) :=
    List.filter_sublist.map Prod.snd
  rw [List.zipIdx_map_snd] at hsub
  exact List.Pairwise.sublist hsub List.pairwise_lt_range'

theorem le_of_mem_head? (h : group.Pairwise (· < ·)) (hp : p ∈ group.head?) (hq : q ∈ group) :
    p ≤ q := by
  cases group with
  | nil => cases hq
  | cons a group =>
      obtain rfl : a = p := by simpa using hp
      rcases List.mem_cons.1 hq with rfl | hq
      · exact Nat.le_refl q
      · exact Nat.le_of_lt ((List.pairwise_cons.1 h).1 q hq)

theorem exists_mem_head? (h : group ≠ []) : ∃ p, p ∈ group.head? :=
  ⟨group.head h, List.head?_eq_some_head h⟩

/-- There are at most as many labels as positions up to the one labelled. -/
theorem Labelled.le (h : Labelled labels n present same) (hp : labels[p]? = some (some g)) :
    g ≤ p := by
  induction g generalizing p with
  | zero => exact Nat.zero_le p
  | succ g ih =>
      obtain ⟨q, hqp, hq⟩ := h.first p g (g + 1) hp (Nat.lt_succ_self g)
      exact Nat.lt_of_le_of_lt (ih hq) hqp

theorem Labelled.lt (h : Labelled labels n present same) (hp : labels[p]? = some (some g)) :
    p < n :=
  h.length ▸ (List.getElem?_eq_some_iff.1 hp).1

theorem mem_groupsOf : group ∈ groupsOf labels ↔
    ∃ g < labels.length, positionsIn labels g = group ∧ group ≠ [] := by
  simp only [groupsOf, List.mem_filter, List.mem_map, List.mem_range, Bool.not_eq_true',
    List.isEmpty_eq_false_iff]
  constructor
  · rintro ⟨⟨g, hg, rfl⟩, hne⟩
    exact ⟨g, hg, rfl, hne⟩
  · rintro ⟨g, hg, rfl, hne⟩
    exact ⟨⟨g, hg, rfl⟩, hne⟩

/-- The groups of a segment are the classes of its labels. -/
theorem Labelled.grouped (h : Labelled labels n present same) :
    Grouped n present same (groupsOf labels) := by
  constructor
  case mem_iff =>
    intro p
    constructor
    · rintro ⟨group, hgroup, hp⟩
      obtain ⟨g, -, rfl, -⟩ := mem_groupsOf.1 hgroup
      have hlabel := mem_positionsIn.1 hp
      exact ⟨h.lt hlabel, (h.present_iff p (h.lt hlabel)).1 ⟨g, hlabel⟩⟩
    · rintro ⟨hpn, hpresent⟩
      obtain ⟨g, hlabel⟩ := (h.present_iff p hpn).2 hpresent
      have hp := mem_positionsIn.2 hlabel
      have hg : g < labels.length := Nat.lt_of_le_of_lt (h.le hlabel) (h.length ▸ hpn)
      exact ⟨_, mem_groupsOf.2 ⟨g, hg, rfl, List.ne_nil_of_mem hp⟩, hp⟩
  case class_iff =>
    intro group hgroup p hp q
    obtain ⟨g, -, rfl, -⟩ := mem_groupsOf.1 hgroup
    have hlabel := mem_positionsIn.1 hp
    rw [mem_positionsIn]
    constructor
    · intro hq
      exact ⟨h.lt hq, (h.present_iff q (h.lt hq)).1 ⟨g, hq⟩, (h.same_iff p q g g hlabel hq).1 rfl⟩
    · rintro ⟨hqn, hpresent, hsame⟩
      obtain ⟨k, hq⟩ := (h.present_iff q hqn).2 hpresent
      obtain rfl := (h.same_iff p q g k hlabel hq).2 hsame
      exact hq
  case nonempty =>
    intro group hgroup
    obtain ⟨-, -, -, hne⟩ := mem_groupsOf.1 hgroup
    exact hne
  case ascending =>
    intro group hgroup
    obtain ⟨g, -, rfl, -⟩ := mem_groupsOf.1 hgroup
    exact pairwise_positionsIn labels g
  case ordered =>
    refine List.Pairwise.filter _ (List.pairwise_map.2 (List.pairwise_lt_range.imp ?_))
    intro g k hlt p hp q hq
    have hlabel := mem_positionsIn.1 (List.mem_of_mem_head? hq)
    -- The smaller label comes up before, so the first position that has it does.
    obtain ⟨q', hq', hbefore⟩ := h.first q g k hlabel hlt
    have hle := le_of_mem_head? (pairwise_positionsIn labels g) hp (mem_positionsIn.2 hbefore)
    exact Nat.lt_of_le_of_lt hle hq'

/-! ### Counting -/

theorem Grouped.disjoint (h : Grouped n present same groups) : groups.Pairwise List.Disjoint := by
  refine List.Pairwise.imp_of_mem ?_ h.ordered
  intro a b ha hb hordered p hpa hpb
  have hsame : ∀ q, q ∈ a ↔ q ∈ b := fun q =>
    (h.class_iff a ha p hpa q).trans (h.class_iff b hb p hpb q).symm
  obtain ⟨x, hx⟩ := exists_mem_head? (h.nonempty a ha)
  obtain ⟨y, hy⟩ := exists_mem_head? (h.nonempty b hb)
  have hyx := le_of_mem_head? (h.ascending b hb) hy ((hsame x).1 (List.mem_of_mem_head? hx))
  exact absurd (hordered x hx y hy) (Nat.not_lt.2 hyx)

theorem Grouped.length_flatten [DecidablePred present] (h : Grouped n present same groups) :
    groups.flatten.length = (List.range n).countP fun p => present p := by
  have hnodup : groups.flatten.Nodup := by
    refine List.nodup_flatten.2 ⟨fun group hgroup => ?_, h.disjoint⟩
    exact (h.ascending group hgroup).imp Nat.ne_of_lt
  have hperm : groups.flatten.Perm ((List.range n).filter fun p => present p) := by
    refine (List.perm_ext_iff_of_nodup hnodup (List.nodup_range.filter _)).2 fun p => ?_
    rw [List.mem_flatten, h.mem_iff, List.mem_filter, List.mem_range, decide_eq_true_eq]
  rw [hperm.length_eq, List.countP_eq_length_filter]

end ObjectGraph.Grouping
