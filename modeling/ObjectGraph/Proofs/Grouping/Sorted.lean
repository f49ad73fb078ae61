import Mathlib.Tactic
import ObjectGraph.Proofs.Grouping.Run
import ObjectGraph.Proofs.Value.Order

/-!
# Sorted groups

When groups are sorted, each key puts the new groups of a segment in the order of the old
ones and then of its values. So the groups are in the lexicographic order of the tuples of
keys by the time the last key is through. Apart from their order, they are the groups that
grouping without sorting finds.
-/

namespace ObjectGraph

namespace Grouping

/-- The tuple of keys of one position is less than that of another: the first key in which
they differ decides. -/
def TupleLess : List Slice → Nat → Nat → Prop
  | [], _, _ => False
  | key :: keys, p, q =>
    (key.column.get p).compareKeys (key.column.get q) = some .lt ∨
      (key.column.get p).compareKeys (key.column.get q) = some .eq ∧ TupleLess keys p q

/-! ### The order of classes -/

section Classes

variable {α : Type} [Cell α] {cmp : α → α → Ordering} {a b c : Nat × α}

theorem classOrder_iff (hcmp : Sorts cmp) : classOrder a b = true ↔
    a.1 < b.1 ∨ a.1 = b.1 ∧ (cmp a.2 b.2).isLE = true := by
  rw [classOrder, hcmp.sortCmp_eq, Option.getD_some]
  rcases Nat.lt_trichotomy a.1 b.1 with hlt | heq | hgt
  · simp [Nat.compare_eq_lt.2 hlt, hlt]
  · simp [heq]
  · simp [Nat.compare_eq_gt.2 hgt, Nat.not_lt_of_gt hgt, Nat.ne_of_gt hgt]

theorem classOrder_trans (hcmp : Sorts cmp) (hab : classOrder a b = true)
    (hbc : classOrder b c = true) : classOrder a c = true := by
  rw [classOrder_iff hcmp] at hab hbc ⊢
  rcases hab with hab | ⟨hab, hle⟩ <;> rcases hbc with hbc | ⟨hbc, hle'⟩
  · exact Or.inl (Nat.lt_trans hab hbc)
  · exact Or.inl (hbc ▸ hab)
  · exact Or.inl (hab ▸ hbc)
  · exact Or.inr ⟨hab.trans hbc, hcmp.trans.isLE_trans hle hle'⟩

theorem classOrder_total (hcmp : Sorts cmp) (a b : Nat × α) :
    (classOrder a b || classOrder b a) = true := by
  rw [Bool.or_eq_true, classOrder_iff hcmp, classOrder_iff hcmp]
  rcases Nat.lt_trichotomy a.1 b.1 with hlt | heq | hgt
  · exact Or.inl (Or.inl hlt)
  · exact (hcmp.isLE_total a.2 b.2).imp (fun h => Or.inr ⟨heq, h⟩) fun h => Or.inr ⟨heq.symm, h⟩
  · exact Or.inr (Or.inl hgt)

variable [DecidableEq α]

/-- Sorted classes ascend by the old group and then by the value. -/
theorem pairwise_classOrder (hcmp : Sorts cmp) (ms : List (Nat × α)) :
    (classes true ms).Pairwise fun a b => classOrder a b = true := by
  apply List.pairwise_mergeSort
  · exact fun a b c => classOrder_trans hcmp
  · exact classOrder_total hcmp

end Classes

/-! ### Refining in order -/

variable {labels : List (Option Nat)} {before : Nat → Nat → Prop} {p q start size : Nat}
  {c : Column} {keys : List Slice}

theorem rel_of_getElem? {α : Type} {R : α → α → Prop} {l : List α} {a b : α} {g h : Nat}
    (hl : l.Pairwise R) (ha : l[g]? = some a) (hb : l[h]? = some b) (hlt : g < h) : R a b := by
  obtain ⟨hg, rfl⟩ := List.getElem?_eq_some_iff.1 ha
  obtain ⟨hh, rfl⟩ := List.getElem?_eq_some_iff.1 hb
  exact List.pairwise_iff_getElem.1 hl g h hg hh hlt

theorem isSignaling_of_mem_classes {α : Type} [DecidableEq α] [Cell α] {sorted : Bool}
    {cells : List (Option α)} {d : Nat × α}
    (hquiet : ∀ v, some v ∈ cells → (Cell.item v).isSignaling = false)
    (hd : d ∈ classes sorted (members labels cells).reduceOption) :
    (Cell.item d.2).isSignaling = false := by
  have hmem := List.reduceOption_mem_iff.1 (mem_of_mem_classes hd)
  obtain ⟨p, hp⟩ := List.mem_iff_getElem?.1 hmem
  exact hquiet d.2 (List.mem_of_getElem? (getElem?_members.1 hp).2)

/-- Sorting by a further key keeps the order there is and orders what was together. -/
theorem Ordered.refine {α : Type} [DecidableEq α] [Cell α] {cmp : α → α → Ordering}
    {cells : List (Option α)} (h : Ordered labels before) (hcmp : Sorts cmp)
    (hquiet : ∀ v, some v ∈ cells → (Cell.item v).isSignaling = false) :
    Ordered (refine true labels cells) fun p q => before p q ∨ Together labels p q ∧
      ∃ v w, cells[p]? = some (some v) ∧ cells[q]? = some (some w) ∧
        cmp (Cell.key v) (Cell.key w) = .lt := by
  intro p q g k hp hq hlt
  obtain ⟨⟨i, v⟩, hm, d, hd, hmd⟩ := getElem?_refine.1 hp
  obtain ⟨⟨j, w⟩, hn, e, he, hne⟩ := getElem?_refine.1 hq
  obtain ⟨hi, hv⟩ := getElem?_members.1 hm
  obtain ⟨hj, hw⟩ := getElem?_members.1 hn
  rw [sameClass_iff] at hmd hne
  obtain ⟨rfl, hvd⟩ := hmd
  obtain ⟨rfl, hwe⟩ := hne
  have horder := rel_of_getElem? (pairwise_classOrder hcmp _) hd he hlt
  rw [classOrder_iff hcmp] at horder
  rcases horder with hbefore | ⟨hsame, hle⟩
  · exact Or.inl (h p q _ _ hi hj hbefore)
  · -- The classes were one group, so their values are different keys.
    have hdistinct := rel_of_getElem? (pairwise_classes true _) hd he hlt
    rw [Bool.eq_false_iff, Ne, sameClass_iff, not_and] at hdistinct
    have hless := hcmp.eq_lt_of_key_ne
      (isSignaling_of_mem_classes hquiet (List.mem_of_getElem? hd))
      (isSignaling_of_mem_classes hquiet (List.mem_of_getElem? he)) hle (hdistinct hsame)
    refine Or.inr ⟨⟨_, hi, hsame ▸ hj⟩, v, w, hv, hw, ?_⟩
    rw [hvd, hwe]
    exact hless

theorem isSignaling_of_mem_cells {t : ElementType} {cells : List (Option t.Value)} {v : t.Value}
    (hquiet : ∀ p, ((Column.typed t cells).get p).isSignaling = false) (hv : some v ∈ cells) :
    (Cell.item v).isSignaling = false := by
  obtain ⟨p, hp⟩ := List.mem_iff_getElem?.1 hv
  rw [← Column.get_typed hp]
  exact hquiet p

theorem isSignaling_get (h : ∀ item ∈ c.items, item.isSignaling = false) (p : Nat) :
    (c.get p).isSignaling = false := by
  rw [Column.get]
  cases hitem : c.items[p]? with
  | none => rfl
  | some item => exact h item (List.mem_of_getElem? hitem)

theorem exists_sorts_of_checkKey {t : ElementType} {cells : List (Option t.Value)}
    (h : checkKey true (.typed t cells) = .ok ()) :
    ∃ cmp : t.Value → t.Value → Ordering, Sorts cmp := by
  by_cases hsortable : t.dtype.isSortable = true
  · exact ElementType.exists_sorts hsortable
  · rw [checkKey, if_pos rfl, checkSortable, if_neg hsortable] at h
    cases h

theorem Ordered.refineFrom (h : Ordered labels before) (start : Nat)
    (hlength : labels.length = size) (hcheck : checkKey true c = .ok ())
    (hquiet : ∀ p, (c.get p).isSignaling = false) :
    Ordered (refineFrom true start size labels c) fun p q => before p q ∨ Together labels p q ∧
      (c.get (start + p)).compareKeys (c.get (start + q)) = some .lt := by
  cases c with
  | empty n => exact fun p q g k hp => absurd hp (getElem?_map_none_ne labels p g)
  | mixed items => cases hcheck
  | typed t cells =>
      obtain ⟨cmp, hcmp⟩ := exists_sorts_of_checkKey hcheck
      have hcells : ∀ v, some v ∈ (cells.drop start).take size →
          (Cell.item v).isSignaling = false :=
        fun v hv => isSignaling_of_mem_cells hquiet
          (List.mem_of_mem_drop (List.mem_of_mem_take hv))
      refine (h.refine hcmp hcells).imp fun p q => Or.imp_right ?_
      rintro ⟨htogether, v, w, hv, hw, hless⟩
      obtain ⟨hp, hq⟩ := htogether.lt
      rw [Edge.getElem?_take_drop (hlength ▸ hp)] at hv
      rw [Edge.getElem?_take_drop (hlength ▸ hq)] at hw
      refine ⟨htogether, ?_⟩
      rw [Column.get_typed hv, Column.get_typed hw, hcmp.compareKeys_item, hless]
      · exact isSignaling_of_mem_cells hquiet (List.mem_of_getElem? hv)
      · exact isSignaling_of_mem_cells hquiet (List.mem_of_getElem? hw)

theorem SharesKey.compareKeys_eq (h : SharesKey c p q) (hcheck : checkKey true c = .ok ())
    (hquiet : ∀ p, (c.get p).isSignaling = false) :
    (c.get p).compareKeys (c.get q) = some .eq := by
  obtain ⟨hp, hq, hkey⟩ := h
  rw [Item.key_of_not_isSignaling (hquiet p), Item.key_of_not_isSignaling (hquiet q)] at hkey
  cases c with
  | empty n =>
      rw [Column.get_empty] at hp
      cases hp
  | mixed items => cases hcheck
  | typed t cells =>
      obtain ⟨cmp, hcmp⟩ := exists_sorts_of_checkKey hcheck
      obtain ⟨v, hv⟩ := ((shows_typed t cells).present_iff p).2 hp
      have hsignaling := isSignaling_of_mem_cells hquiet (List.mem_of_getElem? hv)
      have hself := hcmp.compareKeys_item hsignaling hsignaling
      rw [hcmp.lawful.compare_self, ← Column.get_typed hv] at hself
      rw [Item.compareKeys, ← hkey]
      exact hself

/-- The groups of a segment are in the lexicographic order of their tuples of keys. -/
theorem Ordered.refineFromKeys (h : Ordered labels before) (hlength : labels.length = size)
    (hsize : ∀ key ∈ keys, start + size ≤ key.column.size)
    (hcheck : ∀ key ∈ keys, checkKey true key.column = .ok ())
    (hquiet : ∀ key ∈ keys, ∀ p, (key.column.get p).isSignaling = false) :
    Ordered (refineFromKeys true start size labels keys) fun p q =>
      before p q ∨ Together labels p q ∧ TupleLess keys (start + p) (start + q) := by
  -- What is before at a key, or equal in it and before at the later ones, is before.
  induction keys generalizing labels before with
  | nil => exact h.imp fun p q => Or.inl
  | cons key keys ih =>
      obtain ⟨hsizeKey, hsizeKeys⟩ := List.forall_mem_cons.1 hsize
      obtain ⟨hcheckKey, hcheckKeys⟩ := List.forall_mem_cons.1 hcheck
      obtain ⟨hquietKey, hquietKeys⟩ := List.forall_mem_cons.1 hquiet
      have hfirst := h.refineFrom start hlength hcheckKey hquietKey
      refine (ih hfirst (length_refineFrom true hlength hsizeKey) hsizeKeys hcheckKeys
        hquietKeys).imp fun p q => ?_
      rintro ((hbefore | ⟨htogether, hless⟩) | ⟨htogether, hless⟩)
      · exact Or.inl hbefore
      · exact Or.inr ⟨htogether, Or.inl hless⟩
      · obtain ⟨hlabels, hshares⟩ := (together_refineFrom hlength).1 htogether
        exact Or.inr ⟨hlabels, Or.inr ⟨hshares.compareKeys_eq hcheckKey hquietKey, hless⟩⟩

theorem ordered_replicate (size : Nat) :
    Ordered (List.replicate size (some 0)) fun _ _ => False := by
  intro p q g k hp hq hlt
  rw [← (getElem?_replicate_zero.1 hp).2, ← (getElem?_replicate_zero.1 hq).2] at hlt
  exact Nat.lt_irrefl 0 hlt

/-! ### Sorted groups of a slice -/

/-- The same groups segment by segment, in the lexicographic order of their tuples of keys. -/
structure SortedBy (keys : List Slice) (edge : Edge) (groups sorted : List (List (List Nat))) :
    Prop where
  perm : List.Forall₂ List.Perm sorted groups
  ordered : ∀ i segment, sorted[i]? = some segment → ∃ b e, edge.range? i = some (b, e) ∧
    segment.Pairwise fun group group' =>
      ∀ p ∈ group, ∀ q ∈ group', TupleLess keys (b + p) (b + q)

variable {edge : Edge} {refined : List (List (Option Nat))}

theorem RefinedBy.ordered_groups (h : RefinedBy true edge (wholeSegments edge) keys refined)
    (hfits : edge.Fits) (hsize : ∀ key ∈ keys, key.column.size = Edge.total edge.sizes)
    (hquiet : ∀ key ∈ keys, ∀ p, (key.column.get p).isSignaling = false) {i : Nat}
    {segment : List (List Nat)} (hsegment : (refined.map groupsOf)[i]? = some segment) :
    ∃ b e, edge.range? i = some (b, e) ∧ segment.Pairwise fun group group' =>
      ∀ p ∈ group, ∀ q ∈ group', TupleLess keys (b + p) (b + q) := by
  obtain ⟨size, hi, rfl⟩ := h.exists_eq_groupsOf hsegment
  have hordered := (ordered_replicate size).refineFromKeys List.length_replicate
    (le_size_column hsize hi) h.checked hquiet
  refine ⟨_, _, Edge.range?_of_fits hfits hi, (hordered.imp fun p q hpq => ?_).groupsOf⟩
  exact (hpq.resolve_left id).2

end Grouping

open Grouping

variable {keys : List Slice} {outer : List Edge} {edge : Edge} {r : Slice}

/-- With sorting, `groupBy` finds the groups that it finds without, and puts those of each
segment in the lexicographic order of their tuples of keys. -/
theorem groupBy_sorted (hkeys : keys ≠ []) (hvalid : ∀ key ∈ keys, key.Valid)
    (hshape : ∀ key ∈ keys, key.shape = ⟨outer ++ [edge]⟩)
    (hquiet : ∀ key ∈ keys, ∀ item ∈ key.column.items, item.isSignaling = false)
    (h : groupBy true keys = .ok r) :
    ∃ groups sorted, groupBy false keys = .ok (ofGroups outer groups) ∧
      GroupedBy keys edge groups ∧ r = ofGroups outer sorted ∧
      sorted.map List.length = groups.map List.length ∧ SortedBy keys edge groups sorted := by
  obtain ⟨refined, hrefined⟩ := exists_refineKeys_of_groupBy hkeys hshape h
  obtain ⟨groups, hsorted, -, hunsorted, hgrouped, hperm⟩ :=
    groupBy_of_refineKeys_eq_ok hkeys hvalid hshape hrefined
  have hby := refinedBy_of_refineKeys hshape length_wholeSegments hrefined
  have hcounts := map_length_eq_of_forall₂ hperm fun _ _ => List.Perm.length_eq
  have hsortedBy : SortedBy keys edge groups (refined.map groupsOf) :=
    ⟨hperm, fun _ _ => hby.ordered_groups (Slice.fits_of_keys hkeys hvalid hshape)
      (Slice.size_column_of_keys hvalid hshape)
      fun key hkey => isSignaling_get (hquiet key hkey)⟩
  have hr : r = ofGroups outer (refined.map groupsOf) := Except.ok.inj (h.symm.trans hsorted)
  exact ⟨groups, _, hunsorted, hgrouped, hr, hcounts, hsortedBy⟩

namespace SignedZeros

/-- Negative zero, positive zero, -1, a gap, and 1. -/
def reals : Slice :=
  ⟨.column (.typed .float64 [some ⟨0x8000000000000000⟩, some ⟨0⟩, some ⟨0xbff0000000000000⟩, none,
    some ⟨0x3ff0000000000000⟩]), TwoKeys.shape, .dtype .float64, none⟩

def letters : Slice :=
  ⟨.column (.typed .text [some "b", some "a", some "c", some "a", some "a"]), TwoKeys.shape,
    .dtype .text, none⟩

def grouped : Slice :=
  ofGroups [⟨[2]⟩] [[[2], [1], [0]], [[0]]]

theorem groupBy_eq_grouped : groupBy true [reals, letters] = .ok grouped := by
  cbv

/-- The letters decide between the zeros. -/
theorem groupBy_reals_letters : ∃ groups sorted,
    groupBy false [reals, letters] = .ok (ofGroups [⟨[2]⟩] groups) ∧
      GroupedBy [reals, letters] ⟨[4, 1]⟩ groups ∧ grouped = ofGroups [⟨[2]⟩] sorted ∧
      sorted.map List.length = groups.map List.length ∧
      SortedBy [reals, letters] ⟨[4, 1]⟩ groups sorted := by
  have hvalid : ∀ key ∈ [reals, letters], key.Valid := by
    intro key hkey
    simp only [List.mem_cons, List.not_mem_nil, or_false] at hkey
    rcases hkey with rfl | rfl
    · exact ⟨TwoKeys.valid_shape, by decide, rfl⟩
    · exact ⟨TwoKeys.valid_shape, by decide, rfl⟩
  exact groupBy_sorted (List.cons_ne_nil _ _) hvalid (by decide) (by decide) groupBy_eq_grouped

end SignedZeros

end ObjectGraph
