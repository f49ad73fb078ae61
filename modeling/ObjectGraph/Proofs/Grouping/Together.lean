import ObjectGraph.Proofs.Grouping.Partition

/-!
# Positions with one label

Sorting gives other numbers to the groups of a segment than the order of first positions
does, but the same positions have one label. Labels with the same positions together stand
for the same groups, in the order of the labels.
-/

namespace ObjectGraph.Grouping

/-- Two positions have one label. -/
def Together (labels : List (Option Nat)) (p q : Nat) : Prop :=
  ∃ g : Nat, labels[p]? = some (some g) ∧ labels[q]? = some (some g)

/-- There are not more labels than positions. -/
def Bounded (labels : List (Option Nat)) : Prop :=
  ∀ p g : Nat, labels[p]? = some (some g) → g < labels.length

/-- Positions with a smaller label come before those with a larger one. -/
def Ordered (labels : List (Option Nat)) (before : Nat → Nat → Prop) : Prop :=
  ∀ p q g h : Nat, labels[p]? = some (some g) → labels[q]? = some (some h) → g < h → before p q

variable {labels labels' : List (Option Nat)} {p q g h n : Nat} {group : List Nat}
  {before before' : Nat → Nat → Prop}

theorem together_iff_of_getElem? (hp : labels[p]? = some (some g)) :
    Together labels p q ↔ labels[q]? = some (some g) := by
  constructor
  · rintro ⟨k, hk, hq⟩
    obtain rfl := Option.some.inj (Option.some.inj (hp.symm.trans hk))
    exact hq
  · exact fun hq => ⟨g, hp, hq⟩

theorem Ordered.imp (h : Ordered labels before) (himp : ∀ p q, before p q → before' p q) :
    Ordered labels before' :=
  fun p q g k hp hq hlt => himp p q (h p q g k hp hq hlt)

/-! ### Groups of labels -/

theorem Ordered.groupsOf (hordered : Ordered labels before) :
    (groupsOf labels).Pairwise fun a b => ∀ p ∈ a, ∀ q ∈ b, before p q := by
  refine List.Pairwise.filter _ (List.pairwise_map.2 (List.pairwise_lt_range.imp ?_))
  intro g h hlt p hp q hq
  exact hordered p q g h (mem_positionsIn.1 hp) (mem_positionsIn.1 hq) hlt

theorem ordered_ne (labels : List (Option Nat)) : Ordered labels (· ≠ ·) := by
  rintro p q g h hp hq hlt rfl
  obtain rfl := Option.some.inj (Option.some.inj (hp.symm.trans hq))
  exact absurd hlt (Nat.lt_irrefl g)

theorem nodup_groupsOf (labels : List (Option Nat)) : (groupsOf labels).Nodup := by
  refine (ordered_ne labels).groupsOf.imp_of_mem ?_
  rintro a b ha - hdisjoint rfl
  obtain ⟨-, -, -, hne⟩ := mem_groupsOf.1 ha
  obtain ⟨p, hp⟩ := List.exists_mem_of_ne_nil a hne
  exact hdisjoint p hp p hp rfl

theorem eq_of_mem_iff {a b : List Nat} (ha : a.Pairwise (· < ·)) (hb : b.Pairwise (· < ·))
    (hmem : ∀ p, p ∈ a ↔ p ∈ b) : a = b := by
  have hperm : a.Perm b :=
    (List.perm_ext_iff_of_nodup (ha.imp Nat.ne_of_lt) (hb.imp Nat.ne_of_lt)).2 hmem
  exact hperm.eq_of_pairwise (fun p q _ _ hpq hqp => absurd hpq (Nat.lt_asymm hqp)) ha hb

/-- The groups that labels stand for are the classes of the positions with one label. -/
theorem mem_groupsOf_iff_together (hbounded : Bounded labels) : group ∈ groupsOf labels ↔
    group.Pairwise (· < ·) ∧ ∃ p ∈ group, ∀ q, q ∈ group ↔ Together labels p q := by
  rw [mem_groupsOf]
  constructor
  · rintro ⟨g, -, rfl, hne⟩
    obtain ⟨p, hp⟩ := List.exists_mem_of_ne_nil _ hne
    refine ⟨pairwise_positionsIn labels g, p, hp, fun q => ?_⟩
    rw [mem_positionsIn, together_iff_of_getElem? (mem_positionsIn.1 hp)]
  · rintro ⟨hascending, p, hp, hmem⟩
    obtain ⟨g, hg, -⟩ := (hmem p).1 hp
    refine ⟨g, hbounded p g hg, ?_, List.ne_nil_of_mem hp⟩
    refine eq_of_mem_iff (pairwise_positionsIn labels g) hascending fun q => ?_
    rw [mem_positionsIn, hmem, together_iff_of_getElem? hg]

theorem perm_groupsOf (hbounded : Bounded labels) (hbounded' : Bounded labels')
    (htogether : ∀ p q, Together labels p q ↔ Together labels' p q) :
    (groupsOf labels).Perm (groupsOf labels') := by
  refine (List.perm_ext_iff_of_nodup (nodup_groupsOf labels) (nodup_groupsOf labels')).2 ?_
  intro group
  simp only [mem_groupsOf_iff_together hbounded, mem_groupsOf_iff_together hbounded', htogether]

/-! ### Refining -/

section Refine

variable {α : Type} [DecidableEq α] [Cell α] {sorted : Bool} {cells : List (Option α)}
  {m d : Nat × α}

theorem sameClass_iff {a b : Nat × α} :
    sameClass a b = true ↔ a.1 = b.1 ∧ Cell.key a.2 = Cell.key b.2 := by
  simp [sameClass, sameKey]

/-- Sorting changes the order of the classes only. -/
theorem perm_classes (sorted : Bool) (ms : List (Nat × α)) :
    (classes sorted ms).Perm (distinctBy sameClass ms) := by
  cases sorted with
  | false => exact .refl _
  | true => exact List.mergeSort_perm _ _

theorem pairwise_classes (sorted : Bool) (ms : List (Nat × α)) :
    (classes sorted ms).Pairwise fun a b => sameClass a b = false := by
  refine ((perm_classes sorted ms).pairwise_iff ?_).2 (pairwise_distinctBy sameClass ms)
  intro a b hab
  rw [Bool.eq_false_iff, Ne, sameClass_iff] at hab ⊢
  exact fun hba => hab ⟨hba.1.symm, hba.2.symm⟩

theorem mem_of_mem_classes {ms : List (Nat × α)} (hd : d ∈ classes sorted ms) : d ∈ ms :=
  (distinctBy_sublist sameClass ms).subset ((perm_classes sorted ms).subset hd)

theorem exists_mem_classes {ms : List (Nat × α)} (sorted : Bool) (hm : m ∈ ms) :
    ∃ d ∈ classes sorted ms, sameClass m d = true := by
  obtain ⟨d, hd, hmd⟩ := exists_mem_distinctBy equivalence_sameClass hm
  exact ⟨d, (perm_classes sorted ms).symm.subset hd, hmd⟩

theorem getElem?_refine : (refine sorted labels cells)[p]? = some (some g) ↔
    ∃ m, (members labels cells)[p]? = some (some m) ∧
      ∃ d, (classes sorted (members labels cells).reduceOption)[g]? = some d ∧
        sameClass m d = true :=
  getElem?_map_findIdx? equivalence_sameClass (pairwise_classes sorted _)

theorem length_refine (h : labels.length = cells.length) :
    (refine sorted labels cells).length = labels.length := by
  rw [refine, List.length_map, members, List.length_zipWith, ← h, Nat.min_self]

theorem length_classes_le (sorted : Bool) (ms : List (Option (Nat × α))) :
    (classes sorted ms.reduceOption).length ≤ ms.length := by
  rw [(perm_classes sorted _).length_eq]
  exact Nat.le_trans (distinctBy_sublist sameClass _).length_le (List.reduceOption_length_le ms)

theorem bounded_refine (sorted : Bool) (labels : List (Option Nat)) (cells : List (Option α)) :
    Bounded (refine sorted labels cells) := by
  intro p g hp
  obtain ⟨_, _, _, hd, _⟩ := getElem?_refine.1 hp
  have hlt := (List.getElem?_eq_some_iff.1 hd).1
  rw [refine, List.length_map]
  exact Nat.lt_of_lt_of_le hlt (length_classes_le sorted _)

/-- Whether sorted or not, what was together and has one key stays together. -/
theorem together_refine : Together (refine sorted labels cells) p q ↔ Together labels p q ∧
    ∃ v w, cells[p]? = some (some v) ∧ cells[q]? = some (some w) ∧ Cell.key v = Cell.key w := by
  constructor
  · rintro ⟨g, hp, hq⟩
    obtain ⟨⟨k, v⟩, hm, d, hd, hmd⟩ := getElem?_refine.1 hp
    obtain ⟨⟨l, w⟩, hn, e, he, hne⟩ := getElem?_refine.1 hq
    obtain rfl := Option.some.inj (hd.symm.trans he)
    obtain ⟨hk, hv⟩ := getElem?_members.1 hm
    obtain ⟨hl, hw⟩ := getElem?_members.1 hn
    rw [sameClass_iff] at hmd hne
    obtain rfl : k = l := hmd.1.trans hne.1.symm
    exact ⟨⟨k, hk, hl⟩, v, w, hv, hw, hmd.2.trans hne.2.symm⟩
  · rintro ⟨⟨k, hk, hl⟩, v, w, hv, hw, hkey⟩
    have hm := getElem?_members.2 ⟨hk, hv⟩
    have hn := getElem?_members.2 ⟨hl, hw⟩
    obtain ⟨d, hd, hmd⟩ := exists_mem_classes sorted (mem_reduceOption_of_getElem? hm)
    obtain ⟨g, hg⟩ := List.mem_iff_getElem?.1 hd
    refine ⟨g, getElem?_refine.2 ⟨_, hm, d, hg, hmd⟩, getElem?_refine.2 ⟨_, hn, d, hg, ?_⟩⟩
    rw [sameClass_iff] at hmd ⊢
    exact ⟨hmd.1, hkey.symm.trans hmd.2⟩

end Refine

end ObjectGraph.Grouping
