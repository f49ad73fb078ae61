import Mathlib.Data.List.Pairwise
import Mathlib.Data.List.ReduceOption
import ObjectGraph.Grouping.Refine

/-!
# Groups as labels

The groups of a segment are labels of its positions, and a position without a label is in
no group. `Labelled` says what the labels stand for: two positions have one label exactly
when they belong together, and labels are numbered in the order of first positions, so a
label comes up only after all smaller ones. Refining labels by the cells of a key keeps
this, with positions that belong together if they did before and have one grouping key.
-/

namespace ObjectGraph.Grouping

/-! ### Distinct members -/

section Distinct

variable {α : Type} {same : α → α → Bool} {l : List α} {a b d : α}

theorem distinctBy_sublist (same : α → α → Bool) (l : List α) :
    (distinctBy same l).Sublist l := by
  induction l with
  | nil => exact .slnil
  | cons a l ih => exact (List.filter_sublist.trans ih).cons_cons a

theorem pairwise_distinctBy (same : α → α → Bool) (l : List α) :
    (distinctBy same l).Pairwise fun a b => same a b = false := by
  induction l with
  | nil => exact .nil
  | cons a l ih =>
      refine List.pairwise_cons.2 ⟨fun b hb => ?_, ih.sublist List.filter_sublist⟩
      simpa using (List.mem_filter.1 hb).2

theorem exists_mem_distinctBy (hsame : Equivalence fun a b => same a b = true) (ha : a ∈ l) :
    ∃ d ∈ distinctBy same l, same a d = true := by
  induction l with
  | nil => cases ha
  | cons b l ih =>
      rcases List.mem_cons.1 ha with rfl | ha
      · exact ⟨a, List.mem_cons_self, hsame.refl a⟩
      · obtain ⟨d, hd, had⟩ := ih ha
        by_cases hbd : same b d = true
        · exact ⟨b, List.mem_cons_self, hsame.trans had (hsame.symm hbd)⟩
        · exact ⟨d, List.mem_cons_of_mem b (List.mem_filter.2 ⟨hd, by simp [hbd]⟩), had⟩

/-- Further members come after the distinct members found before. -/
theorem distinctBy_append (same : α → α → Bool) (l l' : List α) :
    distinctBy same (l ++ l') =
      distinctBy same l ++ (distinctBy same l').filter fun b => !l.any (same · b) := by
  induction l with
  | nil => simp [distinctBy]
  | cons a l ih =>
      simp only [List.cons_append, distinctBy, ih, List.filter_append, List.filter_filter,
        List.any_cons, Bool.not_or]

/-- Among distinct members the class of a member is found at one place only. -/
theorem findIdx?_eq_some_iff_same (hsame : Equivalence fun a b => same a b = true)
    (hl : l.Pairwise fun a b => same a b = false) {g : Nat} :
    l.findIdx? (same a) = some g ↔ ∃ d, l[g]? = some d ∧ same a d = true := by
  rw [List.findIdx?_eq_some_iff_getElem]
  constructor
  · rintro ⟨hg, hsameg, -⟩
    exact ⟨l[g], List.getElem?_eq_getElem hg, hsameg⟩
  · rintro ⟨d, hd, had⟩
    obtain ⟨hg, rfl⟩ := List.getElem?_eq_some_iff.1 hd
    refine ⟨hg, had, fun j hj haj => ?_⟩
    have hfalse := List.pairwise_iff_getElem.1 hl j g (Nat.lt_trans hj hg) hg hj
    rw [hsame.trans (hsame.symm haj) had] at hfalse
    cases hfalse

theorem getElem?_distinct_inj (hsame : Equivalence fun a b => same a b = true)
    (hl : l.Pairwise fun a b => same a b = false) {g h : Nat} (ha : l[g]? = some a)
    (hb : l[h]? = some b) (hab : same a b = true) : g = h := by
  have hg := (findIdx?_eq_some_iff_same hsame hl).2 ⟨a, ha, hsame.refl a⟩
  have hh := (findIdx?_eq_some_iff_same hsame hl).2 ⟨b, hb, hab⟩
  exact Option.some.inj (hg.symm.trans hh)

/-- The class of a member is found by the time the member is there. -/
theorem le_length_distinctBy (hsame : Equivalence fun a b => same a b = true) {l' : List α}
    {h : Nat} (hh : (distinctBy same (l ++ a :: l'))[h]? = some b) (hab : same a b = true) :
    h ≤ (distinctBy same l).length := by
  have hsplit := distinctBy_append same l (a :: l')
  have hpairs := pairwise_distinctBy same (l ++ a :: l')
  by_cases hany : ∃ c ∈ l, same c a = true
  · -- The class was found with an earlier member.
    obtain ⟨c, hc, hca⟩ := hany
    obtain ⟨e, he, hce⟩ := exists_mem_distinctBy hsame hc
    obtain ⟨i, hi⟩ := List.mem_iff_getElem?.1 he
    have hilt := (List.getElem?_eq_some_iff.1 hi).1
    have hi' : (distinctBy same (l ++ a :: l'))[i]? = some e := by
      rw [hsplit, List.getElem?_append_left hilt]
      exact hi
    have heb := hsame.trans (hsame.symm hce) (hsame.trans hca hab)
    obtain rfl := getElem?_distinct_inj hsame hpairs hi' hh heb
    exact Nat.le_of_lt hilt
  · have hnew : (l.any (same · a)) = false := by simpa using hany
    have hi' : (distinctBy same (l ++ a :: l'))[(distinctBy same l).length]? = some a := by
      rw [hsplit, List.getElem?_append_right (Nat.le_refl _), distinctBy]
      simp [hnew]
    obtain rfl := getElem?_distinct_inj hsame hpairs hi' hh hab
    exact Nat.le_refl _

/-- The classes before that of a member are found without it. -/
theorem mem_of_getElem?_distinctBy_lt (hsame : Equivalence fun a b => same a b = true)
    {l' : List α} {g h : Nat} (hh : (distinctBy same (l ++ a :: l'))[h]? = some b)
    (hab : same a b = true) (hlt : g < h)
    (hg : (distinctBy same (l ++ a :: l'))[g]? = some d) : d ∈ l := by
  have hle := le_length_distinctBy hsame hh hab
  rw [distinctBy_append, List.getElem?_append_left (Nat.lt_of_lt_of_le hlt hle)] at hg
  exact (distinctBy_sublist same l).subset (List.mem_of_getElem? hg)

end Distinct

/-! ### Labels -/

/-- Labels of `n` positions: which positions have one, and which have the same. -/
structure Labelled (labels : List (Option Nat)) (n : Nat) (present : Nat → Prop)
    (same : Nat → Nat → Prop) : Prop where
  length : labels.length = n
  present_iff : ∀ p < n, (∃ g, labels[p]? = some (some g)) ↔ present p
  same_iff : ∀ p q g h : Nat, labels[p]? = some (some g) → labels[q]? = some (some h) →
    (g = h ↔ same p q)
  first : ∀ p g h : Nat, labels[p]? = some (some h) → g < h → ∃ q < p, labels[q]? = some (some g)

/-- Numbers the classes of the members of a list in the order of their first members. -/
def label {α : Type} (same : α → α → Bool) (ms : List (Option α)) : List (Option Nat) :=
  ms.map fun m => m.bind fun m => (distinctBy same ms.reduceOption).findIdx? (same m)

section Label

variable {α : Type} {same : α → α → Bool} {ms : List (Option α)} {p g : Nat}

/-- The labels of members, as the numbers of their classes. -/
theorem getElem?_map_findIdx? (hsame : Equivalence fun a b => same a b = true) {firsts : List α}
    (hfirsts : firsts.Pairwise fun a b => same a b = false) :
    (ms.map fun m => m.bind fun m => firsts.findIdx? (same m))[p]? = some (some g) ↔
      ∃ m, ms[p]? = some (some m) ∧ ∃ d, firsts[g]? = some d ∧ same m d = true := by
  rw [List.getElem?_map]
  cases hm : ms[p]? with
  | none => simp
  | some m =>
      cases m with
      | none => simp
      | some m => simp [findIdx?_eq_some_iff_same hsame hfirsts]

theorem getElem?_label (hsame : Equivalence fun a b => same a b = true) :
    (label same ms)[p]? = some (some g) ↔ ∃ m, ms[p]? = some (some m) ∧
      ∃ d, (distinctBy same ms.reduceOption)[g]? = some d ∧ same m d = true :=
  getElem?_map_findIdx? hsame (pairwise_distinctBy same ms.reduceOption)

theorem mem_reduceOption_of_getElem? {m : α} (h : ms[p]? = some (some m)) :
    m ∈ ms.reduceOption :=
  List.reduceOption_mem_iff.2 (List.mem_of_getElem? h)

theorem labelled_label (hsame : Equivalence fun a b => same a b = true)
    (ms : List (Option α)) :
    Labelled (label same ms) ms.length (fun p => ∃ m, ms[p]? = some (some m))
      fun p q => ∃ m n, ms[p]? = some (some m) ∧ ms[q]? = some (some n) ∧ same m n = true := by
  have hpairs := pairwise_distinctBy same ms.reduceOption
  constructor
  case length => exact List.length_map _
  case present_iff =>
    intro p _
    simp only [getElem?_label hsame]
    constructor
    · rintro ⟨g, m, hm, -⟩
      exact ⟨m, hm⟩
    · rintro ⟨m, hm⟩
      obtain ⟨d, hd, hmd⟩ := exists_mem_distinctBy hsame (mem_reduceOption_of_getElem? hm)
      obtain ⟨g, hg⟩ := List.mem_iff_getElem?.1 hd
      exact ⟨g, m, hm, d, hg, hmd⟩
  case same_iff =>
    intro p q g h hp hq
    obtain ⟨m, hm, d, hd, hmd⟩ := (getElem?_label hsame).1 hp
    obtain ⟨n, hn, e, he, hne⟩ := (getElem?_label hsame).1 hq
    constructor
    · rintro rfl
      obtain rfl := Option.some.inj (hd.symm.trans he)
      exact ⟨m, n, hm, hn, hsame.trans hmd (hsame.symm hne)⟩
    · rintro ⟨m', n', hm', hn', hmn⟩
      obtain rfl := Option.some.inj (Option.some.inj (hm.symm.trans hm'))
      obtain rfl := Option.some.inj (Option.some.inj (hn.symm.trans hn'))
      exact getElem?_distinct_inj hsame hpairs hd he
        (hsame.trans (hsame.symm hmd) (hsame.trans hmn hne))
  case first =>
    intro p g h hp hlt
    obtain ⟨m, hm, e, he, hme⟩ := (getElem?_label hsame).1 hp
    obtain ⟨d, hd⟩ : ∃ d, (distinctBy same ms.reduceOption)[g]? = some d :=
      ⟨_, List.getElem?_eq_getElem (Nat.lt_trans hlt (List.getElem?_eq_some_iff.1 he).1)⟩
    -- The members split at the position, and the class of `g` is met on the left.
    obtain ⟨hplt, hmp⟩ := List.getElem?_eq_some_iff.1 hm
    have hsplit : ms.reduceOption =
        (ms.take p).reduceOption ++ m :: (ms.drop (p + 1)).reduceOption := by
      conv_lhs => rw [← List.take_append_drop p ms, List.drop_eq_getElem_cons hplt, hmp]
      rw [List.reduceOption_append, List.reduceOption_cons_of_some]
    have hmem : d ∈ (ms.take p).reduceOption := by
      have he' := he
      have hd' := hd
      rw [hsplit] at he' hd'
      exact mem_of_getElem?_distinctBy_lt hsame he' hme hlt hd'
    obtain ⟨q, hq⟩ := List.mem_iff_getElem?.1 (List.reduceOption_mem_iff.1 hmem)
    rw [List.getElem?_take] at hq
    split at hq
    · rename_i hqp
      exact ⟨q, hqp, (getElem?_label hsame).2 ⟨d, hq, d, hd, hsame.refl d⟩⟩
    · cases hq

end Label

/-! ### Refining -/

section Refine

variable {labels : List (Option Nat)} {n : Nat} {present : Nat → Prop} {same : Nat → Nat → Prop}

theorem Labelled.congr {present' : Nat → Prop} {same' : Nat → Nat → Prop}
    (h : Labelled labels n present same) (hpresent : ∀ p < n, present p ↔ present' p)
    (hsame : ∀ p < n, ∀ q < n, present p → present q → (same p q ↔ same' p q)) :
    Labelled labels n present' same' where
  length := h.length
  present_iff := fun p hp => (h.present_iff p hp).trans (hpresent p hp)
  same_iff := by
    intro p q g k hp hq
    have hpn : p < n := h.length ▸ (List.getElem?_eq_some_iff.1 hp).1
    have hqn : q < n := h.length ▸ (List.getElem?_eq_some_iff.1 hq).1
    exact (h.same_iff p q g k hp hq).trans
      (hsame p hpn q hqn ((h.present_iff p hpn).1 ⟨g, hp⟩) ((h.present_iff q hqn).1 ⟨k, hq⟩))
  first := h.first

theorem getElem?_replicate_zero {p g : Nat} :
    (List.replicate n (some 0))[p]? = some (some g) ↔ p < n ∧ 0 = g := by
  simp [List.getElem?_replicate]

theorem labelled_replicate (n : Nat) :
    Labelled (List.replicate n (some 0)) n (fun _ => True) fun _ _ => True where
  length := List.length_replicate
  present_iff := fun p hp => iff_of_true ⟨0, getElem?_replicate_zero.2 ⟨hp, rfl⟩⟩ trivial
  same_iff := by
    intro p q g h hp hq
    have hg := (getElem?_replicate_zero.1 hp).2
    have hh := (getElem?_replicate_zero.1 hq).2
    exact iff_of_true (hg.symm.trans hh) trivial
  first := by
    intro p g h hp hlt
    rw [← (getElem?_replicate_zero.1 hp).2] at hlt
    cases hlt

theorem getElem?_map_none_ne (labels : List (Option Nat)) (p g : Nat) :
    (labels.map fun _ => (none : Option Nat))[p]? ≠ some (some g) := by
  rw [List.getElem?_map]
  cases labels[p]? <;> simp

theorem labelled_none (h : labels.length = n) (same : Nat → Nat → Prop) :
    Labelled (labels.map fun _ => none) n (fun _ => False) same := by
  have hnone := getElem?_map_none_ne labels
  constructor
  case length => exact (List.length_map _).trans h
  case present_iff => exact fun p _ => iff_of_false (fun ⟨g, hg⟩ => hnone p g hg) id
  case same_iff => exact fun p q g k hp => absurd hp (hnone p g)
  case first => exact fun p g k hp => absurd hp (hnone p k)

variable {α : Type} {cells : List (Option α)}

theorem getElem?_members {p g : Nat} {v : α} :
    (members labels cells)[p]? = some (some (g, v)) ↔
      labels[p]? = some (some g) ∧ cells[p]? = some (some v) := by
  rw [members, List.getElem?_zipWith]
  cases labels[p]? with
  | none => simp
  | some l => cases l <;> cases cells[p]? with
    | none => simp
    | some c => cases c <;> simp

variable [DecidableEq α] [Cell α]

theorem equivalence_sameClass :
    Equivalence fun a b : Nat × α => sameClass a b = true := by
  simp only [sameClass, sameKey, Bool.and_eq_true, beq_iff_eq]
  exact ⟨fun _ => ⟨rfl, rfl⟩, fun h => ⟨h.1.symm, h.2.symm⟩,
    fun h h' => ⟨h.1.trans h'.1, h.2.trans h'.2⟩⟩

/-- Refining by a key leaves together what has one key, and drops what has none. -/
theorem Labelled.refine (h : Labelled labels n present same) (hcells : cells.length = n) :
    Labelled (refine false labels cells) n
      (fun p => present p ∧ ∃ v, cells[p]? = some (some v))
      fun p q => same p q ∧ ∃ v w, cells[p]? = some (some v) ∧ cells[q]? = some (some w) ∧
        Cell.key v = Cell.key w := by
  have hlength : (members labels cells).length = n := by
    rw [members, List.length_zipWith, h.length, hcells, Nat.min_self]
  have hlabel := labelled_label equivalence_sameClass (members labels cells)
  rw [hlength] at hlabel
  refine hlabel.congr (fun p hp => ?_) fun p hp q hq hpp hpq => ?_
  · rw [← h.present_iff p hp]
    constructor
    · rintro ⟨⟨g, v⟩, hm⟩
      obtain ⟨hg, hv⟩ := getElem?_members.1 hm
      exact ⟨⟨g, hg⟩, v, hv⟩
    · rintro ⟨⟨g, hg⟩, v, hv⟩
      exact ⟨(g, v), getElem?_members.2 ⟨hg, hv⟩⟩
  · obtain ⟨⟨g, v⟩, hm⟩ := hpp
    obtain ⟨⟨k, w⟩, hn⟩ := hpq
    obtain ⟨hg, hv⟩ := getElem?_members.1 hm
    obtain ⟨hk, hw⟩ := getElem?_members.1 hn
    rw [← h.same_iff p q g k hg hk]
    simp only [hm, hn, hv, hw, Option.some.injEq]
    constructor
    · rintro ⟨_, _, rfl, rfl, hclass⟩
      simp only [sameClass, sameKey, Bool.and_eq_true, beq_iff_eq] at hclass
      exact ⟨hclass.1, v, w, rfl, rfl, hclass.2⟩
    · rintro ⟨hgk, _, _, rfl, rfl, hkey⟩
      refine ⟨_, _, rfl, rfl, ?_⟩
      simp only [sameClass, sameKey, Bool.and_eq_true, beq_iff_eq]
      exact ⟨hgk, hkey⟩

end Refine

end ObjectGraph.Grouping
