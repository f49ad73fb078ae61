import Mathlib.Data.List.FinRange
import ObjectGraph.Proofs.Grouping.Buffers
import ObjectGraph.Proofs.Grouping.Unique
import ObjectGraph.Proofs.Shape.Made

/-!
# Numbering the groups of a segment

The buffer of group numbers holds the labels of all segments one after another, those of
each segment counted from a number of their own. A key renumbers segment after segment.
The labels that it leaves in a segment are those of `refine`, counted from the number of
groups in the segments before.
-/

namespace ObjectGraph.Grouping

open Buffer

/-! ### Numbers -/

/-- The labels of a segment counted from a number on. -/
def shift (first : Nat) (labels : List (Option Nat)) : List (Option Nat) :=
  labels.map (Option.map (first + ·))

@[simp] theorem length_shift (first : Nat) (labels : List (Option Nat)) :
    (shift first labels).length = labels.length :=
  List.length_map _

theorem members_shift {α : Type} (k : Nat) (labels : List (Option Nat)) (cells : List (Option α)) :
    members (shift k labels) cells =
      (members labels cells).map (Option.map fun m => (k + m.1, m.2)) := by
  rw [members, members, shift, List.zipWith_map_left, List.map_zipWith]
  congr 1
  funext group cell
  cases group <;> cases cell <;> rfl

/-! ### Ranks -/

section Order

variable {α : Type} [Cell α] {met : List (Nat × α)}

theorem perm_order (met : List (Nat × α)) : (order met).Perm (List.range met.length) := by
  rw [← List.map_coe_finRange_eq_range]
  exact (List.mergeSort_perm _ _).map _

/-- The classes in ascending order are those that the order names. -/
theorem getElem?_mergeSort {p k : Nat} (h : (order met)[p]? = some k) :
    (met.mergeSort classOrder)[p]? = met[k]? := by
  have hmap : met.mergeSort classOrder =
      ((List.finRange met.length).mergeSort fun a b => classOrder met[a] met[b]).map met.get := by
    have hsort := List.map_mergeSort (l := List.finRange met.length) (f := met.get)
      (r := fun a b => classOrder met[a] met[b]) (s := classOrder) fun _ _ _ _ => rfl
    rw [hsort, ← List.ofFn_eq_map, List.ofFn_get]
  rw [order, List.getElem?_map, Option.map_eq_some_iff] at h
  obtain ⟨i, hi, rfl⟩ := h
  rw [hmap, List.getElem?_map, hi, List.getElem?_eq_getElem i.isLt]
  rfl

/-- Writing down the place of each entry of a list without duplicates. -/
theorem foldlM_write {entries : List Nat} (rank : List Nat) (start : Nat) (hnodup : entries.Nodup)
    (hlt : ∀ k ∈ entries, k < rank.length) :
    ∃ rank', (entries.zipIdx start).foldlM (fun rank p => write rank p.1 p.2) rank = .ok rank' ∧
      (∀ k ∉ entries, rank'[k]? = rank[k]?) ∧
      ∀ p k : Nat, entries[p]? = some k → rank'[k]? = some (start + p) := by
  induction entries generalizing start rank with
  | nil => exact ⟨rank, rfl, fun _ _ => rfl, nofun⟩
  | cons entry entries ih =>
      obtain ⟨hnot, hnodup⟩ := List.nodup_cons.1 hnodup
      have hentry := hlt entry List.mem_cons_self
      obtain ⟨rank', hrun, hother, hplace⟩ := ih (rank.set entry start) (start + 1) hnodup
        fun k hk => by
          rw [List.length_set]
          exact hlt k (List.mem_cons_of_mem entry hk)
      refine ⟨rank', ?_, fun k hk => ?_, fun p k hp => ?_⟩
      · rw [List.zipIdx_cons, List.foldlM_cons, write_of_lt hentry, ok_bind]
        exact hrun
      · rw [List.mem_cons, not_or] at hk
        rw [hother k hk.2, List.getElem?_set_ne (Ne.symm hk.1)]
      · cases p with
        | zero =>
            obtain rfl := Option.some.inj hp
            rw [hother _ hnot, List.getElem?_set_self hentry, Nat.add_zero]
        | succ p =>
            rw [hplace p k hp, Nat.add_assoc, Nat.add_comm 1 p]

/-- Every class has a rank, which is its place in ascending order. -/
theorem exists_ranks (met : List (Nat × α)) : ∃ rank, ranks met = .ok rank ∧
    ∀ (k : Nat) (d : Nat × α), met[k]? = some d →
      ∃ p, rank[k]? = some p ∧ (met.mergeSort classOrder)[p]? = some d := by
  have hperm := perm_order met
  have hlt : ∀ k ∈ order met, k < (List.replicate met.length 0).length := by
    intro k hk
    rw [List.length_replicate]
    exact List.mem_range.1 (hperm.subset hk)
  obtain ⟨rank, hrun, -, hplace⟩ := foldlM_write _ 0 (hperm.symm.nodup List.nodup_range) hlt
  refine ⟨rank, hrun, fun k d hd => ?_⟩
  have hk := List.mem_range.2 (List.getElem?_eq_some_iff.1 hd).1
  obtain ⟨p, hp⟩ := List.mem_iff_getElem?.1 (hperm.symm.subset hk)
  refine ⟨p, ?_, (getElem?_mergeSort hp).trans hd⟩
  rw [hplace p k hp, Nat.zero_add]

theorem classOrder_shift (first : Nat) (a b : Nat × α) :
    classOrder (first + a.1, a.2) (first + b.1, b.2) = classOrder a b := by
  have hcompare : compare (first + a.1) (first + b.1) = compare a.1 b.1 := by
    rw [Nat.compare_eq_ite_lt, Nat.compare_eq_ite_lt]
    simp
  rw [classOrder, classOrder, hcompare]

end Order

/-! ### Classes met so far -/

section Met

variable {α : Type} {same : α → α → Bool}

theorem any_distinctBy (hsame : Equivalence fun a b => same a b = true) (l : List α) (b : α) :
    (distinctBy same l).any (same · b) = l.any (same · b) := by
  rw [Bool.eq_iff_iff, List.any_eq_true, List.any_eq_true]
  constructor
  · rintro ⟨d, hd, hdb⟩
    exact ⟨d, (distinctBy_sublist same l).subset hd, hdb⟩
  · rintro ⟨a, ha, hab⟩
    obtain ⟨d, hd, had⟩ := exists_mem_distinctBy hsame ha
    exact ⟨d, hd, hsame.trans (hsame.symm had) hab⟩

theorem enter_distinctBy (hsame : Equivalence fun a b => same a b = true) (l : List α) (m : α) :
    enter same (distinctBy same l) m = distinctBy same (l ++ [m]) := by
  rw [enter, any_distinctBy hsame, distinctBy_append]
  by_cases hmet : (l.any fun d => same d m) = true
  · simp [distinctBy, hmet]
  · simp [distinctBy, hmet]

/-- A class keeps its number when more members are met. -/
theorem findIdx?_distinctBy_append (hsame : Equivalence fun a b => same a b = true)
    (l l' : List α) (m : α) : (distinctBy same (l ++ m :: l')).findIdx? (same m) =
      (distinctBy same (l ++ [m])).findIdx? (same m) := by
  rw [List.append_cons, distinctBy_append same (l ++ [m]) l', List.findIdx?_append]
  have hmet := exists_mem_distinctBy hsame (List.mem_append_right l (List.mem_singleton_self m))
  rw [← List.any_eq_true, ← List.findIdx?_isSome] at hmet
  rw [Option.or_of_isSome hmet]

end Met

section Cells

variable {α : Type} [DecidableEq α] [Cell α] {sorted : Bool} {cells : List (Option α)}
  {labels : List (Option Nat)} {m : Nat × α}

/-- The members of a segment by the numbers of their classes. -/
def numbers (met : List (Nat × α)) (ms : List (Option (Nat × α))) : List (Option Nat) :=
  ms.map fun m => m.bind fun m => met.findIdx? (sameClass m)

theorem refine_eq_numbers (sorted : Bool) (labels : List (Option Nat))
    (cells : List (Option α)) : refine sorted labels cells =
      numbers (classes sorted (members labels cells).reduceOption) (members labels cells) :=
  rfl

/-- One position gets the number of the class of its member, if it is one. -/
theorem visit_append (first : Nat) (ms : List (Nat × α)) (before after : List (Option Nat))
    (passed rest : List (Option α)) (group : Option Nat) (cell : Option α)
    (hpassed : passed.length = before.length) :
    let m := group.bind fun g => cell.map fun v => (g, v)
    visit (passed ++ cell :: rest) first (before ++ group :: after, distinctBy sameClass ms)
        before.length =
      .ok (before ++ (m.bind fun m => (distinctBy sameClass (ms ++ [m])).findIdx?
          (sameClass m)).map (first + ·) :: after,
        distinctBy sameClass (ms ++ m.toList)) := by
  have hcell := read_append passed rest cell
  rw [hpassed] at hcell
  rw [visit, read_append, hcell]
  cases group with
  | none => simp [write_append, pure, Except.pure]
  | some g =>
      cases cell with
      | none => simp [write_append, pure, Except.pure]
      | some v =>
          simp [enter_distinctBy equivalence_sameClass, write_append, pure, Except.pure]

/-- Going through a segment, each position gets the number of its class, and the classes
met are those of all members so far. -/
theorem foldlM_visit (first : Nat) (ms : List (Nat × α)) (before old after : List (Option Nat))
    (passed current rest : List (Option α)) (hpassed : passed.length = before.length)
    (hcurrent : current.length = old.length) :
    (List.range' before.length old.length).foldlM (visit (passed ++ (current ++ rest)) first)
        (before ++ (old ++ after), distinctBy sameClass ms) =
      .ok (before ++ (shift first (numbers
          (distinctBy sameClass (ms ++ (members old current).reduceOption))
          (members old current)) ++ after),
        distinctBy sameClass (ms ++ (members old current).reduceOption)) := by
  induction old generalizing ms before passed current with
  | nil =>
      obtain rfl := List.length_eq_zero_iff.1 hcurrent
      simp [members, numbers, shift, pure, Except.pure]
  | cons group old ih =>
      obtain ⟨cell, current, rfl⟩ := List.exists_cons_of_length_eq_add_one hcurrent
      have hstep := visit_append first ms before (old ++ after) passed (current ++ rest) group cell
        hpassed
      have hmembers : members (group :: old) (cell :: current) =
          (group.bind fun g => cell.map fun v => (g, v)) :: members old current := rfl
      rw [hmembers, List.length_cons, List.range'_succ, List.foldlM_cons, List.cons_append,
        List.cons_append, hstep, ok_bind]
      generalize (group.bind fun g => cell.map fun v => (g, v)) = m
      -- The rest of the segment comes after one more position that is done.
      have hnext := ih (ms ++ m.toList) (before ++ [(m.bind fun m =>
          (distinctBy sameClass (ms ++ [m])).findIdx? (sameClass m)).map (first + ·)])
        (passed ++ [cell]) current (by simp [hpassed]) (Nat.succ.inj hcurrent)
      simp only [List.length_append, List.length_singleton, List.append_assoc,
        List.singleton_append] at hnext
      rw [hnext]
      cases m with
      | none => simp [numbers, shift]
      | some m =>
          simp [numbers, shift, findIdx?_distinctBy_append equivalence_sameClass ms]

/-- After a segment, its positions have the labels that a key leaves. -/
theorem visit_segment (first : Nat) (before old after : List (Option Nat))
    (passed current rest : List (Option α)) (hpassed : passed.length = before.length)
    (hcurrent : current.length = old.length) :
    (List.range' before.length old.length).foldlM (visit (passed ++ (current ++ rest)) first)
        (before ++ (old ++ after), []) =
      .ok (before ++ (shift first (refine false old current) ++ after),
        classes false (members old current).reduceOption) :=
  foldlM_visit first [] before old after passed current rest hpassed hcurrent

/-! ### Putting new groups in order -/

/-- Renumbering by rank gives the labels that a sorted key leaves: the class that was met with
a member is found again by its rank. -/
theorem mapM_renumber (first : Nat) (labels : List (Option Nat)) {rank : List Nat}
    (hplace : ∀ (k : Nat) (d : Nat × α),
      (classes false (members labels cells).reduceOption)[k]? = some d → ∃ p, rank[k]? = some p ∧
        ((classes false (members labels cells).reduceOption).mergeSort classOrder)[p]? = some d) :
    (shift first (refine false labels cells)).mapM (renumber first rank) =
      .ok (shift first (refine true labels cells)) := by
  simp only [shift, refine_eq_numbers, numbers, List.map_map, List.mapM_map]
  refine mapM_eq_ok fun m hm => ?_
  cases m with
  | none => rfl
  | some m =>
      obtain ⟨d, hd, hmd⟩ := exists_mem_classes false (List.reduceOption_mem_iff.2 hm)
      obtain ⟨k, hk⟩ := List.mem_iff_getElem?.1 hd
      obtain ⟨p, hp, hpd⟩ := hplace k d hk
      have hmet := (findIdx?_eq_some_iff_same equivalence_sameClass
        (pairwise_classes false _)).2 ⟨d, hk, hmd⟩
      have hsorted := (findIdx?_eq_some_iff_same equivalence_sameClass
        (pairwise_classes true _)).2 ⟨d, hpd, hmd⟩
      simp only [Function.comp_apply, Option.bind_some, hmet, hsorted, Option.map_some,
        renumber, Nat.add_sub_cancel_left, read_of_getElem? hp, ok_bind]
      rw [if_neg (Nat.not_lt.2 (Nat.le_add_right first k))]
      rfl

/-- A sorted key puts the new groups of a segment in order. -/
theorem sortSegment_eq (first : Nat) (before labels after : List (Option Nat))
    (hcells : cells.length = labels.length) :
    sortSegment first (before.length, before.length + labels.length)
        (before ++ (shift first (refine false labels cells) ++ after))
        (classes false (members labels cells).reduceOption) =
      .ok (before ++ (shift first (refine true labels cells) ++ after)) := by
  obtain ⟨rank, hrank, hplace⟩ := exists_ranks (classes false (members labels cells).reduceOption)
  have hlength : (shift first (refine false labels cells)).length = labels.length := by
    rw [length_shift, length_refine hcells.symm]
  have hwindow := window_append before (shift first (refine false labels cells)) after
  rw [hlength] at hwindow
  have hdrop : (before ++ (shift first (refine false labels cells) ++ after)).drop
      (before.length + labels.length) = after := by
    rw [← List.append_assoc, List.drop_left']
    rw [List.length_append, hlength]
  rw [sortSegment, hrank, ok_bind, hwindow, ok_bind, mapM_renumber first labels hplace, ok_bind,
    List.take_left, hdrop, List.append_assoc]
  rfl

/-! ### One segment -/

/-- Every number below that of the groups stands for a group. -/
def Compact (labels : List (Option Nat)) : Prop :=
  ∀ g : Nat, (∃ p : Nat, labels[p]? = some (some g)) ↔ g < (groupsOf labels).length

theorem length_groupsOf_refine (sorted : Bool) (labels : List (Option Nat))
    (cells : List (Option α)) : (groupsOf (refine sorted labels cells)).length =
      (classes sorted (members labels cells).reduceOption).length := by
  have hle : (classes sorted (members labels cells).reduceOption).length ≤
      (refine sorted labels cells).length := by
    rw [refine, List.length_map]
    exact length_classes_le sorted _
  rw [groupsOf_eq_map hle fun g => exists_getElem?_refine_iff, List.length_map, List.length_range]

theorem compact_refine (sorted : Bool) (labels : List (Option Nat)) (cells : List (Option α)) :
    Compact (refine sorted labels cells) := by
  intro g
  rw [length_groupsOf_refine]
  exact exists_getElem?_refine_iff

theorem sameClass_shift (k : Nat) (a b : Nat × α) :
    sameClass (k + a.1, a.2) (k + b.1, b.2) = sameClass a b := by
  rw [Bool.eq_iff_iff, sameClass_iff, sameClass_iff, Nat.add_left_cancel_iff]

section Map

variable {β : Type} [DecidableEq β] [Cell β] {F : Nat × β → Nat × α}

/-- The classes do not depend on what stands for a member, as long as the same members stay
together and their order is kept. -/
theorem classes_map (hsame : ∀ a b, sameClass (F a) (F b) = sameClass a b)
    (horder : ∀ a b, classOrder (F a) (F b) = classOrder a b) (sorted : Bool)
    (ms : List (Nat × β)) : classes sorted (ms.map F) = (classes sorted ms).map F := by
  have hsame' : (fun a b => sameClass (F a) (F b)) = sameClass := by
    funext a b
    exact hsame a b
  cases sorted with
  | false => rw [classes, distinctBy_map, hsame']; rfl
  | true =>
      rw [classes, distinctBy_map, hsame', if_pos rfl, classes, if_pos rfl, List.map_mergeSort]
      exact fun a _ b _ => (horder a b).symm

theorem numbers_map (hsame : ∀ a b, sameClass (F a) (F b) = sameClass a b)
    (met : List (Nat × β)) (ms : List (Option (Nat × β))) :
    numbers (met.map F) (ms.map (Option.map F)) = numbers met ms := by
  rw [numbers, numbers, List.map_map]
  refine List.map_congr_left fun m _ => ?_
  cases m with
  | none => rfl
  | some m =>
      simp only [Function.comp_apply, Option.map_some, Option.bind_some, List.findIdx?_map]
      congr 1
      funext d
      exact hsame m d

end Map

/-- The numbers from which the labels of a segment are counted do not matter to a key. -/
theorem refine_shift (sorted : Bool) (k : Nat) (labels : List (Option Nat))
    (cells : List (Option α)) :
    refine sorted (shift k labels) cells = refine sorted labels cells := by
  rw [refine_eq_numbers, refine_eq_numbers, members_shift, List.reduceOption_map,
    classes_map (sameClass_shift k) (classOrder_shift k), numbers_map (sameClass_shift k)]

/-- A key renumbers one segment and leaves the others as they are. -/
theorem processSegment_eq (sorted : Bool) (k first : Nat) (before old after : List (Option Nat))
    (passed current rest : List (Option α)) (hpassed : passed.length = before.length)
    (hcurrent : current.length = old.length) :
    processSegment sorted (passed ++ (current ++ rest)) (before ++ (shift k old ++ after), first)
        (before.length, before.length + old.length) =
      .ok (before ++ (shift first (refine sorted old current) ++ after),
        first + (groupsOf (refine sorted old current)).length) := by
  have hold : current.length = (shift k old).length := by rw [length_shift, hcurrent]
  have hvisit := visit_segment first before (shift k old) after passed current rest hpassed hold
  have hsort := sortSegment_eq first before (shift k old) after hold
  have hmet : (classes false (members (shift k old) current).reduceOption).length =
      (groupsOf (refine sorted old current)).length := by
    rw [← refine_shift sorted k, length_groupsOf_refine, (perm_classes sorted _).length_eq]
    rfl
  rw [length_shift] at hvisit hsort
  simp only [processSegment, Nat.add_sub_cancel_left]
  rw [hvisit, ok_bind]
  simp only [hmet]
  cases sorted with
  | false =>
      rw [if_neg Bool.false_ne_true, refine_shift]
      rfl
  | true =>
      rw [if_pos rfl, hsort, ok_bind, refine_shift]
      rfl

end Cells

end ObjectGraph.Grouping
