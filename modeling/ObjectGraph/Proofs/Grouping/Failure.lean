import ObjectGraph.Proofs.Grouping.InRange

/-!
# When grouping fails

On valid keys `groupBy` fails for its arguments only: if there are none, if the first one is
a scalar, if one has another shape than the first, or if one that has to be sorted cannot
be. Nothing that it builds on the way is rejected.
-/

namespace ObjectGraph

open Grouping

/-- Columns that can be put in ascending order. A column of no known type is one. -/
def Column.Sortable : Column → Prop
  | .empty _ => True
  | .typed t _ => t.dtype.isSortable = true
  | .mixed _ => False

variable {sorted : Bool} {keys : List Slice} {c : Column}

namespace Grouping

variable {shape : Shape}

theorem checkSortable_eq_ok_iff : checkSortable c = .ok () ↔ c.Sortable := by
  cases c with
  | empty n => exact iff_of_true rfl trivial
  | typed t cells =>
      by_cases h : t.dtype.isSortable = true <;> simp [checkSortable, Column.Sortable, h]
  | mixed items => simp [checkSortable, Column.Sortable]

theorem checkKey_eq_ok_iff : checkKey sorted c = .ok () ↔ (sorted = true → c.Sortable) := by
  cases sorted with
  | false => simp [checkKey]
  | true =>
      rw [checkKey, if_pos rfl, checkSortable_eq_ok_iff]
      exact ⟨fun h _ => h, fun h => h rfl⟩

theorem exists_refineKeys_eq_ok_iff (edge : Edge) (segments : List (List (Option Nat))) :
    (∃ refined, refineKeys sorted shape edge segments keys = .ok refined) ↔
      ∀ key ∈ keys, key.shape = shape ∧ (sorted = true → key.column.Sortable) := by
  induction keys generalizing segments with
  | nil => exact iff_of_true ⟨segments, rfl⟩ (List.forall_mem_nil _)
  | cons key keys ih =>
      simp only [refineKeys_cons_eq_ok, checkKey_eq_ok_iff, exists_and_left, List.forall_mem_cons,
        ih, and_assoc]

end Grouping

theorem exists_groupBy_eq_ok_iff (hvalid : ∀ key ∈ keys, key.Valid) :
    (∃ s, groupBy sorted keys = .ok s) ↔ ∃ first, keys.head? = some first ∧ first.rank ≠ 0 ∧
      ∀ key ∈ keys, key.shape = first.shape ∧ (sorted = true → key.column.Sortable) := by
  cases keys with
  | nil => simp [groupBy]
  | cons first keys =>
      simp only [List.head?_cons, Option.some.injEq, exists_eq_left']
      cases hlast : first.shape.edges.getLast? with
      | none =>
          have hrank : first.rank = 0 := by
            rw [Slice.rank, Shape.rank, List.getLast?_eq_none_iff.1 hlast]
            rfl
          refine iff_of_false ?_ fun h => h.1 hrank
          rintro ⟨s, hs⟩
          rw [groupBy] at hs
          simp [hlast] at hs
      | some edge =>
          obtain ⟨outer, hshape⟩ := exists_outer hlast
          have hrank : first.rank ≠ 0 := by
            rw [Slice.rank, Shape.rank, hshape]
            simp
          rw [and_iff_right hrank, ← exists_refineKeys_eq_ok_iff edge (wholeSegments edge)]
          constructor
          · rintro ⟨s, hs⟩
            cases hrefined : refineKeys sorted first.shape edge (wholeSegments edge)
                (first :: keys) with
            | error e =>
                rw [hshape] at hrefined
                rw [groupBy_error_of_refineKeys hshape hrefined] at hs
                cases hs
            | ok refined => exact ⟨refined, rfl⟩
          · rintro ⟨refined, hrefined⟩
            have hshapes := shape_of_refineKeys hrefined
            rw [hshape] at hrefined hshapes
            obtain ⟨_, hgroupBy, -⟩ := groupBy_of_refineKeys_eq_ok (List.cons_ne_nil _ _) hvalid
              hshapes hrefined
            exact ⟨_, hgroupBy⟩

/-- `groupBy` fails for no other reason than its arguments. -/
theorem exists_groupBy_eq_error_iff (hvalid : ∀ key ∈ keys, key.Valid) :
    (∃ e, groupBy sorted keys = .error e) ↔ keys = [] ∨ ∃ first, keys.head? = some first ∧
      (first.rank = 0 ∨ (∃ key ∈ keys, key.shape ≠ first.shape) ∨
        sorted = true ∧ ∃ key ∈ keys, ¬ key.column.Sortable) := by
  have herror : (∃ e, groupBy sorted keys = .error e) ↔ ¬ ∃ s, groupBy sorted keys = .ok s := by
    cases groupBy sorted keys <;> simp
  rw [herror, exists_groupBy_eq_ok_iff hvalid]
  cases keys with
  | nil => simp
  | cons first keys =>
      simp only [List.head?_cons, Option.some.injEq, exists_eq_left', reduceCtorEq, false_or]
      have hsplit : (∀ key ∈ first :: keys,
          key.shape = first.shape ∧ (sorted = true → key.column.Sortable)) ↔
            (∀ key ∈ first :: keys, key.shape = first.shape) ∧
              (sorted = true → ∀ key ∈ first :: keys, key.column.Sortable) :=
        ⟨fun h => ⟨fun key hkey => (h key hkey).1, fun hs key hkey => (h key hkey).2 hs⟩,
          fun h key hkey => ⟨h.1 key hkey, fun hs => h.2 hs key hkey⟩⟩
      rw [hsplit]
      simp only [not_and_or, not_not, Classical.not_imp, not_forall, ne_eq]

end ObjectGraph
