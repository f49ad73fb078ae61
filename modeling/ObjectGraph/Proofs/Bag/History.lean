import Mathlib.Data.List.ReduceOption
import Mathlib.Logic.Relation
import ObjectGraph.Proofs.Bag.Flatten

/-!
# Histories of bags

The bags of a program change in four ways: a bag is made of a store, bags made
earlier are combined, with or without dropping repeated ones, and the store of a
mutable bag is written to. What all histories have in common is proved change by
change: bags fall back on earlier ones, immutable bags stay empty, and a bag
keeps its fallbacks.
-/

namespace ObjectGraph.Bags

variable {bags bags' : Bags} {bag : Bag} {given : List (Option Handle)} {h : Handle}

/-- The bags that are given were made already. -/
def Has (bags : Bags) (given : List (Option Handle)) : Prop :=
  ∀ h, some h ∈ given → h.index < bags.made.length

/-- One change to the bags. -/
inductive Step (bags : Bags) : Bags → Prop
  | ofStore (s : Store) : Step bags (bags.ofStore s).2
  | combine (given : List (Option Handle)) (hgiven : bags.Has given) :
      Step bags (bags.combine given).2
  | commonOrCombined (given : List (Option Handle)) (hgiven : bags.Has given) :
      Step bags (bags.commonOrCombined given).2
  | write {h : Handle} {s : Store} (t : Store) (hs : bags.writable h = .ok s) :
      Step bags (bags.setStore h t)

/-- Any number of changes. -/
def Later : Bags → Bags → Prop :=
  Relation.ReflTransGen Step

/-- The bags of some history. -/
def Made (bags : Bags) : Prop :=
  Later none bags

/-- The bags fall back on earlier ones, and only mutable ones hold something. -/
structure WellMade (bags : Bags) : Prop where
  valid : bags.Valid
  empty_of_immutable : ∀ h bag, bags.get? h = some bag → bag.isMutable = false → bag.store = ∅

/-- The bags made so far are still there, with their fallbacks. -/
structure Keeps (bags bags' : Bags) : Prop where
  length_le : bags.made.length ≤ bags'.made.length
  fallbacks_eq : ∀ h, h.index < bags.made.length → bags'.fallbacks h = bags.fallbacks h
  isMutable_eq : ∀ h, h.index < bags.made.length → bags'.isMutable h = bags.isMutable h

/-- What is combined are the different bags that are given; a single bag is returned. -/
theorem commonOrCombined_eq (bags : Bags) (given : List (Option Handle)) :
    bags.commonOrCombined given =
      match given.reduceOption.eraseDups with
      | [] => (Option.none, bags)
      | [h] => (some h, bags)
      | handles => (some (bags.combine (handles.map some)).1,
          (bags.combine (handles.map some)).2) := by
  unfold commonOrCombined
  split
  · rename_i only
    cases only <;> simp [List.reduceOption, List.eraseDups_cons]
  · rfl

theorem exists_of_writable {s : Store} (hs : bags.writable h = .ok s) :
    ∃ bag, bags.get? h = some bag ∧ bag.isMutable = true := by
  cases hget : bags.get? h with
  | none => simp [writable, isMutable, hget] at hs
  | some bag =>
      cases hmutable : bag.isMutable with
      | false => simp [writable, isMutable, hget, hmutable] at hs
      | true => exact ⟨bag, rfl, hmutable⟩

theorem get?_setStore (bags : Bags) (h : Handle) (t : Store) (g : Handle) :
    (bags.setStore h t).get? g =
      (bags.get? g).map fun bag => if h = g then { bag with store := t } else bag := by
  have heq : h.index = g.index ↔ h = g := by
    cases h
    cases g
    simp
  simp only [get?, setStore, List.getElem?_modify, heq]
  split <;> simp [*]

/-- A change makes one bag of earlier ones, writes to a mutable bag or does nothing. -/
theorem Step.cases (hstep : Step bags bags') :
    (∃ bag : Bag, bags' = (bags.add bag).2 ∧ bags.Has (bag.fallbacks.map some) ∧
      (bag.isMutable = false → bag.store = ∅)) ∨
    (∃ h bag t, bags.get? h = some bag ∧ bag.isMutable = true ∧ bags' = bags.setStore h t) ∨
    bags' = bags := by
  cases hstep with
  | ofStore s => exact .inl ⟨⟨s, [], true⟩, rfl, by simp [Has], by simp⟩
  | combine given hgiven =>
      refine .inl ⟨_, rfl, ?_, fun _ => rfl⟩
      intro g hg
      apply hgiven
      simpa [List.reduceOption_mem_iff] using hg
  | commonOrCombined given hgiven =>
      rw [commonOrCombined_eq]
      split
      · exact .inr (.inr rfl)
      · exact .inr (.inr rfl)
      · refine .inl ⟨_, rfl, ?_, fun _ => rfl⟩
        intro g hg
        apply hgiven
        simpa [List.reduceOption_mem_iff] using hg
  | @write h s t hs =>
      have ⟨bag, hget, hmutable⟩ := exists_of_writable hs
      exact .inr (.inl ⟨h, bag, t, hget, hmutable, rfl⟩)

theorem wellMade_none : WellMade none where
  valid := by simp [Valid, none, get?]
  empty_of_immutable := by simp [none, get?]

/-- A look-up after a bag was made finds an old bag or the new one. -/
theorem get?_add_eq_some {made : Bag} (hget : (bags.add made).2.get? h = some bag) :
    bags.get? h = some bag ∨ h.index = bags.made.length ∧ bag = made := by
  by_cases hlt : h.index < bags.made.length
  · exact .inl (by rwa [get?_add hlt] at hget)
  · have hle := index_lt_of_get? hget
    rw [length_add] at hle
    have heq : h.index = bags.made.length := by omega
    simp [get?, add, heq] at hget
    exact .inr ⟨heq, hget.symm⟩

theorem Step.wellMade (hstep : Step bags bags') (hbags : WellMade bags) : WellMade bags' := by
  rcases hstep.cases with ⟨made, rfl, hfall, hempty⟩ | ⟨g, old, t, hold, hmutable, rfl⟩ | rfl
  · constructor
    · intro h bag hget fallback hmem
      rcases get?_add_eq_some hget with hget | ⟨hindex, rfl⟩
      · exact hbags.valid h bag hget fallback hmem
      · rw [hindex]
        exact hfall fallback (List.mem_map_of_mem hmem)
    · intro h bag hget himmutable
      rcases get?_add_eq_some hget with hget | ⟨-, rfl⟩
      · exact hbags.empty_of_immutable h bag hget himmutable
      · exact hempty himmutable
  · constructor
    · intro h bag hget fallback hmem
      rw [get?_setStore, Option.map_eq_some_iff] at hget
      rcases hget with ⟨bag, hget, rfl⟩
      apply hbags.valid h bag hget fallback
      split at hmem <;> exact hmem
    · intro h bag hget himmutable
      rw [get?_setStore, Option.map_eq_some_iff] at hget
      rcases hget with ⟨bag, hget, rfl⟩
      split at himmutable
      · rename_i heq
        rw [heq, hget] at hold
        simp_all
      · rename_i hne
        rw [if_neg hne]
        exact hbags.empty_of_immutable h bag hget himmutable
  · exact hbags

theorem Step.keeps (hstep : Step bags bags') : Keeps bags bags' := by
  rcases hstep.cases with ⟨made, rfl, -, -⟩ | ⟨g, old, t, -, -, rfl⟩ | rfl
  · constructor
    · simp [length_add]
    · intro h hlt
      simp [fallbacks, get?_add hlt]
    · intro h hlt
      simp [isMutable, get?_add hlt]
  · constructor
    · simp [setStore]
    · intro h _
      cases hget : bags.get? h with
      | none => simp [fallbacks, get?_setStore, hget]
      | some bag =>
          simp only [fallbacks, get?_setStore, hget, Option.map_some, Option.getD_some]
          split <;> rfl
    · intro h _
      cases hget : bags.get? h with
      | none => simp [isMutable, get?_setStore, hget]
      | some bag =>
          simp only [isMutable, get?_setStore, hget, Option.map_some, Option.getD_some]
          split <;> rfl
  · exact ⟨Nat.le_refl _, fun _ _ => rfl, fun _ _ => rfl⟩

theorem Keeps.trans {first second third : Bags} (h₁ : Keeps first second)
    (h₂ : Keeps second third) : Keeps first third where
  length_le := Nat.le_trans h₁.length_le h₂.length_le
  fallbacks_eq h hlt :=
    (h₂.fallbacks_eq h (Nat.lt_of_lt_of_le hlt h₁.length_le)).trans (h₁.fallbacks_eq h hlt)
  isMutable_eq h hlt :=
    (h₂.isMutable_eq h (Nat.lt_of_lt_of_le hlt h₁.length_le)).trans (h₁.isMutable_eq h hlt)

theorem Later.keeps (hlater : Later bags bags') : Keeps bags bags' := by
  induction hlater with
  | refl => exact ⟨Nat.le_refl _, fun _ _ => rfl, fun _ _ => rfl⟩
  | tail _ hstep ih => exact ih.trans hstep.keeps

theorem made_none : Made none :=
  Relation.ReflTransGen.refl

theorem Made.later (hmade : Made bags) (hlater : Later bags bags') : Made bags' :=
  Relation.ReflTransGen.trans hmade hlater

theorem Made.step (hmade : Made bags) (hstep : Step bags bags') : Made bags' :=
  Relation.ReflTransGen.tail hmade hstep

theorem Made.wellMade (hmade : Made bags) : WellMade bags := by
  induction hmade with
  | refl => exact wellMade_none
  | tail _ hstep ih => exact hstep.wellMade ih

theorem Made.valid (hmade : Made bags) : bags.Valid :=
  hmade.wellMade.valid

end ObjectGraph.Bags
