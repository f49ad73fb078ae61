import ObjectGraph.Proofs.Bag.History
import ObjectGraph.Proofs.Store.Reading

/-!
# The order of flattened fallbacks

Written out in full, the fallbacks of a bag are its fallbacks in order, each
followed by its own fallbacks written out in full. Shared bags are repeated there,
so the list can be exponentially long. The flattened fallbacks are its first
occurrences: when a bag comes up again, the first visit has taken up everything
below it, so skipping it loses nothing.
-/

namespace ObjectGraph

section Firsts

variable {α : Type} [DecidableEq α] {seen : List α} {a : α}

/-- The first occurrences in a list of what was not seen before. -/
def firsts (seen l : List α) : List α :=
  (l.filter fun a => a ∉ seen).eraseDups

@[simp]
theorem firsts_nil (seen : List α) : firsts seen [] = [] :=
  rfl

theorem firsts_congr {seen' : List α} (l : List α) (h : ∀ a, a ∈ seen' ↔ a ∈ seen) :
    firsts seen' l = firsts seen l := by
  simp [firsts, h]

theorem firsts_cons_of_mem (l : List α) (h : a ∈ seen) : firsts seen (a :: l) = firsts seen l := by
  simp [firsts, h]

theorem firsts_cons_of_not_mem (l : List α) (h : a ∉ seen) :
    firsts seen (a :: l) = a :: firsts (a :: seen) l := by
  have hfilter : (l.filter fun b => b ∉ a :: seen) =
      (l.filter fun b => b ∉ seen).filter fun b => !b == a := by
    rw [List.filter_filter]
    apply List.filter_congr
    intro b _
    simp [Bool.beq_eq_decide_eq]
  rw [firsts, List.filter_cons_of_pos (by simpa using h), List.eraseDups_cons, firsts, hfilter]

/-- What comes later is compared with what came before. -/
theorem firsts_append (seen l m : List α) :
    firsts seen (l ++ m) = firsts seen l ++ firsts (l ++ seen) m := by
  induction l generalizing seen with
  | nil => simp
  | cons a l ih =>
      by_cases h : a ∈ seen
      · rw [List.cons_append, firsts_cons_of_mem _ h, firsts_cons_of_mem _ h, ih]
        congr 1
        apply firsts_congr
        intro b
        by_cases hb : b = a <;> simp [hb, h]
      · rw [List.cons_append, firsts_cons_of_not_mem _ h, firsts_cons_of_not_mem _ h, ih,
          List.cons_append]
        congr 2
        apply firsts_congr
        intro b
        simp [or_left_comm]

theorem firsts_of_subset {l : List α} (h : l ⊆ seen) : firsts seen l = [] := by
  rw [firsts, List.filter_eq_nil_iff.2 fun a ha => by simpa using h ha, List.eraseDups_nil]

end Firsts

namespace Bags

variable {bags : Bags} {h f g : Handle} {bag : Bag} {n : Nat}

/-- The bag `f` is one of the fallbacks that `b` was made with. -/
def FallsBackOn (bags : Bags) (b f : Handle) : Prop :=
  f ∈ bags.fallbacks b

theorem FallsBackOn.exists_get? (hf : bags.FallsBackOn h f) :
    ∃ bag, bags.get? h = some bag ∧ f ∈ bag.fallbacks := by
  cases hget : bags.get? h with
  | none => simp [FallsBackOn, fallbacks, hget] at hf
  | some bag => exact ⟨bag, rfl, by simpa [FallsBackOn, fallbacks, hget] using hf⟩

theorem FallsBackOn.index_lt (hbags : bags.Valid) (hf : bags.FallsBackOn h f) :
    f.index < h.index := by
  obtain ⟨bag, hget, hmem⟩ := hf.exists_get?
  exact hbags h bag hget f hmem

/-- The fallbacks of a bag with all of theirs, written out without looking for repetitions. -/
def fullPreorder (bags : Bags) (hbags : bags.Valid) (h : Handle) : List Handle :=
  (bags.fallbacks h).attach.flatMap fun f => f.1 :: fullPreorder bags hbags f.1
termination_by h.index
decreasing_by exact FallsBackOn.index_lt hbags f.2

/-- Everything that is reached from a list of bags, written out. -/
def fullPreorders (bags : Bags) (hbags : bags.Valid) (queue : List Handle) : List Handle :=
  queue.flatMap fun f => f :: bags.fullPreorder hbags f

theorem fullPreorder_eq (hbags : bags.Valid) (h : Handle) :
    bags.fullPreorder hbags h = bags.fullPreorders hbags (bags.fallbacks h) := by
  rw [fullPreorder, fullPreorders,
    ← List.flatMap_map Subtype.val fun f => f :: bags.fullPreorder hbags f,
    List.attach_map_subtype_val]

theorem fullPreorders_cons (hbags : bags.Valid) (h : Handle) (queue : List Handle) :
    bags.fullPreorders hbags (h :: queue) =
      h :: bags.fullPreorder hbags h ++ bags.fullPreorders hbags queue :=
  rfl

/-- Writing out reaches what fallbacks lead to. -/
theorem mem_fullPreorder (hbags : bags.Valid) (h g : Handle) :
    g ∈ bags.fullPreorder hbags h ↔ Relation.TransGen bags.FallsBackOn h g := by
  induction hn : h.index using Nat.strongRecOn generalizing h with
  | ind n ih =>
      rw [fullPreorder_eq, fullPreorders, List.mem_flatMap, Relation.TransGen.head'_iff]
      apply exists_congr
      intro f
      apply and_congr_right
      intro hf
      have hlt := FallsBackOn.index_lt hbags hf
      rw [List.mem_cons, ih f.index (hn ▸ hlt) f rfl, Relation.reflTransGen_iff_eq_or_transGen]

theorem index_lt_of_mem_fullPreorder (hbags : bags.Valid) (hg : g ∈ bags.fullPreorder hbags h) :
    g.index < h.index := by
  rw [mem_fullPreorder] at hg
  induction hg with
  | single hf => exact hf.index_lt hbags
  | tail _ hf ih => exact Nat.lt_trans (hf.index_lt hbags) ih

/-- What a bag reaches is written out with it. -/
theorem fullPreorder_subset (hbags : bags.Valid) (hg : g ∈ bags.fullPreorder hbags h) :
    bags.fullPreorder hbags g ⊆ bags.fullPreorder hbags h := by
  intro f hf
  rw [mem_fullPreorder] at hf hg ⊢
  exact hg.trans hf

/-- Bags below `n` that were seen were seen with everything they reach. -/
def ClosedBelow (bags : Bags) (hbags : bags.Valid) (n : Nat) (seen : List Handle) : Prop :=
  ∀ g ∈ seen, g.index < n → bags.fullPreorder hbags g ⊆ seen

theorem ClosedBelow.cons {hbags : bags.Valid} {seen : List Handle}
    (hclosed : bags.ClosedBelow hbags n seen) (h : Handle) :
    bags.ClosedBelow hbags n (h :: bags.fullPreorder hbags h ++ seen) := by
  intro g hg hlt f hf
  simp only [List.cons_append, List.mem_cons, List.mem_append] at hg ⊢
  rcases hg with rfl | hg | hg
  · exact .inr (.inl hf)
  · exact .inr (.inl (fullPreorder_subset hbags hg hf))
  · exact .inr (.inr (hclosed g hg hlt hf))

/-- Flattening depends on which bags were seen and not on the order. -/
theorem preorder_seen_congr {seen seen' queue : List Handle} (hbags : bags.Valid)
    (hqueue : ∀ g ∈ queue, g.index < bags.made.length) (hseen : ∀ g, g ∈ seen' ↔ g ∈ seen) :
    bags.preorder seen' queue = bags.preorder seen queue :=
  preorder_congr (fun _ _ => rfl) (fallback_lt hbags) (fun g _ => hseen g) hqueue

/-- Flattening takes up the first occurrences of what is reached from the front of the queue.
The induction is on a bound for the handles there, so that what was seen of lower handles
is closed, and along the front. -/
theorem preorder_append (hbags : bags.Valid) {seen front rest : List Handle}
    (hn : n ≤ bags.made.length) (hclosed : bags.ClosedBelow hbags n seen)
    (hfront : ∀ g ∈ front, g.index < n) (hrest : ∀ g ∈ rest, g.index < bags.made.length) :
    bags.preorder seen (front ++ rest) =
      firsts seen (bags.fullPreorders hbags front) ++
        bags.preorder (bags.fullPreorders hbags front ++ seen) rest := by
  induction n using Nat.strongRecOn generalizing seen front rest with
  | ind n ih =>
    induction front generalizing seen with
    | nil => simp [fullPreorders]
    | cons h front ihFront =>
      have hlt := hfront h List.mem_cons_self
      have hfront' : ∀ g ∈ front, g.index < n := fun g hg => hfront g (List.mem_cons_of_mem h hg)
      have hqueue : ∀ g ∈ front ++ rest, g.index < bags.made.length := by
        intro g hg
        rcases List.mem_append.1 hg with hg | hg
        · exact Nat.lt_of_lt_of_le (hfront' g hg) hn
        · exact hrest g hg
      have hhead : bags.preorder seen (h :: (front ++ rest)) =
          firsts seen (h :: bags.fullPreorder hbags h) ++
            bags.preorder (h :: bags.fullPreorder hbags h ++ seen) (front ++ rest) := by
        by_cases hmem : h ∈ seen
        · -- Everything below a bag that was seen was seen with it.
          have hsub : h :: bags.fullPreorder hbags h ⊆ seen :=
            List.cons_subset.2 ⟨hmem, hclosed h hmem hlt⟩
          rw [preorder, dif_pos hmem, firsts_of_subset hsub, List.nil_append]
          apply preorder_seen_congr hbags hqueue
          intro g
          rw [List.mem_append]
          exact ⟨Or.inr, fun hg => hg.elim (fun hg => hsub hg) id⟩
        · obtain ⟨bag, hget⟩ : ∃ bag, bags.get? h = some bag :=
            ⟨_, List.getElem?_eq_getElem (Nat.lt_of_lt_of_le hlt hn)⟩
          have hbelow : bags.ClosedBelow hbags h.index (h :: seen) := by
            intro g hg hgh
            rcases List.mem_cons.1 hg with rfl | hg
            · exact absurd hgh (Nat.lt_irrefl _)
            · exact List.subset_cons_of_subset h (hclosed g hg (Nat.lt_trans hgh hlt))
          rw [preorder_cons_of_get? hmem hget, ih h.index hlt (by omega) hbelow
            (hbags h bag hget) hqueue, firsts_cons_of_not_mem _ hmem, fullPreorder_eq,
            fallbacks_eq_of_get? hget, List.cons_append]
          congr 2
          apply preorder_seen_congr hbags hqueue
          intro g
          simp [or_left_comm]
      rw [List.cons_append, hhead, ihFront (hclosed.cons h) hfront', fullPreorders_cons,
        firsts_append, List.append_assoc]
      congr 2
      apply preorder_seen_congr hbags hrest
      intro g
      simp only [List.mem_append]
      tauto

/-- The flattened fallbacks are the first occurrences among the fallbacks written out. -/
theorem flatFallbacks_eq_eraseDups (hbags : bags.Valid) (h : Handle) :
    bags.flatFallbacks h = (bags.fullPreorder hbags h).eraseDups := by
  cases hget : bags.get? h with
  | none =>
      have hfall : bags.fallbacks h = [] := by simp [fallbacks, hget]
      rw [flatFallbacks, fullPreorder_eq, hfall, preorder]
      rfl
  | some bag =>
      have hbelow : bags.ClosedBelow hbags h.index [h] := by
        intro g hg hlt
        rw [List.mem_singleton.1 hg] at hlt
        exact absurd hlt (Nat.lt_irrefl _)
      have hrest : ∀ g ∈ ([] : List Handle), g.index < bags.made.length := by simp
      have happend := preorder_append hbags (Nat.le_of_lt (index_lt_of_get? hget)) hbelow
        (fun f hf => FallsBackOn.index_lt hbags hf) hrest
      have hfirsts : firsts [h] (bags.fullPreorder hbags h) =
          (bags.fullPreorder hbags h).eraseDups := by
        rw [firsts, List.filter_eq_self.2]
        intro g hg
        have hlt := index_lt_of_mem_fullPreorder hbags hg
        have hne : g ≠ h := fun heq => Nat.lt_irrefl _ (heq ▸ hlt)
        simpa using hne
      rw [List.append_nil, ← fullPreorder_eq, hfirsts, preorder, List.append_nil] at happend
      exact happend

/-- However the bags came about, the flattened fallbacks of a bag are the first occurrences
among its fallbacks written out in full: each bag that some fallback steps lead to, once, and
not the bag itself. -/
theorem flatFallbacks_spec (hmade : Made bags) (b : Handle) :
    bags.flatFallbacks b = (bags.fullPreorder hmade.valid b).eraseDups ∧
      (bags.flatFallbacks b).Nodup ∧ b ∉ bags.flatFallbacks b ∧
      ∀ h, h ∈ bags.flatFallbacks b ↔ Relation.TransGen bags.FallsBackOn b h := by
  have heq := flatFallbacks_eq_eraseDups hmade.valid b
  have hmem : ∀ h, h ∈ bags.flatFallbacks b ↔ h ∈ bags.fullPreorder hmade.valid b := by
    intro h
    rw [heq, List.mem_eraseDups]
  refine ⟨heq, ?_, ?_, ?_⟩
  · rw [heq]
    exact nodup_eraseDups _
  · rw [hmem]
    exact fun hb => Nat.lt_irrefl _ (index_lt_of_mem_fullPreorder hmade.valid hb)
  · intro h
    rw [hmem, mem_fullPreorder]

/-- Two stores, two bags over the second of them, and one bag over all. -/
def diamond : Bags :=
  ⟨[⟨∅, [], true⟩, ⟨∅, [], true⟩, ⟨∅, [⟨1⟩], false⟩, ⟨∅, [⟨1⟩], false⟩,
    ⟨∅, [⟨0⟩, ⟨2⟩, ⟨3⟩], false⟩]⟩

theorem made_diamond : Made diamond := by
  have hstores := (made_none.step (.ofStore ∅)).step (.ofStore ∅)
  have hover := (hstores.step (.combine [some ⟨1⟩] (by simp [Has, ofStore, add, none]))).step
    (.combine [some ⟨1⟩] (by simp [Has, combine, ofStore, add, none]))
  exact hover.step (.commonOrCombined [some ⟨0⟩, some ⟨2⟩, Option.none, some ⟨3⟩, some ⟨0⟩]
    (by simp [Has, combine, ofStore, add, none]))

/-- The second store comes with the first bag over it. -/
theorem flatFallbacks_diamond :
    Made diamond ∧ diamond.flatFallbacks ⟨4⟩ = [⟨0⟩, ⟨2⟩, ⟨1⟩, ⟨3⟩] := by
  refine ⟨made_diamond, ?_⟩
  have hleaf : ∀ h, diamond.fallbacks h = [] → diamond.fullPreorder made_diamond.valid h = [] := by
    intro h hfall
    rw [fullPreorder_eq, hfall]
    rfl
  have hover : ∀ h, diamond.fallbacks h = [⟨1⟩] →
      diamond.fullPreorder made_diamond.valid h = [⟨1⟩] := by
    intro h hfall
    rw [fullPreorder_eq, hfall, fullPreorders_cons, hleaf ⟨1⟩ rfl]
    rfl
  have htop : diamond.fullPreorder made_diamond.valid ⟨4⟩ = [⟨0⟩, ⟨2⟩, ⟨1⟩, ⟨3⟩, ⟨1⟩] := by
    rw [fullPreorder_eq, show diamond.fallbacks ⟨4⟩ = [⟨0⟩, ⟨2⟩, ⟨3⟩] from rfl,
      fullPreorders_cons, fullPreorders_cons, fullPreorders_cons, hleaf ⟨0⟩ rfl, hover ⟨2⟩ rfl,
      hover ⟨3⟩ rfl]
    rfl
  rw [(flatFallbacks_spec made_diamond ⟨4⟩).1, htop]
  decide

end Bags

end ObjectGraph
