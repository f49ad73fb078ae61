import ObjectGraph.Bag.Fallbacks

/-!
# Views of combined bags

Flattening the fallbacks of a bag looks only at bags that were made before it, so
bags made later do not change it. A bag that combines a new store without fallbacks
with an old bag is read through the store first and then as the old bag.
-/

namespace ObjectGraph.Bags

variable {bags bags' : Bags} {seen seen' queue : List Handle} {h : Handle} {bag : Bag} {n : Nat}

theorem index_lt_of_get? (hget : bags.get? h = some bag) : h.index < bags.made.length :=
  (List.getElem?_eq_some_iff.1 hget).1

theorem get?_add (hlt : h.index < bags.made.length) : (bags.add bag).2.get? h = bags.get? h :=
  List.getElem?_append_left hlt

theorem get?_add_self (bags : Bags) (bag : Bag) :
    (bags.add bag).2.get? (bags.add bag).1 = some bag := by
  simp [get?, add]

theorem index_add (bags : Bags) (bag : Bag) : (bags.add bag).1.index = bags.made.length :=
  rfl

theorem length_add (bags : Bags) (bag : Bag) :
    (bags.add bag).2.made.length = bags.made.length + 1 := by
  simp [add]

/-- Flattening the first bags does not depend on the other bags. -/
theorem preorder_congr (hget : ∀ h, h.index < n → bags'.get? h = bags.get? h)
    (hfall : ∀ h bag, h.index < n → bags.get? h = some bag →
      ∀ fallback ∈ bag.fallbacks, fallback.index < n)
    (hseen : ∀ h, h.index < n → (h ∈ seen' ↔ h ∈ seen)) (hqueue : ∀ h ∈ queue, h.index < n) :
    bags'.preorder seen' queue = bags.preorder seen queue := by
  fun_induction preorder bags seen queue generalizing seen' with
  | case1 => rw [preorder]
  | case2 seen h rest hmem ih =>
      have hlt := hqueue h List.mem_cons_self
      rw [preorder, dif_pos ((hseen h hlt).2 hmem)]
      exact ih hseen fun g hg => hqueue g (List.mem_cons_of_mem h hg)
  | case3 seen h rest hmem hnone ih =>
      have hlt := hqueue h List.mem_cons_self
      rw [preorder, dif_neg fun hs => hmem ((hseen h hlt).1 hs)]
      split
      · exact ih hseen fun g hg => hqueue g (List.mem_cons_of_mem h hg)
      · rename_i bag hbag
        rw [hget h hlt, hnone] at hbag
        cases hbag
  | case4 seen h rest hmem bag hbag ih =>
      have hlt := hqueue h List.mem_cons_self
      rw [preorder, dif_neg fun hs => hmem ((hseen h hlt).1 hs)]
      split
      · rename_i hnone
        rw [hget h hlt, hbag] at hnone
        cases hnone
      · rename_i bag' hbag'
        rw [hget h hlt, hbag] at hbag'
        obtain rfl := Option.some.inj hbag'
        rw [ih]
        · intro g hg
          rw [List.mem_cons, List.mem_cons, hseen g hg]
        · intro g hg
          rcases List.mem_append.1 hg with hg | hg
          · exact hfall h bag hlt hbag g hg
          · exact hqueue g (List.mem_cons_of_mem h hg)

/-- Flattening stays among the first bags. -/
theorem index_lt_of_mem_preorder
    (hfall : ∀ h bag, h.index < n → bags.get? h = some bag →
      ∀ fallback ∈ bag.fallbacks, fallback.index < n)
    (hqueue : ∀ h ∈ queue, h.index < n) (hh : h ∈ bags.preorder seen queue) : h.index < n := by
  fun_induction preorder bags seen queue with
  | case1 => cases hh
  | case2 seen g rest hmem ih =>
      exact ih (fun f hf => hqueue f (List.mem_cons_of_mem g hf)) hh
  | case3 seen g rest hmem hnone ih =>
      exact ih (fun f hf => hqueue f (List.mem_cons_of_mem g hf)) hh
  | case4 seen g rest hmem bag hbag ih =>
      have hlt := hqueue g List.mem_cons_self
      rcases List.mem_cons.1 hh with rfl | hh
      · exact hlt
      · refine ih (fun f hf => ?_) hh
        rcases List.mem_append.1 hf with hf | hf
        · exact hfall g bag hlt hbag f hf
        · exact hqueue f (List.mem_cons_of_mem g hf)

theorem preorder_cons_of_get? {rest : List Handle} (hmem : h ∉ seen)
    (hget : bags.get? h = some bag) :
    bags.preorder seen (h :: rest) = h :: bags.preorder (h :: seen) (bag.fallbacks ++ rest) := by
  rw [preorder, dif_neg hmem]
  split
  · rename_i hnone
    rw [hget] at hnone
    cases hnone
  · rename_i bag' hbag'
    rw [hget] at hbag'
    rw [Option.some.inj hbag']

theorem fallback_lt (hbags : bags.Valid) (h : Handle) (bag : Bag)
    (hlt : h.index < bags.made.length) (hget : bags.get? h = some bag) :
    ∀ fallback ∈ bag.fallbacks, fallback.index < bags.made.length :=
  fun fallback hf => Nat.lt_trans (hbags h bag hget fallback hf) hlt

theorem store_eq_of_get? (hget : bags.get? h = some bag) : bags.store h = bag.store := by
  rw [store, hget]
  rfl

theorem fallbacks_eq_of_get? (hget : bags.get? h = some bag) :
    bags.fallbacks h = bag.fallbacks := by
  rw [fallbacks, hget]
  rfl

/-- A new store over an old bag is read before it. -/
theorem view_combine (hbags : bags.Valid) (s : Store) (hget : bags.get? h = some bag) :
    ((bags.ofStore s).2.combine [some (bags.ofStore s).1, some h]).2.view
        ((bags.ofStore s).2.combine [some (bags.ofStore s).1, some h]).1 =
      ⟨∅ :: s :: (bags.view h).layers⟩ := by
  have hlt := index_lt_of_get? hget
  generalize htop : (bags.ofStore s).2.combine [some (bags.ofStore s).1, some h] = top
  have hold : ∀ g : Handle, g.index < bags.made.length → top.2.get? g = bags.get? g := by
    intro g hg
    rw [← htop, combine, get?_add (by rw [ofStore, length_add]; exact Nat.lt_succ_of_lt hg)]
    exact get?_add hg
  have hnew : top.2.get? (bags.ofStore s).1 = some ⟨s, [], true⟩ := by
    rw [← htop, combine, get?_add (by rw [ofStore, length_add]; exact Nat.lt_succ_self _)]
    exact get?_add_self _ _
  have hindex : (bags.ofStore s).1.index = bags.made.length := rfl
  have htopIndex : top.1.index = bags.made.length + 1 := by
    rw [← htop, combine, index_add, ofStore, length_add]
  have hself : top.2.get? top.1 = some ⟨∅, [(bags.ofStore s).1, h], false⟩ := by
    rw [← htop]
    exact get?_add_self _ _
  have hflat : top.2.flatFallbacks top.1 = (bags.ofStore s).1 :: h :: bags.flatFallbacks h := by
    have hne : (bags.ofStore s).1 ∉ [top.1] := by
      intro hmem
      rw [List.mem_singleton.1 hmem] at hindex
      omega
    have hrest : ∀ g : Handle, g.index < bags.made.length → g ∉ [(bags.ofStore s).1, top.1] := by
      intro g hg hmem
      simp only [List.mem_cons, List.not_mem_nil, or_false] at hmem
      rcases hmem with rfl | rfl <;> omega
    rw [flatFallbacks, fallbacks_eq_of_get? hself, preorder_cons_of_get? hne hnew, List.nil_append,
      preorder_cons_of_get? (hrest h hlt) ((hold h hlt).trans hget), List.append_nil, flatFallbacks,
      fallbacks_eq_of_get? hget]
    congr 2
    refine preorder_congr hold (fallback_lt hbags) ?_ (fallback_lt hbags h bag hlt hget)
    intro g hg
    rw [List.mem_cons, List.mem_singleton]
    exact ⟨fun hmem => hmem.resolve_right (hrest g hg), Or.inl⟩
  have hstores :
      (bags.flatFallbacks h).map top.2.store = (bags.flatFallbacks h).map bags.store := by
    refine List.map_congr_left fun g hg => ?_
    rw [flatFallbacks, fallbacks_eq_of_get? hget] at hg
    have hg := index_lt_of_mem_preorder (fallback_lt hbags) (fallback_lt hbags h bag hlt hget) hg
    rw [store, hold g hg, store]
  rw [view, view, hflat, store_eq_of_get? hself, View.ofStore, View.ofStore, List.map_cons,
    List.map_cons, store_eq_of_get? hnew, hstores,
    store_eq_of_get? ((hold h hlt).trans hget), store_eq_of_get? hget]

end ObjectGraph.Bags
