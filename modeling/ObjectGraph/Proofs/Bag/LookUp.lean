import ObjectGraph.Proofs.Bag.Preorder

/-!
# Look-ups through fallbacks

A bag answers a look-up with the entry of its own store, or else with the answer
of the first of its fallbacks that has one. Reading through the flattened fallbacks
gives the same answers: they are the fallbacks written out in full without later
repetitions, and a bag that had no entry the first time has none the second time.
A combined bag holds nothing itself, so it answers as the first of the given bags
that has an answer, also after later writes to these bags.
-/

namespace ObjectGraph

theorem findSome?_firsts {α β : Type} [DecidableEq α] (f : α → Option β) {seen : List α}
    (hseen : ∀ a ∈ seen, f a = none) (l : List α) :
    (firsts seen l).findSome? f = l.findSome? f := by
  induction l generalizing seen with
  | nil => rfl
  | cons a l ih =>
      by_cases ha : a ∈ seen
      · rw [firsts_cons_of_mem l ha, ih hseen]
        simp [hseen a ha]
      · rw [firsts_cons_of_not_mem l ha]
        cases hfind : f a with
        | some b => simp [hfind]
        | none =>
            have hseen' : ∀ b ∈ a :: seen, f b = none := by
              intro b hb
              rcases List.mem_cons.1 hb with rfl | hb
              · exact hfind
              · exact hseen b hb
            simp [hfind, ih hseen']

/-- Only first occurrences matter for the first answer. -/
theorem findSome?_eraseDups {α β : Type} [DecidableEq α] (f : α → Option β) (l : List α) :
    l.eraseDups.findSome? f = l.findSome? f := by
  have hnone : ∀ a ∈ ([] : List α), f a = none := by simp
  simpa [firsts] using findSome?_firsts f hnone l

theorem findSome?_congr {α β : Type} {f g : α → Option β} {l : List α}
    (h : ∀ a ∈ l, f a = g a) : l.findSome? f = l.findSome? g := by
  induction l with
  | nil => rfl
  | cons a l ih =>
      rw [List.findSome?_cons, List.findSome?_cons, h a List.mem_cons_self,
        ih fun b hb => h b (List.mem_cons_of_mem a hb)]

theorem Store.list?_empty (id : ObjectId) : empty.list? id = none := by
  simp [list?, empty]

theorem Store.dictEntry?_empty (id : ObjectId) (key : Item) : empty.dictEntry? id key = none := by
  rw [Store.dictEntry?, dict_empty, Dict.get?_empty]

/-- A view answers as a rule that picks the entry of one store among several. -/
structure View.AnswersBy (v : View) (rule : {α : Type} → (Store → Option α) → Option α) :
    Prop where
  attr : ∀ id name, v.attr id name = (rule fun s => s.attr? id name).getD .missing
  list? : ∀ id, v.list? id = rule fun s => s.list? id
  dictValue : ∀ id key, v.dictValue id key = (rule fun s => s.dictEntry? id key).getD .missing

namespace Bags

variable {α : Type} {bags bags' : Bags} {find : Store → Option α} {h : Handle}
  {given : List (Option Handle)}

/-- The entry in the own store of a bag, or else the answer of the first fallback that has one. -/
def lookUp (bags : Bags) (hbags : bags.Valid) (find : Store → Option α) (h : Handle) : Option α :=
  (find (bags.store h)).or
    ((bags.fallbacks h).attach.findSome? fun f => lookUp bags hbags find f.1)
termination_by h.index
decreasing_by exact FallsBackOn.index_lt hbags f.2

theorem lookUp_eq (hbags : bags.Valid) (find : Store → Option α) (h : Handle) :
    bags.lookUp hbags find h =
      (find (bags.store h)).or ((bags.fallbacks h).findSome? (bags.lookUp hbags find)) := by
  rw [lookUp]
  congr 1
  conv_rhs => rw [← List.attach_map_subtype_val (bags.fallbacks h), List.findSome?_map]
  rfl

/-- The first answer among bags written out in full is that of the first bag with one. -/
theorem findSome?_fullPreorders (hbags : bags.Valid) (f : Handle → Option α)
    (queue : List Handle) :
    (bags.fullPreorders hbags queue).findSome? f =
      queue.findSome? fun g => (g :: bags.fullPreorder hbags g).findSome? f := by
  induction queue with
  | nil => rfl
  | cons g queue ih =>
      rw [fullPreorders_cons, List.findSome?_append, ih]
      conv_rhs => rw [List.findSome?_cons]
      cases (g :: bags.fullPreorder hbags g).findSome? f <;> rfl

/-- The recursive look-up takes the first entry in the order of the bags written out. -/
theorem lookUp_eq_findSome? (hbags : bags.Valid) (find : Store → Option α) (h : Handle) :
    bags.lookUp hbags find h =
      (h :: bags.fullPreorder hbags h).findSome? fun g => find (bags.store g) := by
  induction hn : h.index using Nat.strongRecOn generalizing h with
  | ind n ih =>
      have hfall : ∀ g ∈ bags.fallbacks h, bags.lookUp hbags find g =
          (g :: bags.fullPreorder hbags g).findSome? fun g => find (bags.store g) := by
        intro g hg
        exact ih g.index (hn ▸ FallsBackOn.index_lt hbags hg) g rfl
      rw [lookUp_eq, fullPreorder_eq, List.findSome?_cons, findSome?_fullPreorders,
        findSome?_congr hfall]
      cases find (bags.store h) <;> rfl

/-- The first entry of the layers of a view is that of the recursive look-up. -/
theorem findSome?_view (hbags : bags.Valid) (find : Store → Option α) (h : Handle) :
    (bags.view h).layers.findSome? find = bags.lookUp hbags find h := by
  rw [lookUp_eq_findSome?, view, View.ofStore, ← List.map_cons (f := bags.store),
    List.findSome?_map, List.findSome?_cons, List.findSome?_cons, flatFallbacks_eq_eraseDups hbags,
    findSome?_eraseDups]
  rfl

/-- A bag is read by the recursive look-up. -/
theorem view_answersBy (hbags : bags.Valid) (h : Handle) :
    (bags.view h).AnswersBy fun find => bags.lookUp hbags find h where
  attr id name := by rw [View.attr, View.attr?, findSome?_view hbags]
  list? id := by rw [View.list?, findSome?_view hbags]
  dictValue id key := by rw [View.dictValue, View.dictEntry?, findSome?_view hbags]

theorem WellMade.store_eq_empty (hbags : WellMade bags) (himmutable : bags.isMutable h = false) :
    bags.store h = ∅ := by
  cases hget : bags.get? h with
  | none => simp [store, hget]
  | some bag =>
      rw [store_eq_of_get? hget]
      apply hbags.empty_of_immutable h bag hget
      simpa [isMutable, hget] using himmutable

/-- An empty bag answers as the first of its fallbacks that has an answer. -/
theorem lookUp_of_empty (hbags : bags.Valid) (hempty : bags.store h = ∅)
    (hfind : find ∅ = Option.none) :
    bags.lookUp hbags find h = (bags.fallbacks h).findSome? (bags.lookUp hbags find) := by
  rw [lookUp_eq, hempty, hfind, Option.none_or]

/-- An empty bag is read by looking through its fallbacks in order. -/
theorem view_answersBy_of_empty (hbags : bags.Valid) (hempty : bags.store h = ∅) :
    (bags.view h).AnswersBy fun find => (bags.fallbacks h).findSome? (bags.lookUp hbags find) := by
  have hview := view_answersBy hbags h
  constructor
  · intro id name
    rw [hview.attr, lookUp_of_empty hbags hempty (Store.attr?_empty id name)]
  · intro id
    rw [hview.list?, lookUp_of_empty hbags hempty (Store.list?_empty id)]
  · intro id key
    rw [hview.dictValue, lookUp_of_empty hbags hempty (Store.dictEntry?_empty id key)]

section Combined

variable {f g : Handle}

theorem mem_eraseDups_reduceOption : f ∈ given.reduceOption.eraseDups ↔ some f ∈ given := by
  rw [List.mem_eraseDups, List.reduceOption_mem_iff]

/-- Nothing comes of combining exactly if no bag is given. -/
theorem fst_commonOrCombined_eq_none_iff :
    (bags.commonOrCombined given).1 = Option.none ↔ ∀ g, some g ∉ given := by
  simp only [← mem_eraseDups_reduceOption, ← List.eq_nil_iff_forall_not_mem]
  rw [commonOrCombined_eq]
  split
  · rename_i hnil
    simp [hnil]
  · rename_i hone
    simp [hone]
  · rename_i hnil _
    simpa using hnil

/-- Two different bags are combined in a new immutable one with the different bags that are
given as its fallbacks. -/
theorem commonOrCombined_of_ne (bags : Bags) (hf : some f ∈ given) (hg : some g ∈ given)
    (hne : f ≠ g) :
    ∃ top bags', bags.commonOrCombined given = (some top, bags') ∧
      top.index = bags.made.length ∧ top.index < bags'.made.length ∧
      bags'.isMutable top = false ∧ bags'.fallbacks top = given.reduceOption.eraseDups := by
  rw [← mem_eraseDups_reduceOption] at hf hg
  rw [commonOrCombined_eq]
  split
  · rename_i hnil
    simp [hnil] at hf
  · rename_i h hone
    simp only [hone, List.mem_singleton] at hf hg
    exact absurd (hf.trans hg.symm) hne
  · have hself := get?_add_self bags
      ⟨∅, (given.reduceOption.eraseDups.map some).reduceOption, false⟩
    refine ⟨_, _, rfl, rfl, index_lt_of_get? hself, ?_, ?_⟩
    · simp [combine, isMutable, hself]
    · rw [combine, fallbacks_eq_of_get? hself]
      simp [List.reduceOption]

/-- A given bag comes back exactly if no other is given: combining makes a new one. -/
theorem fst_commonOrCombined_eq_some_iff (hgiven : bags.Has given) (hg : some g ∈ given) :
    (bags.commonOrCombined given).1 = some g ↔ ∀ f, some f ∈ given → f = g := by
  constructor
  · intro hcommon f hf
    by_contra hne
    have ⟨top, _, heq, htop, _⟩ := bags.commonOrCombined_of_ne hf hg hne
    rw [heq] at hcommon
    obtain rfl := Option.some.inj hcommon
    exact Nat.lt_irrefl _ (htop ▸ hgiven top hg)
  · intro hall
    simp only [← mem_eraseDups_reduceOption] at hg hall
    have hone : given.reduceOption.eraseDups = [g] := by
      rw [← List.perm_singleton,
        List.perm_ext_iff_of_nodup (nodup_eraseDups _) (List.nodup_singleton g)]
      intro f
      rw [List.mem_singleton]
      exact ⟨hall f, fun heq => heq ▸ hg⟩
    rw [commonOrCombined_eq, hone]

end Combined

/-- Reading through combined bags is a look-up by priority. However the bags came about,
immutable ones are empty and each is read by the recursive look-up. Combining gives nothing
where no bag is given and a bag back where no other is given; otherwise it gives an immutable
bag that answers, also later, as the first of the given ones that has an answer. -/
theorem reads_by_priority (hmade : Made bags) :
    (∀ b, bags.isMutable b = false → bags.store b = ∅) ∧
    (∀ b, (bags.view b).AnswersBy fun find => bags.lookUp hmade.valid find b) ∧
    ∀ given, bags.Has given →
      ((bags.commonOrCombined given).1 = Option.none ↔ ∀ g, some g ∉ given) ∧
      (∀ g, some g ∈ given →
        ((bags.commonOrCombined given).1 = some g ↔ ∀ f, some f ∈ given → f = g)) ∧
      ∀ f g, some f ∈ given → some g ∈ given → f ≠ g →
        ∃ top, (bags.commonOrCombined given).1 = some top ∧
          (bags.commonOrCombined given).2.isMutable top = false ∧
          ∀ later, Later (bags.commonOrCombined given).2 later →
            ∃ hlater : later.Valid, (later.view top).AnswersBy fun find =>
              given.reduceOption.findSome? (later.lookUp hlater find) := by
  refine ⟨fun b => hmade.wellMade.store_eq_empty, view_answersBy hmade.valid, ?_⟩
  intro given hgiven
  refine ⟨fst_commonOrCombined_eq_none_iff,
    fun g hg => fst_commonOrCombined_eq_some_iff hgiven hg, ?_⟩
  intro f g hf hg hne
  have ⟨top, bags', hcommon, _, htop, himmutable, hfall⟩ :=
    bags.commonOrCombined_of_ne hf hg hne
  have hmade' : Made bags' := by
    have hstep := Step.commonOrCombined given hgiven
    rw [hcommon] at hstep
    exact hmade.step hstep
  rw [hcommon]
  refine ⟨top, rfl, himmutable, ?_⟩
  intro later hlater
  have hkeeps := hlater.keeps
  have hwell := (hmade'.later hlater).wellMade
  have hempty : later.store top = ∅ :=
    hwell.store_eq_empty ((hkeeps.isMutable_eq top htop).trans himmutable)
  have hview := view_answersBy_of_empty hwell.valid hempty
  simp only [hkeeps.fallbacks_eq top htop, hfall, findSome?_eraseDups] at hview
  exact ⟨hwell.valid, hview⟩

def person : ObjectId :=
  ⟨1, 0, .entity⟩

/-- A store that hides a name, a store with the name, and the two combined. -/
def masked : Bags :=
  ⟨[⟨Store.empty.setAttr person "name" .missing, [], true⟩,
    ⟨Store.empty.setAttr person "name" (.text "Ada"), [], true⟩, ⟨∅, [⟨0⟩, ⟨1⟩], false⟩]⟩

theorem made_masked : Made masked := by
  have hstores := (made_none.step (.ofStore (Store.empty.setAttr person "name" .missing))).step
    (.ofStore (Store.empty.setAttr person "name" (.text "Ada")))
  exact hstores.step (.combine [some ⟨0⟩, some ⟨1⟩] (by simp [Has, ofStore, add, none]))

/-- The combined bag, nothing, the lower store and the combined bag again. -/
def again : List (Option Handle) :=
  [some ⟨2⟩, Option.none, some ⟨1⟩, some ⟨2⟩]

theorem has_again : masked.Has again := by
  simp [Has, again, masked]

/-- The name stays hidden where the lower store is given once more. -/
theorem attr_masked : Made masked ∧ masked.Has again ∧
    ∃ top, (masked.commonOrCombined again).1 = some top ∧
      ((masked.commonOrCombined again).2.view top).attr person "name" = .missing := by
  have hreads := (reads_by_priority made_masked).2.2 again has_again
  have ⟨top, htop, _, hanswers⟩ :=
    hreads.2.2 ⟨2⟩ ⟨1⟩ (by simp [again]) (by simp [again]) (by simp)
  have ⟨hvalid, hview⟩ := hanswers _ .refl
  refine ⟨made_masked, has_again, top, htop, ?_⟩
  have hupper : (masked.commonOrCombined again).2.lookUp hvalid
      (fun s => s.attr? person "name") ⟨0⟩ = some .missing := by
    have hstore : (masked.commonOrCombined again).2.store ⟨0⟩ =
        Store.empty.setAttr person "name" .missing := rfl
    rw [lookUp_eq, hstore, Store.attr?_setAttr, if_pos ⟨rfl, rfl⟩, Option.some_or]
  have hcombined : (masked.commonOrCombined again).2.lookUp hvalid
      (fun s => s.attr? person "name") ⟨2⟩ = some .missing := by
    have hfall : (masked.commonOrCombined again).2.fallbacks ⟨2⟩ = [⟨0⟩, ⟨1⟩] := rfl
    rw [lookUp_of_empty hvalid rfl (Store.attr?_empty person "name"), hfall,
      List.findSome?_cons, hupper]
  have horder : again.reduceOption = [⟨2⟩, ⟨1⟩, ⟨2⟩] := rfl
  rw [hview.attr, horder, List.findSome?_cons, hcombined]
  rfl

end Bags

end ObjectGraph
