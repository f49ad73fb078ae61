import Mathlib.Data.List.Basic
import ObjectGraph.Store.Write

/-!
# Facts of a store

A store is read here as the set of facts that it says: the value of an attribute,
the items of a list, the entries of a dict in order. A write that does not
contradict the store adds its own fact and keeps the others, `Adds`. So a sequence
of such writes says the union of its facts, in whatever order it runs, and this is
what a copy of a graph comes down to.

A dict without entries says nothing, as does an unknown one.
-/

namespace ObjectGraph

/-- One thing that a store can say. -/
inductive Fact where
  | attr (id : ObjectId) (name : String) (value : Item)
  | list (id : ObjectId) (items : List Item)
  | dict (id : ObjectId) (entries : List (Item × Item))

/-- The id that a fact is about. -/
def Fact.subject : Fact → ObjectId
  | .attr id _ _ => id
  | .list id _ => id
  | .dict id _ => id

namespace Dict

/-- Setting a key to the value that it has changes nothing. -/
theorem set_of_get? {d : Dict} {key value : Item} (h : d.get? key = some value) :
    d.set key value = d := by
  obtain ⟨entries⟩ := d
  simp only [get?, set, mk.injEq] at h ⊢
  induction entries with
  | nil => simp at h
  | cons e entries ih =>
      by_cases he : e.1 = key
      · subst he
        have hvalue : e.2 = value := by simpa using h
        simp [setEntry, ← hvalue]
      · rw [List.find?_cons_of_neg (by simpa using he)] at h
        simp [setEntry, he, ih h]

theorem get?_of_mem {d : Dict} (hd : d.Valid) {e : Item × Item} (he : e ∈ d.entries) :
    d.get? e.1 = some e.2 := by
  obtain ⟨entries⟩ := d
  simp only [Valid, keys, get?] at hd he ⊢
  induction entries with
  | nil => simp at he
  | cons a entries ih =>
      rw [List.map_cons, List.nodup_cons] at hd
      rcases List.mem_cons.1 he with rfl | he
      · simp
      · have hne : a.1 ≠ e.1 := fun h => hd.1 (h ▸ List.mem_map.2 ⟨e, he, rfl⟩)
        rw [List.find?_cons_of_neg (by simpa using hne)]
        exact ih hd.2 he

theorem entries_set_of_notMem {d : Dict} {key value : Item} (h : key ∉ d.keys) :
    (d.set key value).entries = d.entries ++ [(key, value)] := by
  obtain ⟨entries⟩ := d
  simp only [keys, set] at h ⊢
  induction entries with
  | nil => rfl
  | cons e entries ih =>
      rw [List.map_cons, List.mem_cons, not_or] at h
      simp [setEntry, Ne.symm h.1, ih h.2]

/-- Sets keys one after another. -/
def setAll (d : Dict) (entries : List (Item × Item)) : Dict :=
  entries.foldl (fun d e => d.set e.1 e.2) d

theorem entries_setAll_of_nodup {d : Dict} {entries : List (Item × Item)}
    (h : (d.keys ++ entries.map Prod.fst).Nodup) :
    (d.setAll entries).entries = d.entries ++ entries := by
  induction entries generalizing d with
  | nil => simp [setAll]
  | cons e entries ih =>
      have hnew : e.1 ∉ d.keys := by
        intro hmem
        exact (List.nodup_append.1 h).2.2 _ hmem _ (List.mem_cons_self) rfl
      have hset : (d.set e.1 e.2).entries = d.entries ++ [(e.1, e.2)] :=
        entries_set_of_notMem hnew
      have hkeys : (d.set e.1 e.2).keys = d.keys ++ [e.1] := by
        rw [keys_set, if_neg hnew]
      have ih := ih (d := d.set e.1 e.2) (by simpa [hkeys] using h)
      rw [setAll, List.foldl_cons, ← setAll, ih, hset]
      simp

theorem setAll_of_forall_get? {d : Dict} {entries : List (Item × Item)}
    (h : ∀ e ∈ entries, d.get? e.1 = some e.2) : d.setAll entries = d := by
  induction entries with
  | nil => rfl
  | cons e entries ih =>
      rw [setAll, List.foldl_cons, set_of_get? (h e List.mem_cons_self), ← setAll]
      exact ih fun a ha => h a (List.mem_cons_of_mem e ha)

/-- Copying entries into a dict that has none of them, or already all of them, makes
it have exactly these. -/
theorem entries_setAll {d : Dict} {entries : List (Item × Item)}
    (hnodup : (entries.map Prod.fst).Nodup) (h : d.entries = [] ∨ d.entries = entries) :
    (d.setAll entries).entries = entries := by
  rcases h with h | h
  · rw [entries_setAll_of_nodup (by simpa [keys, h] using hnodup), h, List.nil_append]
  · rw [setAll_of_forall_get?, h]
    intro e he
    refine get?_of_mem ?_ (h ▸ he)
    rw [Valid, keys, h]
    exact hnodup

end Dict

namespace Store

/-- The facts of a store. -/
def Says (s : Store) : Fact → Prop
  | .attr id name value => s.attr? id name = some value
  | .list id items => s.list? id = some items
  | .dict id entries => (s.dict id).entries = entries ∧ entries ≠ []

/-- The facts of `t` are those of `s` and the given ones. -/
def Adds (s t : Store) (F : Fact → Prop) : Prop :=
  ∀ f, t.Says f ↔ s.Says f ∨ F f

theorem not_says_empty (f : Fact) : ¬ (∅ : Store).Says f := by
  cases f with
  | attr id name value =>
      intro h
      rw [Says, show (∅ : Store) = empty from rfl, attr?_empty] at h
      cases h
  | list id items => simp [Says, list?, show (∅ : Store) = empty from rfl, empty]
  | dict id entries =>
      rintro ⟨h, hne⟩
      exact hne (h.symm.trans (by
        simp [dict, show (∅ : Store) = empty from rfl, empty, Dict.empty]))

variable {s t u : Store} {F G : Fact → Prop}

theorem Adds.refl (h : ∀ f, ¬ F f) : Adds s s F := by
  intro f
  simp [h f]

theorem Adds.trans (hst : Adds s t F) (htu : Adds t u G) :
    Adds s u fun f => F f ∨ G f := by
  intro f
  rw [htu f, hst f, or_assoc]

theorem Adds.congr (h : Adds s t F) (hFG : ∀ f, F f ↔ G f) : Adds s t G := by
  intro f
  rw [h f, hFG f]

theorem adds_setAttr {id : ObjectId} {name : String} {value : Item}
    (h : ∀ v, s.Says (.attr id name v) → v = value) :
    Adds s (s.setAttr id name value) (· = .attr id name value) := by
  intro f
  cases f with
  | attr other otherName v =>
      simp only [Says, attr?_setAttr, Fact.attr.injEq]
      split
      · rename_i heq
        obtain ⟨rfl, rfl⟩ := heq
        constructor
        · intro hv
          exact Or.inr ⟨rfl, rfl, (Option.some.inj hv).symm⟩
        · rintro (hv | ⟨-, -, rfl⟩)
          · rw [h v hv]
          · rfl
      · rename_i hne
        constructor
        · exact Or.inl
        · rintro (hv | ⟨rfl, rfl, -⟩)
          · exact hv
          · exact absurd ⟨rfl, rfl⟩ hne
  | list other items => simp [Says]
  | dict other entries => simp [Says]

theorem adds_putList {id : ObjectId} {items : List Item}
    (h : ∀ l, s.Says (.list id l) → l = items) :
    Adds s (s.putList id items) (· = .list id items) := by
  intro f
  cases f with
  | list other l =>
      simp only [Says, list?_putList, Fact.list.injEq]
      split
      · rename_i heq
        subst heq
        constructor
        · intro hl
          exact Or.inr ⟨rfl, (Option.some.inj hl).symm⟩
        · rintro (hl | ⟨-, rfl⟩)
          · rw [h l hl]
          · rfl
      · rename_i hne
        constructor
        · exact Or.inl
        · rintro (hl | ⟨rfl, -⟩)
          · exact hl
          · exact absurd rfl hne
  | attr other name v => simp [Says]
  | dict other entries => simp [Says]

/-- Sets keys of a dict one after another. -/
def putAll (s : Store) (id : ObjectId) (entries : List (Item × Item)) : Store :=
  entries.foldl (fun s e => s.putInDict id e.1 e.2) s

theorem dict_putAll (s : Store) (id other : ObjectId) (entries : List (Item × Item)) :
    (s.putAll id entries).dict other =
      if id = other then (s.dict id).setAll entries else s.dict other := by
  induction entries generalizing s with
  | nil => by_cases h : id = other <;> simp [putAll, Dict.setAll, h]
  | cons e entries ih =>
      rw [putAll, List.foldl_cons, ← putAll, ih]
      by_cases h : id = other
      · simp [h, dict_putInDict, Dict.setAll]
      · simp [h, dict_putInDict]

@[simp] theorem attr?_putAll (s : Store) (id other : ObjectId) (entries : List (Item × Item))
    (name : String) : (s.putAll id entries).attr? other name = s.attr? other name := by
  induction entries generalizing s with
  | nil => rfl
  | cons e entries ih =>
      rw [putAll, List.foldl_cons, ← putAll, ih, attr?_putInDict]

@[simp] theorem list?_putAll (s : Store) (id other : ObjectId) (entries : List (Item × Item)) :
    (s.putAll id entries).list? other = s.list? other := by
  induction entries generalizing s with
  | nil => rfl
  | cons e entries ih =>
      rw [putAll, List.foldl_cons, ← putAll, ih, list?_putInDict]

theorem adds_putAll {id : ObjectId} {entries : List (Item × Item)}
    (hnodup : (entries.map Prod.fst).Nodup)
    (h : ∀ es, s.Says (.dict id es) → es = entries) :
    Adds s (s.putAll id entries) fun f => f = .dict id entries ∧ entries ≠ [] := by
  have hdict : (s.dict id).entries = [] ∨ (s.dict id).entries = entries := by
    by_cases hnil : (s.dict id).entries = []
    · exact Or.inl hnil
    · exact Or.inr (h _ ⟨rfl, hnil⟩)
  have hset := Dict.entries_setAll hnodup hdict
  intro f
  cases f with
  | dict other es =>
      simp only [Says, dict_putAll, Fact.dict.injEq]
      split
      · rename_i heq
        subst heq
        rw [hset]
        constructor
        · rintro ⟨rfl, hne⟩
          exact Or.inr ⟨⟨rfl, rfl⟩, hne⟩
        · rintro (hes | ⟨⟨-, rfl⟩, hne⟩)
          · exact ⟨(h es hes).symm, hes.2⟩
          · exact ⟨rfl, hne⟩
      · rename_i hne
        constructor
        · exact Or.inl
        · rintro (hes | ⟨⟨rfl, -⟩, -⟩)
          · exact hes
          · exact absurd rfl hne
  | attr other name v => simp [Says]
  | list other items => simp [Says]

/-- Steps that add facts which are all true together say the union of their facts. -/
theorem adds_foldl {α : Type} {T : Fact → Prop} {F : α → Fact → Prop}
    {step : Store → α → Store} {xs : List α}
    (hF : ∀ x ∈ xs, ∀ f, F x f → T f)
    (hstep : ∀ s, (∀ f, s.Says f → T f) → ∀ x ∈ xs, Adds s (step s x) (F x))
    (hs : ∀ f, s.Says f → T f) :
    Adds s (xs.foldl step s) fun f => ∃ x ∈ xs, F x f := by
  induction xs generalizing s with
  | nil => exact Adds.refl (by simp)
  | cons x xs ih =>
      have hx := hstep s hs x List.mem_cons_self
      have htrue : ∀ f, (step s x).Says f → T f := by
        intro f hf
        rcases (hx f).1 hf with hf | hf
        · exact hs f hf
        · exact hF x List.mem_cons_self f hf
      have hrest := ih (fun y hy => hF y (List.mem_cons_of_mem x hy))
        (fun s hs y hy => hstep s hs y (List.mem_cons_of_mem x hy)) htrue
      rw [List.foldl_cons]
      exact (hx.trans hrest).congr fun f => by simp

/-- The same for steps that may fail, as long as none of them does. -/
theorem adds_foldlM {α : Type} {T : Fact → Prop} {F : α → Fact → Prop}
    {step : Store → α → Except Error Store} {xs : List α}
    (hF : ∀ x ∈ xs, ∀ f, F x f → T f)
    (hstep : ∀ s, (∀ f, s.Says f → T f) → ∀ x ∈ xs, ∀ t, step s x = .ok t → Adds s t (F x))
    (hs : ∀ f, s.Says f → T f) (h : xs.foldlM step s = .ok t) :
    Adds s t fun f => ∃ x ∈ xs, F x f := by
  induction xs generalizing s with
  | nil =>
      obtain rfl : s = t := Except.ok.inj h
      exact Adds.refl (by simp)
  | cons x xs ih =>
      rw [List.foldlM_cons] at h
      cases hx : step s x with
      | error e => simp [hx, bind, Except.bind] at h
      | ok r =>
          have hadds := hstep s hs x List.mem_cons_self r hx
          have htrue : ∀ f, r.Says f → T f := by
            intro f hf
            rcases (hadds f).1 hf with hf | hf
            · exact hs f hf
            · exact hF x List.mem_cons_self f hf
          have hrest := ih (fun y hy => hF y (List.mem_cons_of_mem x hy))
            (fun s hs y hy => hstep s hs y (List.mem_cons_of_mem x hy)) htrue
            (by simpa [hx, bind, Except.bind] using h)
          exact (hadds.trans hrest).congr fun f => by simp

end Store

end ObjectGraph
