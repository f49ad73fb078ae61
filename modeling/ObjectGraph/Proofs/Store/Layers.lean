import ObjectGraph.Proofs.Store.Fact
import ObjectGraph.Proofs.Store.Ids
import ObjectGraph.Proofs.Store.Reading

/-!
# Layers of a view

`cons` puts one more store in front of a view. What the store has no entries for is
read from the view as before, and so is everything if the store is empty. A dict that
only the store has is read from the store.
-/

namespace ObjectGraph.View

/-- A view with one more store in front. -/
def cons (s : Store) (v : View) : View :=
  ⟨s :: v.layers⟩

variable {s : Store} {v : View} {id : ObjectId} {name : String}

theorem attr?_cons (s : Store) (v : View) (id : ObjectId) (name : String) :
    (v.cons s).attr? id name = (s.attr? id name).or (v.attr? id name) := by
  rw [attr?, cons, List.findSome?_cons, attr?]
  cases s.attr? id name <;> rfl

theorem list?_cons (s : Store) (v : View) (id : ObjectId) :
    (v.cons s).list? id = (s.list? id).or (v.list? id) := by
  rw [list?, cons, List.findSome?_cons, list?]
  cases s.list? id <;> rfl

theorem dictEntry?_cons (s : Store) (v : View) (id : ObjectId) (key : Item) :
    View.dictEntry? (v.cons s) id key =
      (Store.dictEntry? s id key).or (View.dictEntry? v id key) := by
  rw [View.dictEntry?, cons, List.findSome?_cons, View.dictEntry?]
  cases s.dictEntry? id key <;> rfl

theorem attr_cons (s : Store) (v : View) (id : ObjectId) (name : String) :
    (v.cons s).attr id name = (s.attr? id name).getD (v.attr id name) := by
  rw [attr, attr?_cons]
  cases s.attr? id name <;> rfl

theorem dictEntries_cons_of_empty (h : (s.dict id).entries = []) :
    (v.cons s).dictEntries id = v.dictEntries id := by
  have hkeys : (s.dict id).keys = [] := by rw [Dict.keys, h, List.map_nil]
  have hentry : ∀ key, s.dictEntry? id key = none := by
    intro key
    rw [Store.dictEntry?, Dict.get?, h]
    rfl
  have hvalue : ∀ key, (v.cons s).dictValue id key = v.dictValue id key := by
    intro key
    rw [dictValue, dictEntry?_cons, hentry key, Option.none_or, dictValue]
  have hmentioned : (v.cons s).mentionedKeys id = v.mentionedKeys id := by
    rw [mentionedKeys, cons, List.flatMap_cons, hkeys, List.nil_append, mentionedKeys]
  simp only [dictEntries, dictKeys, hmentioned, hvalue]

/-- A dict of the store alone, without tombstones. -/
theorem dictEntries_cons_of_notMem (hvalid : (s.dict id).Valid)
    (hpresent : ∀ e ∈ (s.dict id).entries, e.2.isPresent = true) (h : id ∉ v.ids) :
    (v.cons s).dictEntries id = (s.dict id).entries := by
  have hmentioned : (v.cons s).mentionedKeys id = (s.dict id).keys := by
    rw [mentionedKeys, cons, List.flatMap_cons, keys_eq_nil_of_notMem h, List.append_nil]
    exact eraseDups_of_nodup hvalid
  have hvalue : ∀ e ∈ (s.dict id).entries, (v.cons s).dictValue id e.1 = e.2 := by
    intro e he
    rw [dictValue, dictEntry?_cons, Store.dictEntry?, Dict.get?_of_mem hvalid he]
    rfl
  rw [dictEntries, dictKeys, hmentioned, Dict.keys, List.filter_map, List.map_map]
  have hfilter : ((s.dict id).entries.filter
      ((fun key => ((v.cons s).dictValue id key).isPresent) ∘ Prod.fst)) = (s.dict id).entries := by
    rw [List.filter_eq_self]
    intro e he
    rw [Function.comp_apply, hvalue e he]
    exact hpresent e he
  rw [hfilter]
  refine (List.map_congr_left fun e he => ?_).trans (List.map_id _)
  rw [Function.comp_apply, hvalue e he]
  rfl

/-! ### Objects that the view does not know -/

theorem attr_cons_eq_of_notMem {value : Item} (h : id ∉ v.ids)
    (heq : ∀ u, s.Says (.attr id name u) → u = value)
    (hfact : value.isPresent = true → s.Says (.attr id name value)) :
    (v.cons s).attr id name = value := by
  rw [attr_cons]
  cases hu : s.attr? id name with
  | some u => exact heq u hu
  | none =>
      rw [Option.getD_none, attr_eq_missing_of_notMem h]
      by_contra hne
      have hsays := hfact ((Item.isPresent_iff value).2 (Ne.symm hne))
      cases hu.symm.trans hsays

theorem list?_cons_eq_of_notMem {u : View} {x : ObjectId} (h : id ∉ v.ids)
    (hfact : ∀ items, s.Says (.list id items) ↔ u.list? x = some items) :
    (v.cons s).list? id = u.list? x := by
  rw [list?_cons, list?_eq_none_of_notMem h, Option.or_none]
  exact Option.ext fun items => hfact items

theorem dictEntries_cons_eq_of_notMem {u : View} {x : ObjectId} (h : id ∉ v.ids)
    (heq : ∀ es, s.Says (.dict id es) → es = u.dictEntries x)
    (hfact : u.dictEntries x ≠ [] → s.Says (.dict id (u.dictEntries x))) :
    (v.cons s).dictEntries id = u.dictEntries x := by
  have hentries : (s.dict id).entries = u.dictEntries x := by
    by_cases hnil : (s.dict id).entries = []
    · rw [hnil]
      by_contra hne
      exact hne (hnil.symm.trans (hfact (Ne.symm hne)).1)
    · exact heq _ ⟨rfl, hnil⟩
  rw [← hentries]
  refine dictEntries_cons_of_notMem ?_ ?_ h
  · rw [Dict.Valid, Dict.keys, hentries]
    exact u.nodup_dictEntries x
  · intro e he
    rw [hentries] at he
    exact isPresent_of_mem_dictEntries he

/-! ### Objects that the store says nothing of -/

theorem attr_cons_of_not_says (h : ∀ u, ¬ s.Says (.attr id name u)) :
    (v.cons s).attr id name = v.attr id name := by
  rw [attr_cons]
  cases hu : s.attr? id name with
  | some u => exact absurd hu (h u)
  | none => rfl

theorem list?_cons_of_not_says (h : ∀ items, ¬ s.Says (.list id items)) :
    (v.cons s).list? id = v.list? id := by
  rw [list?_cons]
  cases hitems : s.list? id with
  | some items => exact absurd hitems (h items)
  | none => rfl

theorem dictEntries_cons_of_not_says (h : ∀ es, ¬ s.Says (.dict id es)) :
    (v.cons s).dictEntries id = v.dictEntries id := by
  refine dictEntries_cons_of_empty ?_
  by_contra hne
  exact h _ ⟨rfl, hne⟩

/-! ### The empty store -/

theorem attr_cons_empty (v : View) (id : ObjectId) (name : String) :
    (v.cons ∅).attr id name = v.attr id name := by
  rw [attr_cons, show (∅ : Store).attr? id name = none from Store.attr?_empty id name]
  rfl

theorem list?_cons_empty (v : View) (id : ObjectId) : (v.cons ∅).list? id = v.list? id := by
  rw [list?_cons, show (∅ : Store).list? id = none from Std.ExtTreeMap.getElem?_empty]
  rfl

theorem dictEntries_cons_empty (v : View) (id : ObjectId) :
    (v.cons ∅).dictEntries id = v.dictEntries id := by
  refine dictEntries_cons_of_empty ?_
  simp [Store.dict, show (∅ : Store) = Store.empty from rfl, Store.empty, Dict.empty]

end ObjectGraph.View
