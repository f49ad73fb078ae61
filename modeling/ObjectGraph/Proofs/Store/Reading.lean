import Mathlib.Data.List.Induction
import Mathlib.Data.List.Sort
import ObjectGraph.Proofs.Store.Valid

/-!
# What a view reads

A view is known by its answers: the value of an attribute, the items of a list and
the entries of a dict. The lists of names and keys that it computes contain exactly
what the answers say is present, names in ascending order and keys each once, so
views with the same answers list the same.
-/

namespace ObjectGraph

theorem nodup_eraseDups {α : Type} [DecidableEq α] (l : List α) : l.eraseDups.Nodup := by
  induction h : l.length using Nat.strong_induction_on generalizing l with
  | _ n ih =>
      cases l with
      | nil => simp
      | cons a as =>
          have hlt : (as.filter fun b => !b == a).length < n := by
            rw [← h, List.length_cons]
            exact Nat.lt_succ_of_le (List.length_filter_le _ as)
          rw [List.eraseDups_cons, List.nodup_cons]
          exact ⟨by simp, ih _ hlt _ rfl⟩

theorem eraseDups_of_nodup {α : Type} [DecidableEq α] {l : List α} (h : l.Nodup) :
    l.eraseDups = l := by
  induction l with
  | nil => rfl
  | cons a as ih =>
      rw [List.nodup_cons] at h
      have hfilter : (as.filter fun b => !b == a) = as := by
        rw [List.filter_eq_self]
        intro b hb
        have hne : b ≠ a := fun heq => h.1 (heq ▸ hb)
        simpa using hne
      rw [List.eraseDups_cons, hfilter, ih h.2]

theorem eraseDups_append_singleton {α : Type} [DecidableEq α] (l : List α) (a : α) :
    (l ++ [a]).eraseDups = if a ∈ l then l.eraseDups else l.eraseDups ++ [a] := by
  rw [List.eraseDups_append]
  by_cases h : a ∈ l <;> simp [List.removeAll, h, List.eraseDups_cons]

/-- What is left of a list stands in the order of first occurrences. -/
theorem pairwise_idxOf_eraseDups {α : Type} [DecidableEq α] (l : List α) :
    l.eraseDups.Pairwise fun a b => l.idxOf a < l.idxOf b := by
  induction l using List.reverseRecOn with
  | nil => simp
  | append_singleton l a ih =>
      have hsame : ∀ b ∈ l.eraseDups, (l ++ [a]).idxOf b = l.idxOf b := fun b hb =>
        List.idxOf_append_of_mem (List.mem_eraseDups.1 hb)
      have hold : l.eraseDups.Pairwise fun b c => (l ++ [a]).idxOf b < (l ++ [a]).idxOf c := by
        refine ih.imp_of_mem fun hb hc hlt => ?_
        rwa [hsame _ hb, hsame _ hc]
      rw [eraseDups_append_singleton]
      split
      · exact hold
      · rename_i ha
        refine List.pairwise_append.2 ⟨hold, List.pairwise_singleton _ _, ?_⟩
        intro b hb c hc
        obtain rfl := List.mem_singleton.1 hc
        have hlt := List.idxOf_lt_length_of_mem (List.mem_eraseDups.1 hb)
        rw [hsame b hb, List.idxOf_append_of_notMem ha]
        omega

theorem filter_eraseDups {α : Type} [DecidableEq α] (p : α → Bool) (l : List α) :
    l.eraseDups.filter p = (l.filter p).eraseDups := by
  induction l using List.reverseRecOn with
  | nil => rfl
  | append_singleton l a ih =>
      rw [eraseDups_append_singleton, List.filter_append]
      by_cases hp : p a = true
      · rw [List.filter_cons_of_pos hp, List.filter_nil, eraseDups_append_singleton, ← ih]
        by_cases ha : a ∈ l <;> simp [ha, hp]
      · rw [List.filter_cons_of_neg hp, List.filter_nil, List.append_nil, ← ih]
        by_cases ha : a ∈ l <;> simp [ha, hp]

theorem Store.dict_empty (id : ObjectId) : empty.dict id = .empty := by
  simp [dict, empty]

namespace View

variable {v : View} {id : ObjectId}

theorem exists_mem_of_attr? {name : String} {value : Item} (h : v.attr? id name = some value) :
    ∃ s ∈ v.layers, s.attr? id name = some value :=
  List.exists_of_findSome?_eq_some h

theorem mem_foldl_insertMany {layers : List Store} {names : Std.ExtTreeSet String}
    {name : String} :
    name ∈ layers.foldl (fun names s => names.insertMany (s.localAttrs id).keys) names ↔
      name ∈ names ∨ ∃ s ∈ layers, name ∈ s.localAttrs id := by
  induction layers generalizing names with
  | nil => simp
  | cons s layers ih =>
      rw [List.foldl_cons, ih]
      simp [or_assoc]

theorem mem_mentionedNames {name : String} :
    name ∈ v.mentionedNames id ↔ ∃ s ∈ v.layers, (s.attr? id name).isSome := by
  rw [mentionedNames, Std.ExtTreeSet.mem_toList, mem_foldl_insertMany]
  simp [Store.attr?]

theorem isPresent_attr {name : String} (h : (v.attr id name).isPresent = true) :
    name ∈ v.mentionedNames id := by
  rw [attr] at h
  cases hv : v.attr? id name with
  | none => simp [hv, Item.isPresent, Item.type?] at h
  | some value =>
      obtain ⟨s, hs, hvalue⟩ := exists_mem_of_attr? hv
      exact mem_mentionedNames.2 ⟨s, hs, by simp [hvalue]⟩

theorem mem_attrNames {name : String} :
    name ∈ v.attrNames id ↔ (v.attr id name).isPresent = true := by
  rw [attrNames, List.mem_filter]
  exact ⟨And.right, fun h => ⟨isPresent_attr h, h⟩⟩

/-- The declared attributes of an id are its present ones. -/
theorem mem_attrEntries {name : String} {value : Item} :
    (name, value) ∈ v.attrEntries id ↔ v.attr id name = value ∧ value.isPresent = true := by
  simp only [attrEntries, List.mem_map, mem_attrNames, Prod.mk.injEq]
  constructor
  · rintro ⟨n, hn, rfl, rfl⟩
    exact ⟨rfl, hn⟩
  · rintro ⟨rfl, hvalue⟩
    exact ⟨name, hvalue, rfl, rfl⟩

theorem sorted_attrNames (v : View) (id : ObjectId) :
    (v.attrNames id).Pairwise fun a b => compare a b = .lt :=
  Std.ExtTreeSet.ordered_toList.filter _

theorem not_compare_self_lt (a : String) : ¬ compare a a = .lt := by
  rw [show compare a a = .eq from Std.ReflCmp.compare_self]
  simp

theorem nodup_attrNames (v : View) (id : ObjectId) : (v.attrNames id).Nodup := by
  refine (v.sorted_attrNames id).imp ?_
  rintro a b hlt rfl
  exact not_compare_self_lt a hlt

@[simp] theorem map_fst_attrEntries (v : View) (id : ObjectId) :
    (v.attrEntries id).map Prod.fst = v.attrNames id := by
  simp [attrEntries, Function.comp_def]

/-- Views that answer alike for an id list the same attributes of it. -/
theorem attrEntries_congr {u v : View} {id : ObjectId}
    (h : ∀ name, u.attr id name = v.attr id name) : u.attrEntries id = v.attrEntries id := by
  have hnames : u.attrNames id = v.attrNames id := by
    have : Std.Irrefl fun a b : String => compare a b = .lt := ⟨not_compare_self_lt⟩
    have : Std.Antisymm fun a b : String => compare a b = .lt := ⟨by
      intro a b hab hba
      exact absurd (Std.TransCmp.lt_trans hab hba) (not_compare_self_lt a)⟩
    refine (u.sorted_attrNames id).eq_of_mem_iff (v.sorted_attrNames id) fun name => ?_
    rw [mem_attrNames, mem_attrNames, h name]
  rw [attrEntries, attrEntries, hnames]
  exact List.map_congr_left fun name _ => by rw [h name]

theorem isPresent_dictValue {key : Item} (h : (v.dictValue id key).isPresent = true) :
    key ∈ v.mentionedKeys id := by
  rw [dictValue] at h
  cases hv : v.dictEntry? id key with
  | none => simp [hv, Item.isPresent, Item.type?] at h
  | some value =>
      obtain ⟨s, hs, hentry⟩ := List.exists_of_findSome?_eq_some hv
      refine List.mem_eraseDups.2 (List.mem_flatMap.2 ⟨s, hs, ?_⟩)
      obtain ⟨e, hfind, -⟩ := Option.map_eq_some_iff.1 hentry
      have heq := List.find?_some hfind
      rw [beq_iff_eq] at heq
      exact List.mem_map.2 ⟨e, List.mem_of_find?_eq_some hfind, heq⟩

theorem mem_dictKeys {key : Item} :
    key ∈ v.dictKeys id ↔ (v.dictValue id key).isPresent = true := by
  rw [dictKeys, List.mem_filter]
  exact ⟨And.right, fun h => ⟨isPresent_dictValue h, h⟩⟩

theorem nodup_dictKeys (v : View) (id : ObjectId) : (v.dictKeys id).Nodup :=
  (nodup_eraseDups _).filter _

@[simp] theorem isPresent_of_mem_dictEntries {e : Item × Item} (h : e ∈ v.dictEntries id) :
    e.2.isPresent = true := by
  obtain ⟨key, hkey, rfl⟩ := List.mem_map.1 h
  exact mem_dictKeys.1 hkey

theorem map_fst_dictEntries (v : View) (id : ObjectId) :
    (v.dictEntries id).map Prod.fst = v.dictKeys id := by
  simp [dictEntries, Function.comp_def]

theorem nodup_dictEntries (v : View) (id : ObjectId) :
    ((v.dictEntries id).map Prod.fst).Nodup := by
  rw [map_fst_dictEntries]
  exact v.nodup_dictKeys id

theorem dictEntries_of_empty (h : ∀ s ∈ v.layers, s.dict id = .empty) : v.dictEntries id = [] := by
  have hnil : (v.layers.flatMap fun s => (s.dict id).keys) = [] :=
    List.flatMap_eq_nil_iff.2 fun s hs => congrArg Dict.keys (h s hs)
  rw [dictEntries, dictKeys, mentionedKeys, hnil]
  rfl

/-- The keys of dicts can be keys of dicts. -/
def ValidKeys (v : View) : Prop :=
  ∀ id, ∀ e ∈ v.dictEntries id, Schema.validateKey e.1 = .ok ()

theorem validKeys_of_valid (h : ∀ s ∈ v.layers, s.Valid) : v.ValidKeys := by
  intro id e he
  obtain ⟨key, hkey, rfl⟩ := List.mem_map.1 he
  obtain ⟨s, hs, hk⟩ := List.mem_flatMap.1 (List.mem_eraseDups.1 (List.mem_filter.1 hkey).1)
  exact (h s hs).keys id key hk

/-- Every layer is built by writes. -/
def Written (v : View) : Prop :=
  ∀ s ∈ v.layers, s.Written

theorem Written.validKeys (h : v.Written) : v.ValidKeys :=
  validKeys_of_valid fun s hs => (h s hs).valid

end View

end ObjectGraph
