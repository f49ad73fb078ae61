import ObjectGraph.Proofs.Store.Fact

/-!
# Stores that writes can build

`Written` is the stores that sequences of writes build from the empty one, and
`Valid` is what all of them have in common: items belong to lists and entries to
dicts, keys are checked and each has one entry, and no table is empty. Two valid
stores are equal when they say the same facts.
-/

namespace ObjectGraph

theorem Dict.valid_set {d : Dict} (hd : d.Valid) (key value : Item) : (d.set key value).Valid := by
  rw [Valid, keys_set]
  split
  · exact hd
  · rename_i hnew
    refine List.nodup_append.2 ⟨hd, by simp, ?_⟩
    rintro a ha b hb rfl
    exact hnew (List.mem_singleton.1 hb ▸ ha)

namespace Store

/-- Tables hold what belongs to them, and hold it for a reason. -/
structure Valid (s : Store) : Prop where
  attrs : ∀ (id : ObjectId) (table : AttrTable), s.attrs[id]? = some table → table ≠ ∅
  lists : ∀ (id : ObjectId) (items : List Item), s.lists[id]? = some items → id.isList = true
  dicts : ∀ (id : ObjectId) (d : Dict), s.dicts[id]? = some d →
    id.isDict = true ∧ d.entries ≠ [] ∧ d.Valid
  keys : ∀ id, ∀ key ∈ (s.dict id).keys, Schema.validateKey key = .ok ()

/-- The stores that writes build, with any stores as fallbacks. -/
inductive Written : Store → Prop
  | empty : Written ∅
  | setAttr {s : Store} (id : ObjectId) (name : String) (value : Item) :
      s.Written → Written (s.setAttr id name value)
  | setAttrColumn {s t : Store} {objects values : Column} {name : String} :
      s.Written → s.setAttrColumn objects name values = .ok t → Written t
  | setSchemaAttr {s t : Store} {schema : ObjectId} {name : String} {value : Item} :
      s.Written → s.setSchemaAttr schema name value = .ok t → Written t
  | setList {s t : Store} {id : ObjectId} {items : List Item} :
      s.Written → s.setList id items = .ok t → Written t
  | append {s t : Store} {fallbacks : List Store} {id : ObjectId} {item : Item} :
      s.Written → s.append fallbacks id item = .ok t → Written t
  | extendLists {s : Store} (fallbacks : List Store) (lists values : Column) (edge : Edge) :
      s.Written → Written (s.extendLists fallbacks lists values edge).2
  | setInDict {s t : Store} {id : ObjectId} {key value : Item} :
      s.Written → s.setInDict id key value = .ok t → Written t

theorem valid_empty : (∅ : Store).Valid := by
  constructor <;> simp [show (∅ : Store) = empty from rfl, empty, dict, Dict.empty, Dict.keys]

theorem Valid.setAttr {s : Store} (hs : s.Valid) (id : ObjectId) (name : String)
    (value : Item) : (s.setAttr id name value).Valid := by
  refine ⟨?_, hs.lists, hs.dicts, hs.keys⟩
  intro other table h
  simp only [Store.setAttr, Std.ExtTreeMap.getElem?_insert] at h
  split at h
  · rintro rfl
    simp [Std.ExtTreeMap.insert_ne_empty] at h
  · exact hs.attrs other table h

theorem Valid.putList {s : Store} (hs : s.Valid) {id : ObjectId} (hid : id.isList = true)
    (items : List Item) : (s.putList id items).Valid := by
  refine ⟨hs.attrs, ?_, hs.dicts, hs.keys⟩
  intro other l h
  simp only [Store.putList, Std.ExtTreeMap.getElem?_insert] at h
  split at h
  · rename_i heq
    rwa [← Std.LawfulEqOrd.eq_of_compare heq]
  · exact hs.lists other l h

theorem Valid.dict {s : Store} (hs : s.Valid) (id : ObjectId) : (s.dict id).Valid := by
  unfold Store.dict
  cases h : s.dicts[id]? with
  | none => simp [Dict.Valid]
  | some d => exact (hs.dicts id d h).2.2

theorem Valid.putInDict {s : Store} (hs : s.Valid) {id : ObjectId} (hid : id.isDict = true)
    {key : Item} (hkey : Schema.validateKey key = .ok ()) (value : Item) :
    (s.putInDict id key value).Valid := by
  have hkeys := Dict.keys_set (s.dict id) key value
  refine ⟨hs.attrs, hs.lists, ?_, ?_⟩
  · intro other d h
    simp only [Store.putInDict, Std.ExtTreeMap.getElem?_insert] at h
    split at h
    · rename_i heq
      obtain rfl := Std.LawfulEqOrd.eq_of_compare heq
      obtain rfl := Option.some.inj h
      refine ⟨hid, ?_, ?_⟩
      · intro hnil
        have : key ∈ ((s.dict id).set key value).keys := by
          rw [hkeys]
          split <;> simp_all
        simp [Dict.keys, hnil] at this
      · exact Dict.valid_set (hs.dict id) key value
    · exact hs.dicts other d h
  · intro other k hk
    rw [dict_putInDict] at hk
    split at hk
    · rw [hkeys] at hk
      split at hk
      · exact hs.keys id k hk
      · rcases List.mem_append.1 hk with hk | hk
        · exact hs.keys id k hk
        · rwa [List.mem_singleton.1 hk]
    · exact hs.keys other k hk

theorem setList_eq_ok {s t : Store} {id : ObjectId} {items : List Item}
    (h : s.setList id items = .ok t) : id.isList = true ∧ t = s.putList id items := by
  unfold setList at h
  split at h
  · exact ⟨by assumption, (Except.ok.inj h).symm⟩
  · cases h

theorem setInDict_eq_ok {s t : Store} {id : ObjectId} {key value : Item}
    (h : s.setInDict id key value = .ok t) :
    id.isDict = true ∧ Schema.validateKey key = .ok () ∧ t = s.putInDict id key value := by
  unfold setInDict at h
  cases hid : id.isDict with
  | false => simp [hid, bind, Except.bind, throw, throwThe, MonadExceptOf.throw] at h
  | true =>
      cases hkey : Schema.validateKey key with
      | error e => simp [hid, hkey, bind, Except.bind] at h
      | ok u =>
          simp only [hid, hkey, bind, Except.bind, pure, Except.pure] at h
          exact ⟨rfl, rfl, (Except.ok.inj h).symm⟩

theorem setSchemaAttr_eq_ok {s t : Store} {schema : ObjectId} {name : String} {value : Item}
    (h : s.setSchemaAttr schema name value = .ok t) : t = s.setAttr schema name value := by
  unfold setSchemaAttr at h
  cases hschema : schema.isSchema with
  | false => simp [hschema, bind, Except.bind, throw, throwThe, MonadExceptOf.throw] at h
  | true =>
      simp only [hschema, Bool.not_true, Bool.false_eq_true, if_false] at h
      split at h
      · cases hv : Schema.verify value with
        | error e => simp [hv, bind, Except.bind] at h
        | ok u =>
            rw [hv] at h
            exact (Except.ok.inj h).symm
      · exact (Except.ok.inj h).symm

theorem setInDict_of_valid {id : ObjectId} {key : Item} (s : Store) (hid : id.isDict = true)
    (hkey : Schema.validateKey key = .ok ()) (value : Item) :
    s.setInDict id key value = .ok (s.putInDict id key value) := by
  simp [setInDict, hid, hkey, bind, Except.bind, pure, Except.pure]

theorem Valid.setList {s t : Store} (hs : s.Valid) {id : ObjectId} {items : List Item}
    (h : s.setList id items = .ok t) : t.Valid := by
  obtain ⟨hid, rfl⟩ := setList_eq_ok h
  exact hs.putList hid items

theorem Valid.setInDict {s t : Store} (hs : s.Valid) {id : ObjectId} {key value : Item}
    (h : s.setInDict id key value = .ok t) : t.Valid := by
  obtain ⟨hid, hkey, rfl⟩ := setInDict_eq_ok h
  exact hs.putInDict hid hkey value

theorem Valid.extendGroups {s : Store} (hs : s.Valid) (fallbacks : List Store)
    (targets : List (Item × List Item)) : (extendGroups fallbacks s targets).2.Valid := by
  induction targets generalizing s with
  | nil => exact hs
  | cons target targets ih =>
      unfold Store.extendGroups
      split
      · exact ih hs
      · split
        · rename_i hext
          exact ih (hs.setList hext)
        · exact hs

theorem Valid.setAttrs {s : Store} (hs : s.Valid) (name : String) (pairs : List (Item × Item)) :
    (pairs.foldl (fun s p =>
      match p.1.objectId? with
      | some id => s.setAttr id name p.2
      | none => s) s).Valid := by
  induction pairs generalizing s with
  | nil => exact hs
  | cons pair pairs ih =>
      rw [List.foldl_cons]
      split
      · exact ih (hs.setAttr _ name pair.2)
      · exact ih hs

/-- Every store that writes build is valid. -/
theorem Written.valid {s : Store} (hs : s.Written) : s.Valid := by
  induction hs with
  | empty => exact valid_empty
  | setAttr id name value _ ih => exact ih.setAttr id name value
  | @setAttrColumn s t objects values name _ h ih =>
      unfold Store.setAttrColumn at h
      split at h
      · cases h
      · obtain rfl := Except.ok.inj h
        exact ih.setAttrs name _
  | @setSchemaAttr s t schema name value _ h ih =>
      obtain rfl := setSchemaAttr_eq_ok h
      exact ih.setAttr schema name value
  | setList _ h ih => exact ih.setList h
  | append _ h ih => exact ih.setList h
  | extendLists fallbacks lists values edge _ ih =>
      unfold Store.extendLists
      split
      · exact ih
      · exact ih.extendGroups fallbacks _
  | setInDict _ h ih => exact ih.setInDict h

variable {s t : Store}

theorem attrs_eq_of_says (hs : s.Valid) (ht : t.Valid)
    (h : ∀ id name, s.attr? id name = t.attr? id name) : s.attrs = t.attrs := by
  have hlocal : ∀ id, s.localAttrs id = t.localAttrs id := fun id =>
    Std.ExtTreeMap.ext_getElem? fun name => h id name
  refine Std.ExtTreeMap.ext_getElem? fun id => ?_
  have hid := hlocal id
  unfold localAttrs at hid
  cases hsid : s.attrs[id]? with
  | none =>
      cases htid : t.attrs[id]? with
      | none => rfl
      | some table =>
          rw [hsid, htid] at hid
          exact absurd hid.symm (ht.attrs id table htid)
  | some table =>
      cases htid : t.attrs[id]? with
      | none =>
          rw [hsid, htid] at hid
          exact absurd hid (hs.attrs id table hsid)
      | some other =>
          rw [hsid, htid] at hid
          exact congrArg some hid

theorem dicts_eq_of_says (hs : s.Valid) (ht : t.Valid)
    (h : ∀ id, (s.dict id).entries = (t.dict id).entries) : s.dicts = t.dicts := by
  refine Std.ExtTreeMap.ext_getElem? fun id => ?_
  have hid := h id
  unfold dict at hid
  cases hsid : s.dicts[id]? with
  | none =>
      cases htid : t.dicts[id]? with
      | none => rfl
      | some d =>
          rw [hsid, htid] at hid
          exact absurd hid.symm (ht.dicts id d htid).2.1
  | some d =>
      cases htid : t.dicts[id]? with
      | none =>
          rw [hsid, htid] at hid
          exact absurd hid (hs.dicts id d hsid).2.1
      | some e =>
          rw [hsid, htid] at hid
          obtain ⟨entries⟩ := d
          obtain ⟨others⟩ := e
          obtain rfl : entries = others := hid
          rfl

/-- A valid store is determined by what it says. -/
theorem eq_of_says (hs : s.Valid) (ht : t.Valid) (h : ∀ f, s.Says f ↔ t.Says f) : s = t := by
  have hattrs := attrs_eq_of_says hs ht fun id name =>
    Option.ext fun value => h (.attr id name value)
  have hlists : s.lists = t.lists := Std.ExtTreeMap.ext_getElem? fun id =>
    Option.ext fun items => h (.list id items)
  have hdicts := dicts_eq_of_says hs ht fun id => by
    by_cases hnil : (s.dict id).entries = []
    · by_contra hne
      have htnil : (t.dict id).entries ≠ [] := fun htnil => hne (hnil.trans htnil.symm)
      exact hne ((h (.dict id _)).2 ⟨rfl, htnil⟩).1
    · exact ((h (.dict id _)).1 ⟨rfl, hnil⟩).1.symm
  obtain ⟨sattrs, slists, sdicts⟩ := s
  obtain ⟨tattrs, tlists, tdicts⟩ := t
  obtain rfl : sattrs = tattrs := hattrs
  obtain rfl : slists = tlists := hlists
  obtain rfl : sdicts = tdicts := hdicts
  rfl

end Store

end ObjectGraph
