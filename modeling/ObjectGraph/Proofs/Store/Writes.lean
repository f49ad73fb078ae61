import ObjectGraph.Proofs.Store.Reading

/-!
# Histories of a store

A store is built by a sequence of writes, each of which may be rejected. What a
dict holds can be told from the sequence: an entry is what the last accepted write
to its key set, and the keys stand in the order of their first accepted writes. The
tombstone of a key is an entry like any other, so a key that gets a value again has
kept its place.
-/

namespace ObjectGraph

/-- A write with its arguments, the fallbacks that it reads through included. -/
inductive Write where
  | setAttr (id : ObjectId) (name : String) (value : Item)
  | setAttrColumn (objects : Column) (name : String) (values : Column)
  | setSchemaAttr (schema : ObjectId) (name : String) (value : Item)
  | setList (id : ObjectId) (items : List Item)
  | append (fallbacks : List Store) (id : ObjectId) (item : Item)
  | extendLists (fallbacks : List Store) (lists values : Column) (edge : Edge)
  | setInDict (id : ObjectId) (key value : Item)

namespace Store

/-- The store after a write, which is the store before if the write is rejected. -/
def after (s : Store) : Except Error Store → Except Error Unit × Store
  | .ok t => (.ok (), t)
  | .error e => (.error e, s)

/-- The outcome of a write and the store that it leaves. -/
def perform (s : Store) : Write → Except Error Unit × Store
  | .setAttr id name value => (.ok (), s.setAttr id name value)
  | .setAttrColumn objects name values => s.after (s.setAttrColumn objects name values)
  | .setSchemaAttr schema name value => s.after (s.setSchemaAttr schema name value)
  | .setList id items => s.after (s.setList id items)
  | .append fallbacks id item => s.after (s.append fallbacks id item)
  | .extendLists fallbacks lists values edge => s.extendLists fallbacks lists values edge
  | .setInDict id key value => s.after (s.setInDict id key value)

/-- The store that a sequence of writes builds from the empty one. -/
def ofWrites (writes : List Write) : Store :=
  writes.foldl (fun s w => (s.perform w).2) ∅

theorem ofWrites_concat (writes : List Write) (w : Write) :
    ofWrites (writes ++ [w]) = ((ofWrites writes).perform w).2 :=
  List.foldl_concat _ _ _ _

variable {s t : Store}

theorem written_after {r : Except Error Store} (hs : s.Written)
    (h : ∀ t, r = .ok t → t.Written) : (s.after r).2.Written := by
  cases r with
  | ok t => exact h t rfl
  | error e => exact hs

theorem written_perform (hs : s.Written) (w : Write) : (s.perform w).2.Written := by
  cases w with
  | setAttr id name value => exact hs.setAttr id name value
  | setAttrColumn objects name values => exact written_after hs fun t => hs.setAttrColumn
  | setSchemaAttr schema name value => exact written_after hs fun t => hs.setSchemaAttr
  | setList id items => exact written_after hs fun t => hs.setList
  | append fallbacks id item => exact written_after hs fun t => hs.append
  | extendLists fallbacks lists values edge => exact hs.extendLists fallbacks lists values edge
  | setInDict id key value => exact written_after hs fun t => hs.setInDict

theorem written_ofWrites (writes : List Write) : (ofWrites writes).Written := by
  induction writes using List.reverseRecOn with
  | nil => exact .empty
  | append_singleton writes w ih =>
      rw [ofWrites_concat]
      exact written_perform ih w

/-- Sequences of writes build exactly the written stores. -/
theorem written_iff : s.Written ↔ ∃ writes, s = ofWrites writes := by
  constructor
  · intro hs
    have next : ∀ {s t : Store} (w : Write), (∃ writes, s = ofWrites writes) →
        (s.perform w).2 = t → ∃ writes, t = ofWrites writes := by
      rintro _ t w ⟨writes, rfl⟩ rfl
      exact ⟨writes ++ [w], (ofWrites_concat writes w).symm⟩
    induction hs with
    | empty => exact ⟨[], rfl⟩
    | setAttr id name value _ ih => exact next (.setAttr id name value) ih rfl
    | @setAttrColumn s t objects values name _ h ih =>
        exact next (.setAttrColumn objects name values) ih (by rw [perform, h, after])
    | @setSchemaAttr s t schema name value _ h ih =>
        exact next (.setSchemaAttr schema name value) ih (by rw [perform, h, after])
    | @setList s t id items _ h ih => exact next (.setList id items) ih (by rw [perform, h, after])
    | @append s t fallbacks id item _ h ih =>
        exact next (.append fallbacks id item) ih (by rw [perform, h, after])
    | extendLists fallbacks lists values edge _ ih =>
        exact next (.extendLists fallbacks lists values edge) ih rfl
    | @setInDict s t id key value _ h ih =>
        exact next (.setInDict id key value) ih (by rw [perform, h, after])
  · rintro ⟨writes, rfl⟩
    exact written_ofWrites writes

/-! ### What writes keep -/

section

variable {α : Type*} (f : Store → α)

/-- What a write keeps if it is accepted is kept in any case. -/
theorem after_keeps {r : Except Error Store} (h : ∀ t, r = .ok t → f t = f s) :
    f (s.after r).2 = f s := by
  cases r with
  | ok t => exact h t rfl
  | error e => rfl

variable (hf : ∀ s id items, f (putList s id items) = f s)
include hf

theorem setList_keeps {id : ObjectId} {items : List Item} (h : s.setList id items = .ok t) :
    f t = f s := by
  obtain ⟨-, rfl⟩ := setList_eq_ok h
  exact hf s id items

theorem extendGroups_keeps (fallbacks : List Store) (s : Store)
    (targets : List (Item × List Item)) : f (extendGroups fallbacks s targets).2 = f s := by
  induction targets generalizing s with
  | nil => rfl
  | cons target targets ih =>
      unfold extendGroups
      split
      · exact ih s
      · split
        · rename_i hext
          rw [ih]
          exact setList_keeps f hf hext
        · rfl

theorem extendLists_keeps (s : Store) (fallbacks : List Store) (lists values : Column)
    (edge : Edge) : f (s.extendLists fallbacks lists values edge).2 = f s := by
  unfold extendLists
  split
  · rfl
  · exact extendGroups_keeps f hf fallbacks s _

end

/-! ### What writes make of a dict -/

theorem dict_setAttrColumn {objects values : Column} {name : String} {id : ObjectId}
    (h : s.setAttrColumn objects name values = .ok t) : t.dict id = s.dict id := by
  unfold setAttrColumn at h
  split at h
  · cases h
  · obtain rfl := Except.ok.inj h
    clear h
    generalize objects.items.zip values.items = pairs
    induction pairs generalizing s with
    | nil => rfl
    | cons pair pairs ih =>
        rw [List.foldl_cons, ih]
        split <;> rfl

end Store

namespace Write

/-- The entry that a write makes in a dict. -/
def entry? (id : ObjectId) : Write → Option (Item × Item)
  | .setInDict other key value =>
    if other = id ∧ id.isDict = true ∧ Schema.validateKey key = .ok () then some (key, value)
    else none
  | _ => none

/-- The entries that writes make in a dict, one after another. -/
def entries (id : ObjectId) (writes : List Write) : List (Item × Item) :=
  writes.filterMap fun w => w.entry? id

/-- The keys of a dict in the order in which writes first enter them. -/
def insertionOrder (id : ObjectId) (writes : List Write) : List Item :=
  ((entries id writes).map Prod.fst).eraseDups

/-- What the last entry for a key sets it to. -/
def lastSet? (id : ObjectId) (writes : List Write) (key : Item) : Option Item :=
  ((entries id writes).reverse.find? fun e => e.1 == key).map Prod.snd

theorem entries_concat (id : ObjectId) (writes : List Write) (w : Write) :
    entries id (writes ++ [w]) = entries id writes ++ (w.entry? id).toList := by
  rw [entries, List.filterMap_append, ← entries]
  cases h : w.entry? id with
  | none => simp [h]
  | some e => simp [h]

end Write

namespace Store

theorem dict_perform (s : Store) (w : Write) (id : ObjectId) :
    (s.perform w).2.dict id = (s.dict id).setAll (w.entry? id).toList := by
  have hput : ∀ (s : Store) other items, (s.putList other items).dict id = s.dict id :=
    fun s other => dict_putList s other id
  cases w with
  | setAttr other name value => rfl
  | setAttrColumn objects name values => exact after_keeps (·.dict id) fun t => dict_setAttrColumn
  | setSchemaAttr schema name value =>
      refine after_keeps (·.dict id) fun t h => ?_
      rw [setSchemaAttr_eq_ok h, dict_setAttr]
  | setList other items => exact after_keeps (·.dict id) fun t => setList_keeps (·.dict id) hput
  | append fallbacks other item =>
      exact after_keeps (·.dict id) fun t => setList_keeps (·.dict id) hput
  | extendLists fallbacks lists values edge =>
      exact extendLists_keeps (·.dict id) hput s fallbacks lists values edge
  | setInDict other key value =>
      cases h : s.setInDict other key value with
      | ok t =>
          obtain ⟨hid, hkey, rfl⟩ := setInDict_eq_ok h
          rw [perform, h, after, dict_putInDict]
          by_cases heq : other = id
          · subst heq
            simp [Write.entry?, hid, hkey, Dict.setAll]
          · simp [Write.entry?, heq, Dict.setAll]
      | error e =>
          have hentry : Write.entry? id (.setInDict other key value) = none := by
            rw [Write.entry?, if_neg]
            rintro ⟨rfl, hid, hkey⟩
            rw [setInDict_of_valid s hid hkey] at h
            cases h
          rw [perform, h, after, hentry]
          rfl

/-- A dict holds the entries that the writes make in it. -/
theorem dict_ofWrites (writes : List Write) (id : ObjectId) :
    (ofWrites writes).dict id = Dict.empty.setAll (Write.entries id writes) := by
  induction writes using List.reverseRecOn with
  | nil => exact dict_empty id
  | append_singleton writes w ih =>
      rw [ofWrites_concat, dict_perform, ih, Write.entries_concat, Dict.setAll, Dict.setAll,
        Dict.setAll, List.foldl_append]

end Store

namespace Dict

theorem setAll_concat (d : Dict) (entries : List (Item × Item)) (e : Item × Item) :
    d.setAll (entries ++ [e]) = (d.setAll entries).set e.1 e.2 :=
  List.foldl_concat _ _ _ _

theorem keys_setAll_empty (entries : List (Item × Item)) :
    (empty.setAll entries).keys = (entries.map Prod.fst).eraseDups := by
  induction entries using List.reverseRecOn with
  | nil => rfl
  | append_singleton entries e ih =>
      rw [setAll_concat, keys_set, ih, List.map_append, List.map_singleton,
        eraseDups_append_singleton]
      simp only [List.mem_eraseDups]

theorem get?_setAll_empty (entries : List (Item × Item)) (key : Item) :
    (empty.setAll entries).get? key =
      (entries.reverse.find? fun e => e.1 == key).map Prod.snd := by
  induction entries using List.reverseRecOn with
  | nil => rfl
  | append_singleton entries e ih =>
      rw [setAll_concat, get?_set, ih, List.reverse_concat]
      by_cases he : e.1 = key
      · rw [if_pos he, List.find?_cons_of_pos (by simpa using he), Option.map_some]
      · rw [if_neg he, List.find?_cons_of_neg (by simpa using he)]

end Dict

namespace Store

/-- The keys of a dict stand in the order of their first accepted writes. -/
theorem keys_ofWrites (writes : List Write) (id : ObjectId) :
    ((ofWrites writes).dict id).keys = Write.insertionOrder id writes := by
  rw [dict_ofWrites, Dict.keys_setAll_empty, Write.insertionOrder]

/-- An entry holds what the last accepted write to its key set. -/
theorem dictEntry?_ofWrites (writes : List Write) (id : ObjectId) (key : Item) :
    Store.dictEntry? (ofWrites writes) id key = Write.lastSet? id writes key := by
  rw [Store.dictEntry?, dict_ofWrites, Dict.get?_setAll_empty, Write.lastSet?]

end Store

end ObjectGraph
