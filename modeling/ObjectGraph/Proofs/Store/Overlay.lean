import ObjectGraph.Proofs.Store.HashedDict
import ObjectGraph.Proofs.Store.Writes

/-!
# Dicts read through several stores

Along a chain of stores a dict is an overlay. The first store with an entry for a
key decides what the key reads as, and an entry may be a tombstone, so a store can
hide a key that the stores below it have. The keys come in the order in which the
chain first mentions them; a key that is hidden and comes back has kept its place.

What the stores hold is told by the histories that built them.
-/

namespace ObjectGraph

namespace Write

/-- The entry that decides a key is that of the first history with an entry for it. -/
inductive Effective (id : ObjectId) (key : Item) : List (List Write) → Option Item → Prop
  | nowhere : Effective id key [] none
  | first {writes : List Write} {below : List (List Write)} {value : Item} :
      lastSet? id writes key = some value → Effective id key (writes :: below) (some value)
  | further {writes : List Write} {below : List (List Write)} {entry : Option Item} :
      lastSet? id writes key = none → Effective id key below entry →
      Effective id key (writes :: below) entry

theorem effective_iff {id : ObjectId} {key : Item} {histories : List (List Write)}
    {entry : Option Item} :
    Effective id key histories entry ↔
      histories.findSome? (fun writes => lastSet? id writes key) = entry := by
  constructor
  · intro h
    induction h with
    | nowhere => rfl
    | first h => rw [List.findSome?_cons, h]
    | further h _ ih => rw [List.findSome?_cons, h, ih]
  · intro h
    induction histories generalizing entry with
    | nil =>
        obtain rfl : none = entry := h
        exact .nowhere
    | cons writes below ih =>
        rw [List.findSome?_cons] at h
        cases hlast : lastSet? id writes key with
        | none =>
            rw [hlast] at h
            exact .further hlast (ih h)
        | some value =>
            rw [hlast] at h
            obtain rfl : some value = entry := h
            exact .first hlast

end Write

namespace View

variable {ι : Type*}

/-- The store at `main` together with those at `span`, which it falls back on. -/
def chain (stores : ι → Store) (main : ι) (span : List ι) : View :=
  .ofStore (stores main) (span.map stores)

/-- What a dict reads as along a chain of histories. -/
structure ReadsDict (v : View) (histories : List (List Write)) (id : ObjectId) : Prop where
  value : ∀ key, ∃ entry, Write.Effective id key histories entry ∧
    v.dictValue id key = entry.getD .missing
  nodup : (v.dictKeys id).Nodup
  mem_keys : ∀ key, key ∈ v.dictKeys id ↔
    ∃ value, Write.Effective id key histories (some value) ∧ value.isPresent = true
  ordered : (v.dictKeys id).Pairwise fun a b =>
    (histories.flatMap (Write.insertionOrder id)).idxOf a <
      (histories.flatMap (Write.insertionOrder id)).idxOf b
  size : v.dictSize id = (v.dictKeys id).length
  keys_entries : (v.dictEntries id).map Prod.fst = v.dictKeys id
  entries : ∀ e ∈ v.dictEntries id, Write.Effective id e.1 histories (some e.2)

/-- The second view reads as the first one after a key was set. -/
structure SetsKey (v w : View) (id : ObjectId) (key value : Item) : Prop where
  set : w.dictValue id key = value
  others : ∀ other k, (other, k) ≠ (id, key) → w.dictValue other k = v.dictValue other k
  order : ∀ other,
    (w.dictKeys other).filter (fun k => (other, k) ≠ (id, key)) =
      (v.dictKeys other).filter (fun k => (other, k) ≠ (id, key))

variable {v : View} {histories : List (List Write)} {id : ObjectId}

theorem dictEntry?_histories (hv : v.layers = histories.map Store.ofWrites) (key : Item) :
    v.dictEntry? id key = histories.findSome? fun writes => Write.lastSet? id writes key := by
  rw [View.dictEntry?, hv, List.findSome?_map]
  exact congrArg (histories.findSome? ·)
    (funext fun writes => Store.dictEntry?_ofWrites writes id key)

theorem mentionedKeys_histories (hv : v.layers = histories.map Store.ofWrites) :
    v.mentionedKeys id = (histories.flatMap (Write.insertionOrder id)).eraseDups := by
  rw [mentionedKeys, hv, List.flatMap_map]
  exact congrArg (fun f => (histories.flatMap f).eraseDups)
    (funext fun writes => Store.keys_ofWrites writes id)

/-- The dicts of a view over histories. -/
theorem readsDict_histories (hv : v.layers = histories.map Store.ofWrites) :
    v.ReadsDict histories id := by
  have hentry : ∀ key, v.dictEntry? id key =
      histories.findSome? fun writes => Write.lastSet? id writes key :=
    dictEntry?_histories hv
  have hmem : ∀ key, key ∈ v.dictKeys id ↔
      ∃ value, Write.Effective id key histories (some value) ∧ value.isPresent = true := by
    intro key
    rw [mem_dictKeys, dictValue, hentry key]
    simp only [Write.effective_iff]
    cases histories.findSome? (fun writes => Write.lastSet? id writes key) with
    | none => simp [Item.isPresent, Item.type?]
    | some value => simp
  refine ⟨fun key => ⟨_, Write.effective_iff.2 rfl, ?_⟩, v.nodup_dictKeys id, hmem, ?_, rfl,
    v.map_fst_dictEntries id, ?_⟩
  · rw [dictValue, hentry key]
  · rw [dictKeys, mentionedKeys_histories hv]
    exact (pairwise_idxOf_eraseDups _).filter _
  · intro e he
    obtain ⟨key, hkey, rfl⟩ := List.mem_map.1 he
    obtain ⟨value, heff, -⟩ := (hmem key).1 hkey
    rw [dictValue, hentry key, Write.effective_iff.1 heff]
    exact heff

/-! ### Setting a key -/

/-- The stores agree on the entries and the order of all keys but one. -/
structure AgreeBut (s t : Store) (id : ObjectId) (key : Item) : Prop where
  entries : ∀ other k, (other, k) ≠ (id, key) → t.dictEntry? other k = s.dictEntry? other k
  order : ∀ other, (t.dict other).keys.filter (fun k => (other, k) ≠ (id, key)) =
    (s.dict other).keys.filter (fun k => (other, k) ≠ (id, key))

theorem agreeBut_putInDict (s : Store) (id : ObjectId) (key value : Item) :
    AgreeBut s (s.putInDict id key value) id key := by
  constructor
  · intro other k hne
    rw [Store.dictEntry?, Store.dict_putInDict]
    split
    · rename_i heq
      subst heq
      have hk : key ≠ k := fun h => hne (by rw [h])
      rw [Dict.get?_set, if_neg hk, Store.dictEntry?]
    · rfl
  · intro other
    rw [Store.dict_putInDict]
    split
    · rename_i heq
      subst heq
      rw [Dict.keys_set]
      split
      · rfl
      · simp [List.filter_append]
    · rfl

section

variable {stores others : ι → Store} {main : ι} {span : List ι} {key value : Item}

/-- Chains of stores that answer a look-up alike answer it alike. -/
theorem findSome?_chain_congr {α : Type*} {f : Store → Option α}
    (h : ∀ i, f (others i) = f (stores i)) :
    (chain others main span).layers.findSome? f = (chain stores main span).layers.findSome? f := by
  change ((main :: span).map others).findSome? f = ((main :: span).map stores).findSome? f
  rw [List.findSome?_map, List.findSome?_map]
  exact congrArg ((main :: span).findSome? ·) (funext h)

theorem AgreeBut.dictValue (h : ∀ i, AgreeBut (stores i) (others i) id key) {other : ObjectId}
    {k : Item} (hne : (other, k) ≠ (id, key)) :
    (chain others main span).dictValue other k = (chain stores main span).dictValue other k := by
  exact congrArg (Option.getD · Item.missing)
    (findSome?_chain_congr fun i => (h i).entries other k hne)

theorem AgreeBut.mentionedKeys (h : ∀ i, AgreeBut (stores i) (others i) id key)
    (other : ObjectId) :
    ((chain others main span).mentionedKeys other).filter (fun k => (other, k) ≠ (id, key)) =
      ((chain stores main span).mentionedKeys other).filter
        (fun k => (other, k) ≠ (id, key)) := by
  rw [View.mentionedKeys, View.mentionedKeys, filter_eraseDups, filter_eraseDups]
  refine congrArg List.eraseDups ?_
  change List.filter _ (((main :: span).map others).flatMap _) =
    List.filter _ (((main :: span).map stores).flatMap _)
  rw [List.flatMap_map, List.flatMap_map, List.filter_flatMap, List.filter_flatMap]
  exact congrArg ((main :: span).flatMap ·) (funext fun i => (h i).order other)

theorem AgreeBut.dictKeys (h : ∀ i, AgreeBut (stores i) (others i) id key) (other : ObjectId) :
    ((chain others main span).dictKeys other).filter (fun k => (other, k) ≠ (id, key)) =
      ((chain stores main span).dictKeys other).filter (fun k => (other, k) ≠ (id, key)) := by
  have hpresent : ∀ keys : List Item,
      (keys.filter fun k => ((chain others main span).dictValue other k).isPresent).filter
          (fun k => (other, k) ≠ (id, key)) =
        (keys.filter fun k => ((chain stores main span).dictValue other k).isPresent).filter
          (fun k => (other, k) ≠ (id, key)) := by
    intro keys
    rw [List.filter_filter, List.filter_filter]
    refine List.filter_congr fun k _ => ?_
    by_cases hk : (other, k) = (id, key)
    · simp [hk]
    · rw [AgreeBut.dictValue h hk]
  rw [View.dictKeys, View.dictKeys, hpresent, List.filter_comm, AgreeBut.mentionedKeys h,
    List.filter_comm]

theorem AgreeBut.setsKey (h : ∀ i, AgreeBut (stores i) (others i) id key)
    (hset : Store.dictEntry? (others main) id key = some value) :
    (chain stores main span).SetsKey (chain others main span) id key value := by
  have hlayers : ((main :: span).map others).findSome? (fun s => s.dictEntry? id key) =
      some value := by
    rw [List.map_cons, List.findSome?_cons, hset]
  exact ⟨congrArg (Option.getD · Item.missing) hlayers, fun _ _ => AgreeBut.dictValue h,
    AgreeBut.dictKeys h⟩

end

end View

namespace Store

theorem fst_after_eq_ok_iff {s : Store} {r : Except Error Store} :
    (s.after r).1 = .ok () ↔ ∃ t, r = .ok t := by
  cases r <;> simp [after]

theorem snd_after_of_ne {s : Store} {r : Except Error Store} (h : (s.after r).1 ≠ .ok ()) :
    (s.after r).2 = s := by
  cases r with
  | ok t => exact absurd rfl h
  | error e => rfl

/-- A key of a dict is set exactly if it can be a key. -/
theorem perform_setInDict_eq_ok_iff {s : Store} {id : ObjectId} {key value : Item} :
    (s.perform (.setInDict id key value)).1 = .ok () ↔
      id.isDict = true ∧ Schema.validateKey key = .ok () := by
  rw [perform, fst_after_eq_ok_iff]
  constructor
  · rintro ⟨t, ht⟩
    exact ⟨(setInDict_eq_ok ht).1, (setInDict_eq_ok ht).2.1⟩
  · rintro ⟨hid, hkey⟩
    exact ⟨_, setInDict_of_valid s hid hkey value⟩

end Store

namespace View

variable {ι : Type*} [DecidableEq ι]

/-- Setting a key in the main store of a chain that may also fall back on that store. -/
theorem setsKey_of_perform {stores : ι → Store} {main : ι} {span : List ι} {id : ObjectId}
    {key value : Item}
    (h : ((stores main).perform (.setInDict id key value)).1 = .ok ()) :
    (chain stores main span).SetsKey
      (chain (Function.update stores main ((stores main).perform (.setInDict id key value)).2)
        main span) id key value := by
  obtain ⟨hid, hkey⟩ := Store.perform_setInDict_eq_ok_iff.1 h
  have hput : ((stores main).perform (.setInDict id key value)).2 =
      (stores main).putInDict id key value := by
    rw [Store.perform, Store.setInDict_of_valid _ hid hkey, Store.after]
  rw [hput]
  refine AgreeBut.setsKey (fun i => ?_) ?_
  · by_cases hi : i = main
    · subst hi
      rw [Function.update_self]
      exact agreeBut_putInDict _ id key value
    · rw [Function.update_of_ne hi]
      exact ⟨fun _ _ _ => rfl, fun _ => rfl⟩
  · rw [Function.update_self, Store.dictEntry?, Store.dict_putInDict, if_pos rfl, Dict.get?_set,
      if_pos rfl]

/-- Dicts read as ordered overlays of what the stores of a chain were given, whatever
was written to them, and an accepted write to the main store changes one key. -/
theorem dicts_overlay (history : ι → List Write) (main : ι) (span : List ι) (id : ObjectId) :
    let stores := fun i => Store.ofWrites (history i)
    let before := chain stores main span
    before.ReadsDict ((main :: span).map history) id ∧
      (∀ key value,
        let written := (stores main).perform (.setInDict id key value)
        (written.1 = .ok () ↔ id.isDict = true ∧ Schema.validateKey key = .ok ()) ∧
        (written.1 = .ok () →
          before.SetsKey (chain (Function.update stores main written.2) main span) id key value) ∧
        (written.1 ≠ .ok () → written.2 = stores main)) ∧
      ∀ changes, (HashedDict.ofChanges changes).keys.Nodup ∧
        (∀ key, key ∈ (HashedDict.ofChanges changes).keys ↔
          ((HashedDict.ofChanges changes).get? key).isSome = true) ∧
        (HashedDict.ofChanges changes).Represents (Dict.ofChanges changes) := by
  intro stores before
  have hlayers : before.layers = ((main :: span).map history).map Store.ofWrites := by
    simp [before, chain, ofStore, stores]
  refine ⟨readsDict_histories hlayers, fun key value => ⟨?_, ?_, ?_⟩, fun changes => ?_⟩
  · exact Store.perform_setInDict_eq_ok_iff
  · exact setsKey_of_perform
  · exact Store.snd_after_of_ne
  · obtain ⟨hrepresents, hvalid⟩ := HashedDict.represents_ofChanges changes
    obtain ⟨hnodup, hmem⟩ := hrepresents.coherent hvalid
    exact ⟨hnodup, hmem, hrepresents⟩

namespace Revived

def prices : ObjectId :=
  ⟨1, 0, .dict⟩

/-- A store of two prices, and a store that hides the second one. -/
def history : Bool → List Write
  | false =>
    [.setInDict prices (.text "oak") (.int32 7), .setInDict prices (.text "elm") (.int32 5)]
  | true => [.setInDict prices (.text "elm") .missing]

def stores (i : Bool) : Store :=
  Store.ofWrites (history i)

/-- The hidden price is set, and is then the first of the two. -/
theorem dicts_overlay_prices :
    ((stores true).perform (.setInDict prices (.text "elm") (.int32 6))).1 = .ok () ∧
      (chain stores true [false]).SetsKey
        (chain (Function.update stores true
          ((stores true).perform (.setInDict prices (.text "elm") (.int32 6))).2) true [false])
        prices (.text "elm") (.int32 6) ∧
      Write.Effective prices (.text "elm") ([true, false].map history) (some .missing) ∧
      [true, false].flatMap (fun i => Write.insertionOrder prices (history i)) =
        [.text "elm", .text "oak", .text "elm"] := by
  have h := (dicts_overlay history true [false] prices).2.1 (.text "elm") (.int32 6)
  have hok := h.1.2 ⟨rfl, rfl⟩
  exact ⟨hok, h.2.1 hok, .first (by decide), by decide⟩

end Revived

end View

end ObjectGraph
