import Mathlib.Data.List.Nodup
import Mathlib.Data.Set.Defs
import ObjectGraph.Proofs.Digest.Encoding
import ObjectGraph.Proofs.Store.Reading
import ObjectGraph.Store.Fingerprint

/-!
# What a fingerprint is of

The fingerprint of a store is the digest of its entries: the attributes, the lists
and the keys of the dicts, `Store.entries`, each fed on its own. A store built by
writes has each entry once, and the entries are what the look-ups find, so two
stores with the same contents have the same entries in some order, and sorting the
digests leaves no trace of the order.

Conversely the bytes fed for an entry tell the entry: the three domains differ, and
the encoding of items can be read back.
-/

namespace ObjectGraph

open Digest

namespace Fingerprint

theorem le_trans (a b c : Fingerprint) (hab : le a b = true) (hbc : le b c = true) :
    le a c = true :=
  Std.TransCmp.isLE_trans hab hbc

theorem le_total (a b : Fingerprint) : (le a b || le b a) = true := by
  rw [le, le, Std.OrientedOrd.eq_swap (a := a.bytes)]
  cases compare b.bytes a.bytes <;> rfl

theorem le_antisymm {a b : Fingerprint} (hab : le a b = true) (hba : le b a = true) : a = b := by
  obtain ⟨bytes, _⟩ := a
  obtain ⟨bytes', _⟩ := b
  obtain rfl : bytes = bytes' :=
    Std.LawfulEqOrd.eq_of_compare (Std.OrientedCmp.isLE_antisymm hab hba)
  rfl

end Fingerprint

/-- Entries of an ordered table have different keys. -/
theorem pairwise_toList_ne {α β : Type} [Ord α] [Std.TransOrd α] [Std.LawfulEqOrd α]
    (m : Std.ExtTreeMap α β) : m.toList.Pairwise fun a b => a.1 ≠ b.1 :=
  Std.ExtTreeMap.distinct_keys_toList.imp fun hne heq => hne (by
    rw [heq]
    exact Std.ReflCmp.compare_self)

theorem Dict.mem_entries_iff {d : Dict} (hd : d.Valid) {key value : Item} :
    (key, value) ∈ d.entries ↔ d.get? key = some value := by
  constructor
  · exact Dict.get?_of_mem hd
  · intro h
    obtain ⟨e, hfind, rfl⟩ := Option.map_eq_some_iff.1 h
    have hkey := List.find?_some hfind
    rw [beq_iff_eq] at hkey
    exact hkey ▸ List.mem_of_find?_eq_some hfind

namespace Store

/-- One entry of one of the three tables. -/
inductive Entry where
  | attr (id : ObjectId) (name : String) (value : Item)
  | list (id : ObjectId) (items : List Item)
  | dict (id : ObjectId) (key value : Item)

/-- What is fed to the digest for an entry. -/
def Entry.feed : Entry → Feed
  | .attr id name value => attrFeed id name value
  | .list id items => listFeed id items
  | .dict id key value => dictFeed id key value

/-- The byte strings of an entry are short. -/
def Entry.Fits : Entry → Prop
  | .attr _ name value => Short (utf8 name) ∧ value.Fits
  | .list _ items => ∀ item ∈ items, item.Fits
  | .dict _ key value => key.Fits ∧ value.Fits

/-- The store has the entry. -/
def Has (s : Store) : Entry → Prop
  | .attr id name value => s.attr? id name = some value
  | .list id items => s.list? id = some items
  | .dict id key value => s.dictEntry? id key = some value

def attrEntries (s : Store) : List Entry :=
  s.attrs.toList.flatMap fun o => o.2.toList.map fun a => .attr o.1 a.1 a.2

def listEntries (s : Store) : List Entry :=
  s.lists.toList.map fun l => .list l.1 l.2

def keyEntries (s : Store) : List Entry :=
  s.dicts.toList.flatMap fun d => d.2.entries.map fun e => .dict d.1 e.1 e.2

/-- All entries of a store. -/
def entries (s : Store) : List Entry :=
  s.attrEntries ++ s.listEntries ++ s.keyEntries

theorem entryFeeds_eq (s : Store) : s.entryFeeds = s.entries.map Entry.feed := by
  simp only [entryFeeds, entries, attrEntries, listEntries, keyEntries, List.map_append,
    List.map_flatMap, List.map_map, Function.comp_def, Entry.feed]

variable {s t : Store}

/-! ### The entries of a store are what it has -/

theorem mem_attrEntries {e : Entry} :
    e ∈ s.attrEntries ↔
      ∃ id name value, e = .attr id name value ∧ s.attr? id name = some value := by
  simp only [attrEntries, List.mem_flatMap, List.mem_map, Prod.exists,
    Std.ExtTreeMap.mem_toList_iff_getElem?_eq_some]
  constructor
  · rintro ⟨id, table, htable, name, value, hvalue, rfl⟩
    refine ⟨id, name, value, rfl, ?_⟩
    rwa [attr?, localAttrs, htable]
  · rintro ⟨id, name, value, rfl, hvalue⟩
    rw [attr?, localAttrs] at hvalue
    cases htable : s.attrs[id]? with
    | none => simp [htable] at hvalue
    | some table => exact ⟨id, table, htable, name, value, by simpa [htable] using hvalue, rfl⟩

theorem mem_listEntries {e : Entry} :
    e ∈ s.listEntries ↔ ∃ id items, e = .list id items ∧ s.list? id = some items := by
  simp only [listEntries, List.mem_map, Prod.exists, Std.ExtTreeMap.mem_toList_iff_getElem?_eq_some]
  constructor
  · rintro ⟨id, items, hitems, rfl⟩
    exact ⟨id, items, rfl, hitems⟩
  · rintro ⟨id, items, rfl, hitems⟩
    exact ⟨id, items, hitems, rfl⟩

theorem mem_keyEntries (hs : s.Valid) {e : Entry} :
    e ∈ s.keyEntries ↔
      ∃ id key value, e = .dict id key value ∧ s.dictEntry? id key = some value := by
  simp only [keyEntries, List.mem_flatMap, List.mem_map, Prod.exists,
    Std.ExtTreeMap.mem_toList_iff_getElem?_eq_some]
  constructor
  · rintro ⟨id, d, hd, key, value, hvalue, rfl⟩
    refine ⟨id, key, value, rfl, ?_⟩
    rw [Store.dictEntry?, dict, hd]
    exact (Dict.mem_entries_iff (hs.dicts id d hd).2.2).1 hvalue
  · rintro ⟨id, key, value, rfl, hvalue⟩
    rw [Store.dictEntry?, dict] at hvalue
    cases hd : s.dicts[id]? with
    | none => simp [hd] at hvalue
    | some d =>
        rw [hd, Option.getD_some] at hvalue
        exact ⟨id, d, hd, key, value, (Dict.mem_entries_iff (hs.dicts id d hd).2.2).2 hvalue, rfl⟩

theorem mem_entries (hs : s.Valid) {e : Entry} : e ∈ s.entries ↔ s.Has e := by
  rw [entries, List.mem_append, List.mem_append, mem_attrEntries, mem_listEntries,
    mem_keyEntries hs]
  cases e <;> simp [Has]

/-! ### Each entry is there once -/

theorem nodup_attrEntries (s : Store) : s.attrEntries.Nodup := by
  refine List.nodup_flatMap.2 ⟨fun o _ => ?_, (pairwise_toList_ne s.attrs).imp ?_⟩
  · refine List.pairwise_map.2 ((pairwise_toList_ne o.2).imp fun hne heq => hne ?_)
    exact (Entry.attr.inj heq).2.1
  · intro a b hne e ha hb
    obtain ⟨_, _, rfl⟩ := List.mem_map.1 ha
    obtain ⟨_, _, heq⟩ := List.mem_map.1 hb
    exact hne (Entry.attr.inj heq).1.symm

theorem nodup_listEntries (s : Store) : s.listEntries.Nodup :=
  List.pairwise_map.2 ((pairwise_toList_ne s.lists).imp fun hne heq => hne (Entry.list.inj heq).1)

theorem nodup_keyEntries (hs : s.Valid) : s.keyEntries.Nodup := by
  refine List.nodup_flatMap.2 ⟨fun d hd => ?_, (pairwise_toList_ne s.dicts).imp ?_⟩
  · have hvalid := (hs.dicts d.1 d.2 (Std.ExtTreeMap.mem_toList_iff_getElem?_eq_some.1 hd)).2.2
    refine List.pairwise_map.2 ((List.pairwise_map.1 hvalid).imp fun hne heq => hne ?_)
    exact (Entry.dict.inj heq).2.1
  · intro a b hne e ha hb
    obtain ⟨_, _, rfl⟩ := List.mem_map.1 ha
    obtain ⟨_, _, heq⟩ := List.mem_map.1 hb
    exact hne (Entry.dict.inj heq).1.symm

theorem nodup_entries (hs : s.Valid) : s.entries.Nodup := by
  refine List.nodup_append.2 ⟨List.nodup_append.2 ⟨s.nodup_attrEntries, s.nodup_listEntries, ?_⟩,
    nodup_keyEntries hs, ?_⟩
  · rintro _ ha _ hb rfl
    obtain ⟨_, _, _, rfl, -⟩ := mem_attrEntries.1 ha
    obtain ⟨_, _, heq, -⟩ := mem_listEntries.1 hb
    cases heq
  · rintro _ ha _ hb rfl
    obtain ⟨_, _, _, rfl, -⟩ := (mem_keyEntries hs).1 hb
    rcases List.mem_append.1 ha with ha | ha
    · obtain ⟨_, _, _, heq, -⟩ := mem_attrEntries.1 ha
      cases heq
    · obtain ⟨_, _, heq, -⟩ := mem_listEntries.1 ha
      cases heq

/-! ### Equal contents -/

/-- The stores have the same attributes, the same lists, and dicts with the same
values under the same keys, in whatever order. -/
structure SameContents (s t : Store) : Prop where
  attrs : ∀ id name, s.attr? id name = t.attr? id name
  lists : ∀ id, s.list? id = t.list? id
  dicts : ∀ id key, s.dictEntry? id key = t.dictEntry? id key

theorem sameContents_iff : s.SameContents t ↔ ∀ e, s.Has e ↔ t.Has e := by
  constructor
  · intro h e
    cases e with
    | attr id name value => rw [Has, Has, h.attrs id name]
    | list id items => rw [Has, Has, h.lists id]
    | dict id key value => rw [Has, Has, h.dicts id key]
  · intro h
    exact ⟨fun id name => Option.ext fun value => h (.attr id name value),
      fun id => Option.ext fun items => h (.list id items),
      fun id key => Option.ext fun value => h (.dict id key value)⟩

theorem SameContents.perm_entries (hs : s.Valid) (ht : t.Valid) (h : s.SameContents t) :
    s.entries.Perm t.entries :=
  (List.perm_ext_iff_of_nodup (nodup_entries hs) (nodup_entries ht)).2 fun e => by
    rw [mem_entries hs, mem_entries ht, sameContents_iff.1 h e]

/-- The feed of a store forgets the order of its entries. -/
theorem storeFeed_perm {fps fps' : List Fingerprint} (h : fps.Perm fps') :
    storeFeed fps = storeFeed fps' := by
  have hsorted : fps.mergeSort Fingerprint.le = fps'.mergeSort Fingerprint.le := by
    refine List.Perm.eq_of_pairwise (fun a b _ _ => Fingerprint.le_antisymm)
      (List.pairwise_mergeSort Fingerprint.le_trans Fingerprint.le_total fps)
      (List.pairwise_mergeSort Fingerprint.le_trans Fingerprint.le_total fps') ?_
    exact (List.mergeSort_perm _ _).trans (h.trans (List.mergeSort_perm _ _).symm)
  rw [storeFeed, storeFeed, h.length_eq, hsorted]

/-- The byte strings that are handed to the digest for the entries of a store. -/
def strings (s : Store) : List Bytes :=
  s.entryFeeds.map Feed.encode

/-- The digest is handed the strings of the entries, and then one string that is made of their
fingerprints. -/
theorem fingerprintWith_eq (s : Store) (digest : Bytes → Fingerprint) :
    s.fingerprintWith digest = digest (storeFeed (s.strings.map digest)).encode := by
  rw [fingerprintWith, strings, List.map_map, Function.comp_def]

theorem SameContents.perm_strings (hs : s.Valid) (ht : t.Valid) (h : s.SameContents t) :
    s.strings.Perm t.strings := by
  rw [strings, strings, entryFeeds_eq, entryFeeds_eq]
  exact ((h.perm_entries hs ht).map _).map _

theorem SameContents.fingerprintWith_eq (hs : s.Valid) (ht : t.Valid) (h : s.SameContents t)
    (digest : Bytes → Fingerprint) : s.fingerprintWith digest = t.fingerprintWith digest := by
  rw [Store.fingerprintWith_eq, Store.fingerprintWith_eq,
    storeFeed_perm ((h.perm_strings hs ht).map digest)]

/-! ### Different contents -/

namespace Entry

/-- The object that an entry is of. -/
def id : Entry → ObjectId
  | .attr id _ _ => id
  | .list id _ => id
  | .dict id _ _ => id

/-- The bytes of an entry after its domain and its object. -/
def rest : Entry → Bytes
  | .attr _ name value => block (utf8 name) ++ value.encode
  | .list _ items =>
    littleEndian 8 (UInt64.ofNat items.length).toNat ++ items.flatMap Item.encode
  | .dict _ key value => key.encode ++ value.encode

theorem flatMap_parts (e : Entry) :
    e.feed.parts.flatMap Part.encode = (Item.objectId e.id).encode ++ e.rest := by
  cases e with
  | attr id name value =>
      simp only [feed, attrFeed, rest, Entry.id, List.flatMap_append, List.flatMap_cons,
        Item.encode, Part.encode]
  | list id items =>
      have hitems : (items.flatMap Item.parts).flatMap Part.encode =
          items.flatMap Item.encode := by
        rw [List.flatMap_assoc]
        rfl
      simp only [feed, listFeed, rest, Entry.id, List.flatMap_append, List.flatMap_cons, hitems,
        Item.encode, Part.encode]
  | dict id key value =>
      simp only [feed, dictFeed, rest, Entry.id, List.flatMap_append, Item.encode,
        List.append_assoc]

theorem short_domain (e : Entry) : Short (utf8 e.feed.domain) := by
  cases e with
  | attr id name value => exact (by decide : Short (utf8 "attr"))
  | list id items => exact (by decide : Short (utf8 "list"))
  | dict id key value => exact (by decide : Short (utf8 "dict"))

/-- Entries of one table and one object are told apart by the rest. -/
theorem rest_inj {e f : Entry} (he : e.Fits) (hf : f.Fits)
    (hdomain : e.feed.domain = f.feed.domain) (hid : e.id = f.id) (h : e.rest = f.rest) :
    e = f := by
  -- Entries of two tables have different domains.
  cases e <;> cases f <;> try (simp [feed, attrFeed, listFeed, dictFeed] at hdomain; done)
  case attr.attr id name value id' name' value' =>
      obtain rfl : id = id' := hid
      obtain ⟨hname, hvalue⟩ := block_append_inj he.1 hf.1 h
      rw [utf8_inj.1 hname, Item.encode_inj he.2 hf.2 hvalue]
  case list.list id items id' items' =>
      obtain rfl : id = id' := hid
      obtain ⟨-, hitems⟩ := List.append_inj h (by simp)
      rw [Item.flatMap_encode_inj he hf hitems]
  case dict.dict id key value id' key' value' =>
      obtain rfl : id = id' := hid
      obtain ⟨rfl, hvalue⟩ := Item.encode_append_inj he.1 hf.1 h
      rw [Item.encode_inj he.2 hf.2 hvalue]

/-- What is fed for an entry tells the entry. -/
theorem feed_encode_inj {e f : Entry} (he : e.Fits) (hf : f.Fits)
    (h : e.feed.encode = f.feed.encode) : e = f := by
  obtain ⟨hdomain, hparts⟩ := Feed.encode_inj e.short_domain f.short_domain h
  rw [flatMap_parts, flatMap_parts] at hparts
  have hfits : ∀ id, (Item.objectId id).Fits := fun _ => trivial
  obtain ⟨hid, hrest⟩ := Item.encode_append_inj (hfits _) (hfits _) hparts
  exact rest_inj he hf hdomain (Item.objectId.inj hid) hrest

end Entry

/-- The byte strings that are fed to the digest for the entries of a store. -/
def fed (s : Store) : Set Bytes :=
  {b | ∃ feed ∈ s.entryFeeds, feed.encode = b}

/-- What is fed for the entries is what the fingerprint hands to the digest for them. -/
theorem mem_strings {b : Bytes} : b ∈ s.strings ↔ b ∈ s.fed :=
  List.mem_map

/-- Every name and every byte string in the store is short. -/
def Fits (s : Store) : Prop :=
  ∀ e, s.Has e → e.Fits

theorem fits_empty : (∅ : Store).Fits := by
  intro e he
  cases e with
  | attr id name value => exact absurd he (not_says_empty (.attr id name value))
  | list id items => exact absurd he (not_says_empty (.list id items))
  | dict id key value =>
      rw [Has, dictEntry?, show (∅ : Store) = empty from rfl, dict_empty, Dict.get?_empty] at he
      cases he

theorem Fits.putInDict (hs : s.Fits) (id : ObjectId) {key value : Item} (hkey : key.Fits)
    (hvalue : value.Fits) : (s.putInDict id key value).Fits := by
  intro e he
  cases e with
  | attr other name v => exact hs (.attr other name v) he
  | list other items => exact hs (.list other items) he
  | dict other k v =>
      rw [Has, dictEntry?, dict_putInDict] at he
      split at he
      · rename_i heq
        subst heq
        rw [Dict.get?_set] at he
        split at he
        · rename_i heq
          subst heq
          exact ⟨hkey, Option.some.inj he ▸ hvalue⟩
        · exact hs (.dict id k v) he
      · exact hs (.dict other k v) he

theorem mem_fed (hs : s.Valid) {b : Bytes} :
    b ∈ s.fed ↔ ∃ e, s.Has e ∧ e.feed.encode = b := by
  simp [← mem_strings, strings, entryFeeds_eq, mem_entries hs]

theorem Has.of_fed_subset (hs : s.Valid) (ht : t.Valid) (hsf : s.Fits) (htf : t.Fits)
    (h : s.fed ⊆ t.fed) {e : Entry} (he : s.Has e) : t.Has e := by
  obtain ⟨f, hf, heq⟩ := (mem_fed ht).1 (h ((mem_fed hs).2 ⟨e, he, rfl⟩))
  rwa [← Entry.feed_encode_inj (htf f hf) (hsf e he) heq]

/-- Stores that are fed the same have the same contents. -/
theorem sameContents_of_fed_eq (hs : s.Valid) (ht : t.Valid) (hsf : s.Fits) (htf : t.Fits)
    (h : s.fed = t.fed) : s.SameContents t :=
  sameContents_iff.2 fun _ =>
    ⟨Has.of_fed_subset hs ht hsf htf h.subset, Has.of_fed_subset ht hs htf hsf h.superset⟩

/-- A fingerprint depends on the contents alone, whatever the digest is, and the
digest is fed different entries for different contents. -/
theorem fingerprint_contents (hs : s.Written) (ht : t.Written) :
    (s.SameContents t → ∀ digest, s.fingerprintWith digest = t.fingerprintWith digest) ∧
      (s.Fits → t.Fits → ¬ s.SameContents t → s.fed ≠ t.fed) :=
  ⟨fun h => h.fingerprintWith_eq hs.valid ht.valid, fun hsf htf hne heq =>
    hne (sameContents_of_fed_eq hs.valid ht.valid hsf htf heq)⟩

namespace Orders

def prices : ObjectId :=
  ⟨1, 0, .dict⟩

def oakFirst : Store :=
  ((∅ : Store).putInDict prices (.text "oak") (.int32 7)).putInDict prices (.text "elm") (.int32 5)

def elmFirst : Store :=
  ((∅ : Store).putInDict prices (.text "elm") (.int32 5)).putInDict prices (.text "oak") (.int32 7)

/-- The first key is hidden by a tombstone. -/
def hidden : Store :=
  oakFirst.putInDict prices (.text "oak") .missing

theorem written_put (hs : s.Written) (key : String) (value : Item) :
    (s.putInDict prices (.text key) value).Written :=
  .setInDict hs (setInDict_of_valid s rfl rfl value)

theorem sameContents : oakFirst.SameContents elmFirst := by
  refine ⟨fun _ _ => rfl, fun _ => rfl, fun id key => ?_⟩
  simp only [oakFirst, elmFirst, dictEntry?, dict_putInDict]
  by_cases hid : prices = id
  · have hkeys : Item.text "oak" = key → Item.text "elm" ≠ key := by
      rintro rfl
      decide
    simp only [hid, if_true, Dict.get?_set]
    split <;> simp_all
  · simp only [hid, if_false]

theorem not_sameContents : ¬ oakFirst.SameContents hidden := fun h =>
  absurd (h.dicts prices (.text "oak")) (by
    simp [hidden, oakFirst, dictEntry?, dict_putInDict, Dict.get?_set])

theorem fits : oakFirst.Fits ∧ hidden.Fits := by
  have hoak : (Item.text "oak").Fits := (by decide : Short (utf8 "oak"))
  have helm : (Item.text "elm").Fits := (by decide : Short (utf8 "elm"))
  have hnumber : ∀ n, (Item.int32 n).Fits := fun _ => trivial
  have hmissing : Item.missing.Fits := trivial
  have hfirst : oakFirst.Fits :=
    (fits_empty.putInDict prices hoak (hnumber 7)).putInDict prices helm (hnumber 5)
  exact ⟨hfirst, hfirst.putInDict prices hoak hmissing⟩

/-- The order of two keys leaves no trace, and a tombstone does. -/
theorem fingerprint_contents_prices :
    (∀ digest, oakFirst.fingerprintWith digest = elmFirst.fingerprintWith digest) ∧
      oakFirst.fed ≠ hidden.fed := by
  have hoak : oakFirst.Written := written_put (written_put .empty "oak" _) "elm" _
  have helm : elmFirst.Written := written_put (written_put .empty "elm" _) "oak" _
  have hhidden : hidden.Written := written_put hoak "oak" _
  exact ⟨(fingerprint_contents hoak helm).1 sameContents,
    (fingerprint_contents hoak hhidden).2 fits.1 fits.2 not_sameContents⟩

end Orders

end Store

end ObjectGraph
