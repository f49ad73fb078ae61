import ObjectGraph.Proofs.Column.Items
import ObjectGraph.Proofs.Digest.TextOrder
import ObjectGraph.Proofs.Store.Overlay

/-!
# Attributes read through several stores

Along a chain of stores an attribute is what the first store with an entry for it says,
and the entry may be a missing value, which hides what the stores below it have. A name
is listed exactly if the attribute is present, so a hidden one is not, and one that
several stores have is listed once.

A write to the objects of a column enters one value after another. Of an object that
stands at several positions, the value of the last one stays.
-/

namespace ObjectGraph

namespace Column

/-- The positions of an object. -/
def positions (c : Column) (id : ObjectId) : List Nat :=
  (List.range c.size).filter fun p => c.get p = .objectId id

/-- The last position of an object. -/
structure LastAt (c : Column) (id : ObjectId) (p : Nat) : Prop where
  get : c.get p = .objectId id
  after : ∀ q, p < q → c.get q ≠ .objectId id

variable {c : Column} {id : ObjectId} {p q : Nat}

theorem LastAt.unique (hp : c.LastAt id p) (hq : c.LastAt id q) : p = q := by
  rcases Nat.lt_trichotomy p q with hlt | heq | hlt
  · exact absurd hq.get (hp.after q hlt)
  · exact heq
  · exact absurd hp.get (hq.after p hlt)

theorem mem_positions : p ∈ c.positions id ↔ c.get p = .objectId id := by
  simp only [positions, List.mem_filter, List.mem_range, decide_eq_true_eq, and_iff_right_iff_imp]
  exact lt_size_of_get

theorem lastAt_of_getLast? (h : (c.positions id).getLast? = some p) : c.LastAt id p := by
  obtain ⟨before, heq⟩ := List.getLast?_eq_some_iff.1 h
  have hsorted : (c.positions id).Pairwise (· < ·) := List.pairwise_lt_range.filter _
  rw [heq, List.pairwise_append] at hsorted
  refine ⟨mem_positions.1 (by simp [heq]), fun q hq hget => ?_⟩
  have hmem := mem_positions.2 hget
  rw [heq, List.mem_append, List.mem_singleton] at hmem
  rcases hmem with hmem | rfl
  · exact Nat.lt_asymm hq (hsorted.2.2 q hmem p (List.mem_singleton_self p))
  · exact Nat.lt_irrefl q hq

theorem exists_lastAt (h : c.get p = .objectId id) :
    ∃ q, (c.positions id).getLast? = some q ∧ c.LastAt id q := by
  have hne : c.positions id ≠ [] := List.ne_nil_of_mem (mem_positions.2 h)
  have hlast := List.getLast?_eq_some_getLast hne
  exact ⟨_, hlast, lastAt_of_getLast? hlast⟩

theorem items_eq_map_get (c : Column) : c.items = (List.range c.size).map c.get := by
  rw [List.range_eq_range', map_get_range' (by omega), List.drop_zero, ← length_items,
    List.take_length]

theorem zip_items {values : Column} (h : c.size = values.size) :
    c.items.zip values.items = (List.range c.size).map fun p => (c.get p, values.get p) := by
  rw [items_eq_map_get c, items_eq_map_get values, ← h, List.zip_map']

end Column

/-! ### What writes make of an attribute -/

namespace Write

/-- The values that a write gives to an attribute, one after another. -/
def attrValues (id : ObjectId) (name : String) : Write → List Item
  | .setAttr other n value => if other = id ∧ n = name then [value] else []
  | .setAttrColumn objects n values =>
    if n = name ∧ objects.size = values.size then (objects.positions id).map values.get else []
  | .setSchemaAttr schema n value =>
    if (schema.isSchema = true ∧ (value = .missing ∨ value.isSchema = true)) ∧
        schema = id ∧ n = name then [value]
    else []
  | _ => []

theorem attrValues_setAttrColumn_of_other {objects values : Column} {id : ObjectId}
    {name other : String} (h : other ≠ name ∨ ∀ p, objects.get p ≠ .objectId id) :
    (setAttrColumn objects name values).attrValues id other = [] := by
  rw [attrValues]
  split
  · rename_i hwritten
    rcases h with hne | hne
    · exact absurd hwritten.1.symm hne
    · have hnil : objects.positions id = [] :=
        List.eq_nil_iff_forall_not_mem.2 fun p hp => hne p (Column.mem_positions.1 hp)
      rw [hnil, List.map_nil]
  · rfl

/-- What the last of the writes to an attribute sets it to. -/
def lastAttr? (id : ObjectId) (name : String) (writes : List Write) : Option Item :=
  (writes.flatMap (attrValues id name)).getLast?

theorem lastAttr?_concat (id : ObjectId) (name : String) (writes : List Write) (w : Write) :
    lastAttr? id name (writes ++ [w]) =
      (w.attrValues id name).getLast?.or (lastAttr? id name writes) := by
  rw [lastAttr?, List.flatMap_append, List.getLast?_append, List.flatMap_singleton, lastAttr?]

end Write

namespace Store

variable {s t : Store} {id : ObjectId} {name : String}

/-- Enters the value at one position of a column for the object there. -/
def setAttrAt (objects : Column) (name : String) (values : Column) (s : Store) (p : Nat) : Store :=
  match (objects.get p).objectId? with
  | some id => s.setAttr id name (values.get p)
  | none => s

theorem setAttrColumn_of_size (s : Store) {objects values : Column} (name : String)
    (h : objects.size = values.size) : s.setAttrColumn objects name values =
      .ok ((List.range objects.size).foldl (setAttrAt objects name values) s) := by
  rw [setAttrColumn, if_neg (by simpa using h), Column.zip_items h, List.foldl_map]
  rfl

theorem attr?_foldl_setAttrAt (s : Store) (objects values : Column) (n : String)
    (ps : List Nat) :
    (ps.foldl (setAttrAt objects n values) s).attr? id name =
      (if n = name then
        ((ps.filter fun p => objects.get p = .objectId id).map values.get).getLast?
      else none).or (s.attr? id name) := by
  induction ps using List.reverseRecOn with
  | nil => simp
  | append_singleton ps p ih =>
      rw [List.foldl_concat, setAttrAt, List.filter_append]
      cases hid : (objects.get p).objectId? with
      | none =>
          have hne : objects.get p ≠ .objectId id := fun heq => by
            rw [heq] at hid
            cases hid
          simp [ih, hne]
      | some other =>
          have hget := Item.objectId?_eq_some_iff.1 hid
          by_cases hn : n = name
          · subst hn
            by_cases hother : other = id <;> simp [attr?_setAttr, ih, hget, hother]
          · simp [attr?_setAttr, ih, hn]

theorem attr?_perform_setAttrColumn (s : Store) (objects : Column) (n : String)
    (values : Column) :
    (s.perform (.setAttrColumn objects n values)).2.attr? id name =
      ((Write.setAttrColumn objects n values).attrValues id name).getLast?.or
        (s.attr? id name) := by
  rw [perform, Write.attrValues]
  by_cases hsize : objects.size = values.size
  · rw [setAttrColumn_of_size s n hsize, after, attr?_foldl_setAttrAt]
    by_cases hn : n = name <;> simp [hn, hsize, Column.positions]
  · rw [setAttrColumn, if_pos hsize, if_neg fun h => hsize h.2]
    rfl

/-- An attribute of a schema is declared exactly if it can be, and then it is set. -/
theorem setSchemaAttr_eq_ok_iff {schema : ObjectId} {value : Item} :
    s.setSchemaAttr schema name value = .ok t ↔
      (schema.isSchema = true ∧ (value = .missing ∨ value.isSchema = true)) ∧
        s.setAttr schema name value = t := by
  unfold setSchemaAttr
  cases hschema : schema.isSchema with
  | false => simp [bind, Except.bind, throw, throwThe, MonadExceptOf.throw]
  | true =>
      cases hvalue : value.isPresent with
      | false =>
          have hmissing : value = .missing := by
            by_contra hne
            exact Bool.false_ne_true (hvalue.symm.trans ((Item.isPresent_iff value).2 hne))
          simp [hmissing, pure, Except.pure]
      | true =>
          have hne := (Item.isPresent_iff value).1 hvalue
          cases hverify : value.isSchema <;>
            simp [Schema.verify, hne, hverify, bind, Except.bind, pure, Except.pure]

theorem perform_setAttrColumn_eq_ok_iff {objects values : Column} :
    (s.perform (.setAttrColumn objects name values)).1 = .ok () ↔
      objects.size = values.size := by
  rw [perform, fst_after_eq_ok_iff]
  constructor
  · rintro ⟨t, ht⟩
    by_contra hsize
    rw [setAttrColumn, if_pos hsize] at ht
    cases ht
  · intro hsize
    exact ⟨_, setAttrColumn_of_size s name hsize⟩

theorem perform_setSchemaAttr_eq_ok_iff {schema : ObjectId} {value : Item} :
    (s.perform (.setSchemaAttr schema name value)).1 = .ok () ↔
      schema.isSchema = true ∧ (value = .missing ∨ value.isSchema = true) := by
  rw [perform, fst_after_eq_ok_iff]
  simp only [setSchemaAttr_eq_ok_iff, exists_and_left, exists_eq', and_true]

theorem snd_perform_setSchemaAttr {schema : ObjectId} {value : Item}
    (h : schema.isSchema = true ∧ (value = .missing ∨ value.isSchema = true)) :
    (s.perform (.setSchemaAttr schema name value)).2 = s.setAttr schema name value := by
  rw [perform, setSchemaAttr_eq_ok_iff.2 ⟨h, rfl⟩, after]

theorem attr?_perform_setSchemaAttr (s : Store) (schema : ObjectId) (n : String)
    (value : Item) :
    (s.perform (.setSchemaAttr schema n value)).2.attr? id name =
      ((Write.setSchemaAttr schema n value).attrValues id name).getLast?.or
        (s.attr? id name) := by
  rw [perform, Write.attrValues]
  cases h : s.setSchemaAttr schema n value with
  | ok t =>
      obtain ⟨hvalid, rfl⟩ := setSchemaAttr_eq_ok_iff.1 h
      rw [after, attr?_setAttr]
      by_cases hat : schema = id ∧ n = name
      · rw [if_pos hat, if_pos ⟨hvalid, hat⟩]
        rfl
      · rw [if_neg hat, if_neg fun h => hat h.2]
        rfl
  | error e =>
      rw [after, if_neg]
      · rfl
      · rintro ⟨hvalid, -⟩
        cases h.symm.trans (setSchemaAttr_eq_ok_iff.2 ⟨hvalid, rfl⟩)

theorem attr?_perform (s : Store) (w : Write) (id : ObjectId) (name : String) :
    (s.perform w).2.attr? id name = (w.attrValues id name).getLast?.or (s.attr? id name) := by
  have hput : ∀ (s : Store) other items,
      (s.putList other items).attr? id name = s.attr? id name :=
    fun s other items => attr?_putList s other id items name
  cases w with
  | setAttr other n value =>
      rw [perform, attr?_setAttr, Write.attrValues]
      split <;> rfl
  | setAttrColumn objects n values => exact attr?_perform_setAttrColumn s objects n values
  | setSchemaAttr schema n value => exact attr?_perform_setSchemaAttr s schema n value
  | setList other items =>
      exact after_keeps (·.attr? id name) fun t => setList_keeps (·.attr? id name) hput
  | append fallbacks other item =>
      exact after_keeps (·.attr? id name) fun t => setList_keeps (·.attr? id name) hput
  | extendLists fallbacks lists values edge =>
      exact extendLists_keeps (·.attr? id name) hput s fallbacks lists values edge
  | setInDict other key value =>
      refine after_keeps (·.attr? id name) fun t h => ?_
      obtain ⟨-, -, rfl⟩ := setInDict_eq_ok h
      exact attr?_putInDict s other id key value name

/-- An entry is the last value that the attribute was given. -/
theorem attr?_ofWrites (writes : List Write) (id : ObjectId) (name : String) :
    (ofWrites writes).attr? id name = Write.lastAttr? id name writes := by
  induction writes using List.reverseRecOn with
  | nil => exact attr?_empty id name
  | append_singleton writes w ih =>
      rw [ofWrites_concat, attr?_perform, ih, Write.lastAttr?_concat]

end Store

namespace View

/-- What the attributes of an object read as along a chain of histories. -/
structure ReadsAttrs (v : View) (histories : List (List Write)) (id : ObjectId) : Prop where
  first : ∀ name above writes below value, histories = above ++ writes :: below →
    (∀ others ∈ above, Write.lastAttr? id name others = none) →
    Write.lastAttr? id name writes = some value → v.attr id name = value
  nowhere : ∀ name, (∀ writes ∈ histories, Write.lastAttr? id name writes = none) →
    v.attr id name = .missing
  sorted : (v.attrNames id).Pairwise fun a b => Digest.utf8 a < Digest.utf8 b
  mem_names : ∀ name, name ∈ v.attrNames id ↔ (v.attr id name).isPresent = true

/-- The second view, with `s` in front, reads as the first one after the values of a
column were written to an attribute of the objects of another one. -/
structure SetsColumn (v w : View) (s : Store) (objects : Column) (name : String)
    (values : Column) : Prop where
  last : ∀ p id, objects.get p = .objectId id → ∃ q, objects.LastAt id q ∧
    s.attr? id name = some (values.get q) ∧ w.attr id name = values.get q ∧
    (w.attrColumn objects name).get p = values.get q
  gaps : ∀ p, (∀ id, objects.get p ≠ .objectId id) →
    (w.attrColumn objects name).get p = .missing
  size : (w.attrColumn objects name).size = objects.size
  others : ∀ id n, n ≠ name ∨ (∀ p, objects.get p ≠ .objectId id) →
    w.attr id n = v.attr id n

variable {v : View} {histories : List (List Write)} {id : ObjectId} {name : String}

theorem attr?_histories (hv : v.layers = histories.map Store.ofWrites) (id : ObjectId)
    (name : String) : v.attr? id name = histories.findSome? (Write.lastAttr? id name) := by
  rw [attr?, hv, List.findSome?_map]
  exact congrArg (histories.findSome? ·)
    (funext fun writes => Store.attr?_ofWrites writes id name)

/-- The attributes of a view over histories. -/
theorem readsAttrs_histories (hv : v.layers = histories.map Store.ofWrites) :
    v.ReadsAttrs histories id := by
  refine ⟨?_, fun name hnone => ?_, ?_, fun name => mem_attrNames⟩
  · rintro name above writes below value rfl habove hlast
    rw [attr, attr?_histories hv, List.findSome?_append, List.findSome?_eq_none_iff.2 habove,
      Option.none_or, List.findSome?_cons, hlast, Option.getD_some]
  · rw [attr, attr?_histories hv, List.findSome?_eq_none_iff.2 hnone, Option.getD_none]
  · exact (v.sorted_attrNames id).imp Digest.utf8_lt_of_compare

theorem get_mapObjects (objects : Column) (f : ObjectId → Item) (p : Nat) :
    (mapObjects objects f).get p = ((objects.get p).objectId?.map f).getD .missing := by
  rw [mapObjects, Column.get, Column.items_ofItems, List.getElem?_map, Column.get]
  cases objects.items[p]? <;> rfl

section

variable {ι : Type*} {stores others : ι → Store} {main : ι} {span : List ι}

theorem attr_chain_of_main {value : Item} (h : (stores main).attr? id name = some value) :
    (chain stores main span).attr id name = value := by
  rw [attr, attr?, chain, ofStore, List.findSome?_cons, h, Option.getD_some]

theorem attr_chain_congr (h : ∀ i, (others i).attr? id name = (stores i).attr? id name) :
    (chain others main span).attr id name = (chain stores main span).attr id name :=
  congrArg (Option.getD · Item.missing) (findSome?_chain_congr h)

/-- Writing to an attribute of the objects of a column, in the main store of a chain that
may also fall back on that store. -/
theorem setsColumn_of_perform {s : Store} {objects values : Column}
    (hsize : objects.size = values.size)
    (hs : ((stores main).perform (.setAttrColumn objects name values)).2 = s)
    (hmain : others main = s) (hothers : ∀ i, i ≠ main → others i = stores i) :
    (chain stores main span).SetsColumn (chain others main span) s objects name values := by
  refine ⟨fun p id hget => ?_, fun p hgap => ?_, ?_, fun id n hother => ?_⟩
  · obtain ⟨q, hq, hlast⟩ := Column.exists_lastAt hget
    have hstored : s.attr? id name = some (values.get q) := by
      rw [← hs, Store.attr?_perform, Write.attrValues, if_pos ⟨rfl, hsize⟩, List.getLast?_map,
        hq]
      rfl
    have hread : (chain others main span).attr id name = values.get q :=
      attr_chain_of_main (hmain ▸ hstored)
    refine ⟨q, hlast, hstored, hread, ?_⟩
    rw [attrColumn, get_mapObjects, hget]
    exact hread
  · rw [attrColumn, get_mapObjects]
    cases hid : (objects.get p).objectId? with
    | none => rfl
    | some id => exact absurd (Item.objectId?_eq_some_iff.1 hid) (hgap id)
  · rw [attrColumn, mapObjects, Column.size_ofItems, List.length_map, Column.length_items]
  · refine attr_chain_congr fun i => ?_
    by_cases hi : i = main
    · rw [hi, hmain, ← hs, Store.attr?_perform, Write.attrValues_setAttrColumn_of_other hother]
      rfl
    · rw [hothers i hi]

variable [DecidableEq ι]

/-- Attributes read as overlays of what the stores of a chain were given, whatever was
written to them. A write to the objects of a column is accepted if it has a value for every
position, and the value of the last position stays; what a schema declares must be a schema,
or nothing. -/
theorem attrs_overlay (history : ι → List Write) (main : ι) (span : List ι) :
    let stores := fun i => Store.ofWrites (history i)
    let before := chain stores main span
    (∀ i id name, (stores i).attr? id name = Write.lastAttr? id name (history i)) ∧
      (∀ id, before.ReadsAttrs ((main :: span).map history) id) ∧
      (∀ objects name values,
        let written := (stores main).perform (.setAttrColumn objects name values)
        (written.1 = .ok () ↔ objects.size = values.size) ∧
        (written.1 = .ok () → before.SetsColumn
          (chain (Function.update stores main written.2) main span) written.2 objects name
          values) ∧
        (written.1 ≠ .ok () → written.2 = stores main)) ∧
      ∀ schema name value,
        let written := (stores main).perform (.setSchemaAttr schema name value)
        (written.1 = .ok () ↔ schema.isSchema = true ∧ (value = .missing ∨
          (∃ d, value = .dtype d) ∨ ∃ id, value = .objectId id ∧ id.isSchema = true)) ∧
        (written.1 = .ok () → written.2 = (stores main).setAttr schema name value) ∧
        (written.1 ≠ .ok () → written.2 = stores main) := by
  intro stores before
  have hlayers : before.layers = ((main :: span).map history).map Store.ofWrites := by
    simp [before, chain, ofStore, stores]
  refine ⟨fun i => Store.attr?_ofWrites (history i), fun id => readsAttrs_histories hlayers,
    fun objects name values => ?_, fun schema name value => ?_⟩
  · refine ⟨Store.perform_setAttrColumn_eq_ok_iff, fun hok => ?_, Store.snd_after_of_ne⟩
    exact setsColumn_of_perform (Store.perform_setAttrColumn_eq_ok_iff.1 hok) rfl
      (Function.update_self ..) fun i hi => Function.update_of_ne hi ..
  · rw [← Item.isSchema_iff]
    refine ⟨Store.perform_setSchemaAttr_eq_ok_iff, fun hok => ?_, Store.snd_after_of_ne⟩
    exact Store.snd_perform_setSchemaAttr (Store.perform_setSchemaAttr_eq_ok_iff.1 hok)

end

namespace Grove

def oak : ObjectId :=
  ⟨1, 0, .entity⟩

def elm : ObjectId :=
  ⟨1, 1, .entity⟩

/-- A store that knows the age of the elm, and an empty one. -/
def history : Bool → List Write
  | false => [.setAttr elm "age" (.int32 80)]
  | true => []

def stores (i : Bool) : Store :=
  Store.ofWrites (history i)

/-- The oak twice, and the elm between. -/
def objects : Column :=
  .mixed [.objectId oak, .missing, .objectId elm, .objectId oak]

def ages : Column :=
  .typed .int32 [some 3, some 4, none, some 5]

theorem lastAt_elm : objects.LastAt elm 2 := by
  refine ⟨rfl, fun q hq hget => ?_⟩
  have hlt : q < 4 := Column.lt_size_of_get hget
  obtain rfl : q = 3 := by omega
  exact absurd hget (by decide)

theorem lastAt_oak : objects.LastAt oak 3 :=
  ⟨rfl, fun _ hq hget => Nat.not_lt.2 hq (Column.lt_size_of_get hget)⟩

/-- The age of the oak is the second of the two, and that of the elm is hidden. -/
theorem attrs_overlay_grove :
    let written := (stores true).perform (.setAttrColumn objects "age" ages)
    let after := chain (Function.update stores true written.2) true [false]
    written.1 = .ok () ∧
      (chain stores true [false]).attr elm "age" = .int32 80 ∧
      after.attr elm "age" = .missing ∧ after.attr oak "age" = .int32 5 := by
  intro written after
  obtain ⟨-, hreads, hcolumn, -⟩ := attrs_overlay history true [false]
  obtain ⟨hok, hset, -⟩ := hcolumn objects "age" ages
  have hset := hset (hok.2 rfl)
  refine ⟨hok.2 rfl, ?_, ?_, ?_⟩
  · refine (hreads elm).first "age" [history true] (history false) [] _ rfl ?_ (by decide)
    simp [history, Write.lastAttr?]
  · obtain ⟨q, hq, -, hread, -⟩ := hset.last 2 elm rfl
    obtain rfl := hq.unique lastAt_elm
    exact hread
  · obtain ⟨q, hq, -, hread, -⟩ := hset.last 3 oak rfl
    obtain rfl := hq.unique lastAt_oak
    exact hread

end Grove

end View

end ObjectGraph
