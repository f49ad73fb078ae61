import ObjectGraph.Proofs.Walk.Trace
import ObjectGraph.Walk.Extract

/-!
# What extraction copies and when it fails

Extraction copies exactly the facts of what is reached from its first task. It fails
exactly when something reached obstructs it: the schema `ANY`, an item that is not a
schema, a schema with attributes that do not go together, an object that names no
schema, or a schema on which the two sources differ.
-/

namespace ObjectGraph

open Schema

namespace Layout

/-- Attributes that no schema may declare together. -/
def Malformed (names : List String) : Prop :=
  (itemsAttr ∈ names ∧ ∃ name ∈ names, name ≠ itemsAttr) ∨
    ((keysAttr ∈ names ∨ valuesAttr ∈ names) ∧
      ¬ ∀ name, name ∈ names ↔ name = keysAttr ∨ name = valuesAttr)

theorem lookup_eq_none_iff {attrs : List (String × Item)} {name : String} :
    attrs.lookup name = none ↔ name ∉ attrs.map Prod.fst := by
  rw [List.lookup_eq_none_iff]
  simp only [List.mem_map, Prod.exists, exists_and_right, exists_eq_right, not_exists, bne_iff_ne,
    ne_eq, Prod.forall]
  constructor
  · intro h value hmem
    exact h name value hmem rfl
  · rintro h n value hmem rfl
    exact h value hmem

theorem mem_names_of_lookup {attrs : List (String × Item)} {name : String} {value : Item}
    (h : attrs.lookup name = some value) : name ∈ attrs.map Prod.fst :=
  List.mem_map.2 ⟨_, mem_of_lookup h, rfl⟩

theorem length_eq_one_iff {names : List String} {a : String} (h : names.Nodup)
    (ha : a ∈ names) : names.length = 1 ↔ ∀ name ∈ names, name = a := by
  constructor
  · intro hlen
    obtain ⟨b, rfl⟩ := List.length_eq_one_iff.1 hlen
    intro name hname
    rw [List.mem_singleton] at ha hname
    rw [ha, hname]
  · intro hall
    have hperm : names.Perm [a] := by
      rw [List.perm_ext_iff_of_nodup h (List.nodup_singleton a)]
      intro name
      rw [List.mem_singleton]
      exact ⟨hall name, fun heq => heq ▸ ha⟩
    exact hperm.length_eq

theorem length_eq_two_iff {names : List String} {a b : String} (h : names.Nodup)
    (ha : a ∈ names) (hb : b ∈ names) (hab : a ≠ b) :
    names.length = 2 ↔ ∀ name, name ∈ names ↔ name = a ∨ name = b := by
  constructor
  · intro hlen
    obtain ⟨c, d, rfl⟩ := List.length_eq_two.1 hlen
    simp only [List.mem_cons, List.not_mem_nil, or_false] at ha hb ⊢
    intro name
    grind
  · intro hall
    have hperm : names.Perm [a, b] := by
      rw [List.perm_ext_iff_of_nodup h (by simp [hab])]
      intro name
      simp [hall name]
    exact hperm.length_eq

/-- The attributes of a list schema. -/
theorem malformed_iff_of_items {names : List String} (hnodup : names.Nodup)
    (hi : itemsAttr ∈ names) : Malformed names ↔ names.length ≠ 1 := by
  rw [Ne, length_eq_one_iff hnodup hi, not_forall]
  constructor
  · rintro (⟨-, name, hname, hne⟩ | ⟨hk | hv, -⟩)
    · exact ⟨name, fun hall => hne (hall hname)⟩
    · exact ⟨keysAttr, fun hall => absurd (hall hk) (by decide)⟩
    · exact ⟨valuesAttr, fun hall => absurd (hall hv) (by decide)⟩
  · rintro ⟨name, hname⟩
    rw [Classical.not_imp] at hname
    exact Or.inl ⟨hi, name, hname.1, hname.2⟩

/-- The attributes of a schema that is not a list schema. -/
theorem malformed_iff_of_no_items {names : List String} (hi : itemsAttr ∉ names) :
    Malformed names ↔ (keysAttr ∈ names ∨ valuesAttr ∈ names) ∧
      ¬ ∀ name, name ∈ names ↔ name = keysAttr ∨ name = valuesAttr := by
  unfold Malformed
  simp [hi]

/-- A schema has a layout unless its attributes are malformed. -/
theorem ofAttrs_eq_error_iff {schema : ObjectId} {attrs : List (String × Item)}
    (hnodup : (attrs.map Prod.fst).Nodup) :
    (∃ e, ofAttrs schema attrs = .error e) ↔ Malformed (attrs.map Prod.fst) := by
  have hlength : (attrs.map Prod.fst).length = attrs.length := List.length_map _
  unfold ofAttrs
  cases hi : attrs.lookup itemsAttr with
  | some items =>
      rw [malformed_iff_of_items hnodup (mem_names_of_lookup hi), hlength]
      by_cases hlen : attrs.length = 1 <;> simp [hlen]
  | none =>
      rw [malformed_iff_of_no_items (lookup_eq_none_iff.1 hi)]
      cases hk : attrs.lookup keysAttr with
      | none =>
          have hk := lookup_eq_none_iff.1 hk
          cases hv : attrs.lookup valuesAttr with
          | none => simp [hk, lookup_eq_none_iff.1 hv]
          | some values =>
              have hset : ¬ ∀ name, name ∈ attrs.map Prod.fst ↔
                  name = keysAttr ∨ name = valuesAttr :=
                fun hall => hk ((hall keysAttr).2 (Or.inl rfl))
              exact iff_of_true ⟨_, rfl⟩ ⟨Or.inr (mem_names_of_lookup hv), hset⟩
      | some keys =>
          have hk := mem_names_of_lookup hk
          cases hv : attrs.lookup valuesAttr with
          | none =>
              have hset : ¬ ∀ name, name ∈ attrs.map Prod.fst ↔
                  name = keysAttr ∨ name = valuesAttr :=
                fun hall => lookup_eq_none_iff.1 hv ((hall valuesAttr).2 (Or.inr rfl))
              exact iff_of_true ⟨_, rfl⟩ ⟨Or.inl hk, hset⟩
          | some values =>
              rw [← length_eq_two_iff hnodup hk (mem_names_of_lookup hv) (by decide), hlength]
              by_cases hlen : attrs.length = 2 <;> simp [hlen, hk]

end Layout

namespace Walk

/-- What stops a walk from a first task. -/
inductive Obstructed (w : Walk) (t : Task) : Prop
  | any {source : Source} : w.Reaches t (.schema (.dtype .any) source) → Obstructed w t
  | notSchema {item : Item} {source : Source} :
      w.Reaches t (.schema item source) → item.isSchema = false → Obstructed w t
  | malformed {id : ObjectId} {source : Source} :
      w.Reaches t (.schema (.objectId id) source) → id.isExplicit = true →
      Layout.Malformed ((w.schemaView source).attrNames id) → Obstructed w t
  | unnamed {o : ObjectId} {source : Source} :
      w.Reaches t (.object o (.dtype .object) source) →
      (∀ schema, w.data.attr o schemaAttr = .objectId schema → schema.isSchema = false) →
      Obstructed w t
  | conflict : w.Conflict t → Obstructed w t

variable {w : Walk} {t : Task}

theorem layout_eq_error_iff {id : ObjectId} {source : Source} :
    (∃ e, w.layout id source = .error e) ↔
      Layout.Malformed ((w.schemaView source).attrNames id) := by
  unfold layout declared
  rw [Layout.ofAttrs_eq_error_iff, View.map_fst_attrEntries]
  rw [View.map_fst_attrEntries]
  exact View.nodup_attrNames _ _

theorem embedded_eq_error_iff {o : ObjectId} :
    (∃ e, w.embedded o = .error e) ↔
      ∀ schema, w.data.attr o schemaAttr = .objectId schema → schema.isSchema = false := by
  constructor
  · rintro ⟨e, he⟩ schema hattr
    by_contra hschema
    rw [embedded_eq_ok_iff.2 ⟨hattr, by simpa using hschema⟩] at he
    cases he
  · intro hall
    cases hemb : w.embedded o with
    | error e => exact ⟨e, rfl⟩
    | ok schema =>
        obtain ⟨hattr, hschema⟩ := embedded_eq_ok_iff.1 hemb
        rw [hall schema hattr] at hschema
        cases hschema

/-- A walk is obstructed by the marks that fail and by conflicts. -/
theorem obstructed_iff :
    w.Obstructed t ↔ (∃ m, w.Reaches t m ∧ w.Fails m) ∨ w.Conflict t := by
  constructor
  · intro h
    cases h with
    | any hreach => exact Or.inl ⟨_, hreach, .any⟩
    | notSchema hreach hitem => exact Or.inl ⟨_, hreach, .unsupported hitem⟩
    | malformed hreach he hbad =>
        obtain ⟨e, hl⟩ := layout_eq_error_iff.2 hbad
        exact Or.inl ⟨_, hreach, .layout he hl⟩
    | unnamed hreach hbad =>
        obtain ⟨e, hemb⟩ := embedded_eq_error_iff.2 hbad
        exact Or.inl ⟨_, hreach, .embedded hemb⟩
    | conflict hconflict => exact Or.inr hconflict
  · rintro (⟨m, hreach, hfails⟩ | hconflict)
    · cases hfails with
      | any => exact .any hreach
      | unsupported hitem => exact .notSchema hreach hitem
      | layout he hl => exact .malformed hreach he (layout_eq_error_iff.1 ⟨_, hl⟩)
      | embedded hemb => exact .unnamed hreach (embedded_eq_error_iff.1 ⟨_, hemb⟩)
    · exact .conflict hconflict

/-- A deep walk keeps all ids. -/
theorem faithful_deep (data : View) (schemas : Option View)
    (ht : ∀ o ∈ t.objects, o.isSchema = false) : (deep data schemas).Faithful t where
  plain := ht
  kind := fun _ => rfl
  inj := fun _ _ _ _ h => h

theorem isSchema_of_mem_roots {c : Column} {o : ObjectId} (ho : o ∈ c.roots) :
    o.isSchema = false := by
  obtain ⟨item, -, hitem⟩ := List.mem_filterMap.1 ho
  exact isSchema_child hitem

end Walk

variable {data : View} {schemas : Option View} {objects : Column} {schema : Item} {r : Store}

/-- Extraction copies exactly what is reached: its store is well formed, and its facts
are those of the schemas and objects in the closure. -/
theorem extract_eq_ok (h : extract data schemas objects schema = .ok r) :
    r.Valid ∧ ∀ f, r.Says f ↔
      (Walk.deep data schemas).Holds
        ((Walk.deep data schemas).firstTask objects.roots schema) f := by
  have hw := Walk.faithful_deep data schemas
    (t := (Walk.deep data schemas).firstTask objects.roots schema)
    fun o ho => Walk.isSchema_of_mem_roots ho
  exact ⟨(Walk.written_of_runTask_eq_ok hw h).valid, Walk.says_iff_of_runTask_eq_ok hw h⟩

namespace Ring

/-- The schema of a ring of two objects. -/
def link : ObjectId :=
  ⟨1, 0, .schema⟩

def first : ObjectId :=
  ⟨2, 0, .entity⟩

def second : ObjectId :=
  ⟨2, 1, .entity⟩

/-- Two objects that refer to each other. -/
def store : Store :=
  ((Store.empty.setAttr link "next" (.objectId link)).setAttr
    first "next" (.objectId second)).setAttr second "next" (.objectId first)

theorem extract_first_eq :
    extract ⟨[store]⟩ none (.ofItems [.objectId first]) (.objectId link) = .ok store := by
  have hfirst := @Walk.Trace.step _ _ _ _ _ _ [] [⟨[second], .objectId link, .data⟩]
    (.start (w := .deep ⟨[store]⟩ none) (t := ⟨[first], .objectId link, .data⟩)) rfl
  have hsecond := @Walk.Trace.step _ _ _ _ _ _ [] [⟨[first], .objectId link, .data⟩] hfirst rfl
  exact (@Walk.Trace.step _ _ _ _ _ _ [] [] hsecond rfl).runTask_eq_ok

/-- One object reaches the whole ring. -/
theorem extract_first :
    extract ⟨[store]⟩ none (.ofItems [.objectId first]) (.objectId link) = .ok store ∧
      store.Valid ∧ ∀ f, store.Says f ↔
        (Walk.deep ⟨[store]⟩ none).Holds ⟨[first], .objectId link, .data⟩ f :=
  ⟨extract_first_eq, extract_eq_ok extract_first_eq⟩

end Ring

/-- Extraction from a view of written stores fails exactly when it is obstructed. -/
theorem extract_eq_error_iff (hdata : data.Written) :
    (∃ e, extract data schemas objects schema = .error e) ↔
      (Walk.deep data schemas).Obstructed
        ((Walk.deep data schemas).firstTask objects.roots schema) := by
  rw [Walk.obstructed_iff]
  refine Walk.runTask_eq_error_iff (Walk.faithful_deep data schemas ?_) hdata.validKeys
  exact fun o ho => Walk.isSchema_of_mem_roots ho

theorem Ring.written_store : Ring.store.Written :=
  ((Store.Written.empty.setAttr _ _ _).setAttr _ _ _).setAttr _ _ _

/-- Extraction of a ring under `ANY` fails, as that is the schema to begin with. -/
theorem Ring.extract_any :
    (View.mk [Ring.store]).Written ∧
      ∃ e, extract ⟨[Ring.store]⟩ none (.ofItems [.objectId Ring.first]) (.dtype .any) =
        .error e := by
  have hwritten : (View.mk [Ring.store]).Written := by
    intro s hs
    obtain rfl := List.mem_singleton.1 hs
    exact Ring.written_store
  exact ⟨hwritten, (extract_eq_error_iff hwritten).2 (.any (.start ⟨rfl, rfl⟩))⟩

end ObjectGraph
