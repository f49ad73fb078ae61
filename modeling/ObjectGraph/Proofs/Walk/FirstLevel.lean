import ObjectGraph.Proofs.Walk.Clone
import ObjectGraph.Proofs.Walk.Merge
import ObjectGraph.Proofs.Walk.Target

/-!
# When a shallow clone fails

A shallow walk meets no objects but those that it starts from, so what can stop it is
among these objects and the schemas that are declared from the first schema, and from
the schemas that the objects name if they are typed `OBJECT`. Only the first schema may
be read from a schema view, and if it is `OBJECT` it declares nothing, so no schema is
ever met in both sources and none can be declared in two ways. All that stops a shallow
walk stops an extraction too.
-/

namespace ObjectGraph

open Schema

namespace View

/-- The schemas that a schema declares, that these declare, and so on. The NoFollow form
of a schema is declared, and what it stands for is not followed. -/
inductive Declares (v : View) (root : Item) : Item → Prop
  | root : Declares v root root
  | attr {id : ObjectId} {name : String} :
      Declares v root (.objectId id) → id.isExplicit = true →
      (v.attr id name).isPresent = true → Declares v root (v.attr id name)

/-- The items under which nothing can be copied. -/
inductive Unusable (v : View) : Item → Prop
  | any : Unusable v (.dtype .any)
  | notSchema {item : Item} : item.isSchema = false → Unusable v item
  | malformed {id : ObjectId} : id.isExplicit = true → Layout.Malformed (v.attrNames id) →
      Unusable v (.objectId id)

/-- A schema declares something that cannot be used, or is that itself. -/
def Obstructs (v : View) (root : Item) : Prop :=
  ∃ item, v.Declares root item ∧ v.Unusable item

variable {v : View} {root item : Item}

/-- Tags and NoFollow schemas declare nothing. -/
theorem eq_of_declares (hroot : ∀ id, root = .objectId id → ¬ id.isExplicit = true)
    (h : v.Declares root item) : item = root := by
  induction h with
  | root => rfl
  | attr _ he _ ih => exact absurd he (hroot _ ih.symm)

theorem not_obstructs_of_isNoFollow {id : ObjectId} (hn : id.isNoFollow = true) :
    ¬ v.Obstructs (.objectId id) := by
  have hexplicit := Walk.not_isExplicit_of_isNoFollow hn
  rintro ⟨item, hdeclares, hbad⟩
  obtain rfl := eq_of_declares (fun _ heq => Item.objectId.inj heq ▸ hexplicit) hdeclares
  cases hbad with
  | notSchema hi =>
      have hschema := ObjectId.isSchema_of_isNoFollow hn
      rw [show id.isSchema = false from hi] at hschema
      cases hschema
  | malformed he => exact hexplicit he

end View

namespace Layout

theorem eq_of_ofAttrs_eq_error {schema : ObjectId} {attrs : List (String × Item)} {e : Error}
    (h : ofAttrs schema attrs = .error e) :
    e = .listSchemaAttrs schema (attrs.map Prod.fst) ∨
      e = .dictSchemaAttrs schema (attrs.map Prod.fst) := by
  unfold ofAttrs at h
  split at h
  · split at h
    · cases h
    · exact Or.inl (Except.error.inj h).symm
  · split at h
    · cases h
    · split at h
      · cases h
      · exact Or.inr (Except.error.inj h).symm
    · exact Or.inr (Except.error.inj h).symm

theorem lookup_of_mem {attrs : List (String × Item)} (hnodup : (attrs.map Prod.fst).Nodup)
    {a : String × Item} (ha : a ∈ attrs) : attrs.lookup a.1 = some a.2 := by
  induction attrs with
  | nil => cases ha
  | cons b attrs ih =>
      rw [List.map_cons, List.nodup_cons] at hnodup
      rcases List.mem_cons.1 ha with rfl | ha
      · rw [List.lookup_cons_self]
      · have hne : a.1 ≠ b.1 := fun heq => hnodup.1 (heq ▸ List.mem_map_of_mem ha)
        rw [List.lookup_cons, show (a.1 == b.1) = false by simpa using hne]
        exact ih hnodup.2 ha

/-- A layout refers to all schemas that are declared. -/
theorem mem_schemas_of_mem {schema : ObjectId} {attrs : List (String × Item)} {layout : Layout}
    (hnodup : (attrs.map Prod.fst).Nodup) (h : ofAttrs schema attrs = .ok layout)
    {a : String × Item} (ha : a ∈ attrs) : a.2 ∈ layout.schemas := by
  have hlookup := lookup_of_mem hnodup ha
  have hname := (mem_names_of_ofAttrs hnodup h a.1).1 (List.mem_map_of_mem ha)
  unfold ofAttrs at h
  split at h
  · rename_i items hitems
    split at h
    · cases h
      rw [List.mem_singleton.1 hname, hitems] at hlookup
      exact List.mem_singleton.2 (Option.some.inj hlookup).symm
    · cases h
  · split at h
    · cases h
      exact List.mem_map_of_mem ha
    · rename_i keys values hkeys hvalues
      split at h
      · cases h
        rcases List.mem_pair.1 hname with hk | hv
        · rw [hk, hkeys] at hlookup
          exact List.mem_pair.2 (Or.inl (Option.some.inj hlookup).symm)
        · rw [hv, hvalues] at hlookup
          exact List.mem_pair.2 (Or.inr (Option.some.inj hlookup).symm)
      · cases h
    · cases h

end Layout

namespace Walk

variable {w : Walk} {t : Task} {item : Item} {source : Source}

theorem fails_schema_iff :
    w.Fails (.schema item source) ↔ (w.schemaView source).Unusable item := by
  constructor
  · intro h
    cases h with
    | any => exact .any
    | unsupported hi => exact .notSchema hi
    | layout he hl => exact .malformed he (layout_eq_error_iff.1 ⟨_, hl⟩)
  · intro h
    cases h with
    | any => exact .any
    | notSchema hi => exact .unsupported hi
    | malformed he hbad =>
        obtain ⟨e, hl⟩ := layout_eq_error_iff.2 hbad
        exact .layout he hl

theorem leads_of_declares {id : ObjectId} {name : String} {layout : Layout}
    (he : id.isExplicit = true) (hl : w.layout id source = .ok layout)
    (hattr : ((w.schemaView source).attr id name).isPresent = true) :
    w.Leads (.schema (.objectId id) source)
      (.schema ((w.schemaView source).attr id name) source) := by
  refine .declared he hl ?_
  have hnodup : ((w.declared id source).map Prod.fst).Nodup := by
    rw [declared, View.map_fst_attrEntries]
    exact View.nodup_attrNames _ _
  exact Layout.mem_schemas_of_mem (a := (name, _)) hnodup hl (mem_declared.2 ⟨rfl, hattr⟩)

/-- A walk reaches all that a schema declares, unless something stops it. -/
theorem reaches_of_declares {root : Item} (hroot : w.Reaches t (.schema root source))
    (h : (w.schemaView source).Declares root item) :
    w.Reaches t (.schema item source) ∨ ∃ m, w.Reaches t m ∧ w.Fails m := by
  induction h with
  | root => exact Or.inl hroot
  | @attr id name _ he hattr ih =>
      rcases ih with hreach | hbad
      · cases hl : w.layout id source with
        | error e => exact Or.inr ⟨_, hreach, .layout he hl⟩
        | ok layout => exact Or.inl (.step hreach (leads_of_declares he hl hattr))
      · exact Or.inr hbad

theorem exists_fails_of_obstructs {root : Item} (hroot : w.Reaches t (.schema root source))
    (h : (w.schemaView source).Obstructs root) : ∃ m, w.Reaches t m ∧ w.Fails m := by
  obtain ⟨item, hdeclares, hbad⟩ := h
  rcases reaches_of_declares hroot hdeclares with hreach | hfails
  · exact ⟨_, hreach, fails_schema_iff.2 hbad⟩
  · exact hfails

theorem declares_of_leads {id : ObjectId} {layout : Layout} {root : Item}
    (hroot : (w.schemaView source).Declares root (.objectId id)) (he : id.isExplicit = true)
    (hl : w.layout id source = .ok layout) (hitem : item ∈ layout.schemas) :
    (w.schemaView source).Declares root item := by
  obtain ⟨⟨name, value⟩, hmem, rfl⟩ := List.mem_map.1 (Layout.mem_attrs_of_mem_schemas hl hitem)
  obtain ⟨rfl, hpresent⟩ := mem_declared.1 hmem
  exact .attr hroot he hpresent

/-- A shallow walk meets only its own objects typed `OBJECT`, and only if it starts so. -/
theorem mem_objects_of_reaches (hw : w.shallow = true) {o : ObjectId}
    (h : w.Reaches t (.object o (.dtype .object) source)) :
    t.schema = .dtype .object ∧ o ∈ t.objects := by
  obtain ⟨ho, ⟨hobject, -⟩ | ⟨_, -, -, -, hitem, -⟩⟩ := reaches_object_of_shallow hw h
  · exact ⟨hobject.symm, ho⟩
  · cases hitem

/-- The schemas of a shallow walk are declared from its first schema, or from a schema
that an object typed `OBJECT` names. -/
theorem declares_of_reaches (hw : w.shallow = true) (h : w.Reaches t (.schema item source)) :
    source = t.source ∧ (w.schemaView t.source).Declares t.schema item ∨
      t.schema = .dtype .object ∧ source = .data ∧ ∃ o ∈ t.objects, ∃ schema,
        w.embedded o = .ok schema ∧ (w.schemaView .data).Declares (.objectId schema) item := by
  generalize hm : Mark.schema item source = m at h
  induction h generalizing item source with
  | start h =>
      subst hm
      obtain ⟨rfl, rfl⟩ := h
      exact Or.inl ⟨rfl, .root⟩
  | step hreach hlead ih =>
      subst hm
      cases hlead with
      | declared he hl hitem =>
          rcases ih rfl with ⟨rfl, hroot⟩ | ⟨hobject, rfl, o, ho, schema, hemb, hroot⟩
          · exact Or.inl ⟨rfl, declares_of_leads hroot he hl hitem⟩
          · exact Or.inr ⟨hobject, rfl, o, ho, schema, hemb, declares_of_leads hroot he hl hitem⟩
      | @embedded o schema _ hemb _ =>
          obtain ⟨hobject, ho⟩ := mem_objects_of_reaches hw hreach
          exact Or.inr ⟨hobject, rfl, o, ho, schema, hemb, .root⟩

/-- A shallow walk never reaches a schema from both sources. -/
theorem not_conflict_of_shallow (hw : w.shallow = true) : ¬ w.Conflict t := by
  rintro ⟨id, name, value, value', -, hdata, hschema, -⟩
  have hsource : t.source = .schema ∧ (w.schemaView t.source).Declares t.schema (.objectId id) := by
    rcases declares_of_reaches hw hschema with ⟨hsource, h⟩ | ⟨-, hsource, -⟩
    · exact ⟨hsource.symm, h⟩
    · cases hsource
  rcases declares_of_reaches hw hdata with ⟨heq, -⟩ | ⟨hobject, -⟩
  · cases heq.trans hsource.1
  · have hroot := hsource.2
    rw [hobject] at hroot
    cases View.eq_of_declares (fun _ heq => by cases heq) hroot

/-- What stops a shallow walk. -/
theorem exists_fails_iff_of_shallow (hw : w.shallow = true) :
    (∃ m, w.Reaches t m ∧ w.Fails m) ↔
      (w.schemaView t.source).Obstructs t.schema ∨ t.schema = .dtype .object ∧
        ∃ o ∈ t.objects, (∃ e, w.embedded o = .error e) ∨
          ∃ schema, w.embedded o = .ok schema ∧
            (w.schemaView .data).Obstructs (.objectId schema) := by
  have hschema : w.Reaches t (.schema t.schema t.source) := .start ⟨rfl, rfl⟩
  have hobjects : t.schema = .dtype .object → ∀ o ∈ t.objects,
      w.Reaches t (.object o (.dtype .object) t.source) :=
    fun hobject o ho => .start ⟨ho, hobject, rfl⟩
  constructor
  · rintro ⟨m, hreach, hfails⟩
    cases m with
    | schema item source =>
        have hbad := fails_schema_iff.1 hfails
        rcases declares_of_reaches hw hreach with
          ⟨rfl, hdeclares⟩ | ⟨hobject, rfl, o, ho, schema, hemb, hdeclares⟩
        · exact Or.inl ⟨item, hdeclares, hbad⟩
        · exact Or.inr ⟨hobject, o, ho, Or.inr ⟨schema, hemb, item, hdeclares, hbad⟩⟩
    | object o item source =>
        cases hfails with
        | embedded hemb =>
            obtain ⟨hobject, ho⟩ := mem_objects_of_reaches hw hreach
            exact Or.inr ⟨hobject, o, ho, Or.inl ⟨_, hemb⟩⟩
  · rintro (hbad | ⟨hobject, o, ho, ⟨e, hemb⟩ | ⟨schema, hemb, hbad⟩⟩)
    · exact exists_fails_of_obstructs hschema hbad
    · exact ⟨_, hobjects hobject o ho, .embedded hemb⟩
    · cases hn : schema.isNoFollow with
      | false =>
          have hstep := Reaches.step (hobjects hobject o ho) (.embedded hemb hn)
          exact exists_fails_of_obstructs hstep hbad
      | true => exact absurd hbad (View.not_obstructs_of_isNoFollow hn)

end Walk

/-- No object gets another id. -/
def Renaming.identity : Renaming :=
  ⟨[], []⟩

section

variable {data : View} {schemas : Option View} {objects : Column} {schema : Item} {a : Allocator}
  {t : Task}

theorem Walk.faithful_identity (ht : t.Plain) :
    (Walk.firstLevel data schemas .identity).Faithful t where
  plain := ht
  kind := fun _ => rfl
  inj := fun _ _ _ _ h => h

theorem plain_firstTask (w : Walk) (objects : Column) (schema : Item) :
    (w.firstTask objects.roots schema).Plain :=
  fun _ ho => Walk.isSchema_of_mem_roots ho

/-- The fresh ids do not decide how the walk of a shallow clone ends. -/
theorem bothEnd_firstLevel (hkeys : data.ValidKeys) (schemas : Option View) (objects : Column)
    (schema : Item) (a : Allocator) : Walk.BothEnd Store.AgreeOnSchemas
      ((Walk.firstLevel data schemas (Renaming.ofColumn objects a).1).run objects.roots schema)
      ((Walk.firstLevel data schemas .identity).run objects.roots schema) := by
  have hkinds : (Walk.firstLevel data schemas (Renaming.ofColumn objects a).1).KeepKinds
      Renaming.identity.rename := ⟨Renaming.kind_rename objects a, fun _ => rfl, hkeys⟩
  exact hkinds.runTask (plain_firstTask _ objects schema)

theorem fst_shallowClone_eq_error_iff {e : Error} :
    (shallowClone data schemas objects schema a).1 = .error e ↔
      (Walk.firstLevel data schemas (Renaming.ofColumn objects a).1).run objects.roots schema =
        .error e := by
  rw [fst_shallowClone]
  cases (Walk.firstLevel data schemas (Renaming.ofColumn objects a).1).run objects.roots schema <;>
    simp [Except.map]

theorem fst_shallowClone_eq_error_iff_identity (hkeys : data.ValidKeys) {e : Error} :
    (shallowClone data schemas objects schema a).1 = .error e ↔
      (Walk.firstLevel data schemas .identity).run objects.roots schema = .error e := by
  rw [fst_shallowClone_eq_error_iff]
  have h := bothEnd_firstLevel hkeys schemas objects schema a
  generalize (Walk.firstLevel data schemas (Renaming.ofColumn objects a).1).run objects.roots
    schema = x at h ⊢
  generalize (Walk.firstLevel data schemas .identity).run objects.roots schema = y at h ⊢
  cases h <;> simp

theorem schemaView_firstTask (w : Walk) (roots : List ObjectId) :
    w.schemaView (w.firstTask roots schema).source = w.schemas.getD w.data := by
  rw [Walk.firstTask]
  cases hschemas : w.schemas <;> simp [Walk.schemaView, hschemas]

theorem exists_error_iff_exists_fails (hkeys : data.ValidKeys) :
    (∃ e, (shallowClone data schemas objects schema a).1 = .error e) ↔
      ∃ m, (Walk.firstLevel data schemas .identity).Reaches
          ((Walk.firstLevel data schemas .identity).firstTask objects.roots schema) m ∧
        (Walk.firstLevel data schemas .identity).Fails m := by
  simp only [fst_shallowClone_eq_error_iff_identity hkeys]
  rw [Walk.run, Walk.runTask_eq_error_iff (Walk.faithful_identity (plain_firstTask _ _ _)) hkeys]
  exact or_iff_left (Walk.not_conflict_of_shallow rfl)

theorem shallowClone_ne_schemaConflict (hkeys : data.ValidKeys) (id : ObjectId) (name : String)
    (v value : Item) :
    (shallowClone data schemas objects schema a).1 ≠ .error (.schemaConflict id name v value) := by
  intro h
  have hw : (Walk.firstLevel data schemas .identity).Faithful
      ((Walk.firstLevel data schemas .identity).firstTask objects.roots schema) :=
    Walk.faithful_identity (plain_firstTask _ objects schema)
  have hrun := (fst_shallowClone_eq_error_iff_identity hkeys).1 h
  obtain ⟨p, done, u, queue, htrace, hstep⟩ := Walk.exists_trace_of_drain_eq_error hrun .start
  generalize herror : Error.schemaConflict id name v value = e at hstep
  cases Walk.stops_of_step hw.kind hkeys hstep with
  | any => cases herror
  | unsupported => cases herror
  | embedded => cases herror
  | layout _ _ hl =>
      subst herror
      rcases Layout.eq_of_ofAttrs_eq_error hl with heq | heq <;> cases heq
  | conflict hs he hmem hv hne =>
      -- A difference would be one between two sources, and a shallow walk has no such schema.
      have hready := (htrace.traced hw).ready hw
      exact Walk.not_conflict_of_shallow rfl (hready.conflict hs he hmem hv hne)

theorem exists_shallowClone_of_extract (hkeys : data.ValidKeys) {r : Store}
    (h : extract data schemas objects schema = .ok r) :
    ∃ result, (shallowClone data schemas objects schema a).1 = .ok result := by
  cases hclone : (shallowClone data schemas objects schema a).1 with
  | ok result => exact ⟨result, rfl⟩
  | error e =>
      obtain ⟨m, hreach, hfails⟩ := (exists_error_iff_exists_fails hkeys).1 ⟨e, hclone⟩
      have hdeep := Walk.faithful_deep data schemas
        (t := (Walk.deep data schemas).firstTask objects.roots schema)
        (plain_firstTask _ objects schema)
      exact absurd ((Renaming.simulation_firstLevel .identity data schemas).fails m m rfl hfails)
        (Walk.not_fails_of_runTask_eq_ok hdeep h (Renaming.reaches_of_firstLevel hreach))

/-- A shallow clone fails on its first level only: on the schemas that the first schema
declares, and on the objects typed `OBJECT` with the schemas that these name. It never
fails on the difference of two sources, and never where extraction succeeds. -/
theorem shallowClone_eq_error_iff (hdata : data.Written) :
    ((∃ e, (shallowClone data schemas objects schema a).1 = .error e) ↔
      (schemas.getD data).Obstructs schema ∨ schema = .dtype .object ∧ ∃ o ∈ objects.roots,
        (∀ id, data.attr o schemaAttr = .objectId id → id.isSchema = false) ∨
        ∃ id, data.attr o schemaAttr = .objectId id ∧ id.isSchema = true ∧
          data.Obstructs (.objectId id)) ∧
    (∀ id name v value, (shallowClone data schemas objects schema a).1 ≠
      .error (.schemaConflict id name v value)) ∧
    ∀ r, extract data schemas objects schema = .ok r →
      ∃ result, (shallowClone data schemas objects schema a).1 = .ok result := by
  have hkeys := hdata.validKeys
  refine ⟨?_, shallowClone_ne_schemaConflict hkeys,
    fun r h => exists_shallowClone_of_extract hkeys h⟩
  rw [exists_error_iff_exists_fails hkeys, Walk.exists_fails_iff_of_shallow rfl,
    schemaView_firstTask]
  simp only [Walk.embedded_eq_error_iff, Walk.embedded_eq_ok_iff, and_assoc]
  rfl

end

namespace Outline

def table : ObjectId :=
  ⟨1, 0, .schema⟩

def rows : ObjectId :=
  ⟨1, 1, .schema⟩

/-- A schema that declares a list schema with an attribute beside its items. -/
def store : Store :=
  ((Store.empty.setAttr table "rows" (.objectId rows)).setAttr rows itemsAttr
    (.dtype .int32)).setAttr rows "unit" (.dtype .text)

theorem attr_rows : (View.mk [store]).attr table "rows" = .objectId rows :=
  rfl

theorem obstructs_table : (View.mk [store]).Obstructs (.objectId table) := by
  have hrows : (View.mk [store]).Declares (.objectId table) (.objectId rows) :=
    attr_rows ▸ .attr .root rfl rfl
  refine ⟨_, hrows, .malformed rfl (Or.inl ⟨View.mem_attrNames.2 rfl, "unit", ?_, by decide⟩)⟩
  exact View.mem_attrNames.2 rfl

/-- The schema is not usable although no object is cloned. -/
theorem shallowClone_table :
    (View.mk [store]).Written ∧
      ∃ e, (shallowClone ⟨[store]⟩ none (.ofItems []) (.objectId table) {}).1 = .error e := by
  have hwritten : (View.mk [store]).Written := by
    intro s hs
    rw [List.mem_singleton.1 hs]
    exact ((Store.Written.empty.setAttr _ _ _).setAttr _ _ _).setAttr _ _ _
  exact ⟨hwritten, (shallowClone_eq_error_iff hwritten).1.2 (Or.inl obstructs_table)⟩

end Outline

end ObjectGraph
