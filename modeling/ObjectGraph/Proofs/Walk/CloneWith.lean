import ObjectGraph.Proofs.Walk.Clone

/-!
# Clones with schemas of another view

Extraction with schemas of another view reads them there and nowhere else. A clone reads
them through its first level, to which they were copied, and then from the data view, so
it follows what either view declares. As long as the data view declares no more than the
other one, the two walks read the same schemas, and apart from the first objects they
meet the same objects.
-/

namespace ObjectGraph

open Schema Walk

namespace Walk

/-- The data view declares no attributes of a schema besides those of the schema view, if
the schema is read there, and all of them if the schema is read from both. -/
structure Agree (w : Walk) (t : Task) : Prop where
  data : ∀ id : ObjectId, id.isExplicit = true → w.Reaches t (.schema (.objectId id) .schema) →
    ∀ name ∈ w.data.attrNames id, name ∈ (w.schemaView .schema).attrNames id
  both : ∀ id : ObjectId, id.isExplicit = true → w.Reaches t (.schema (.objectId id) .schema) →
    w.Reaches t (.schema (.objectId id) .data) →
    ∀ name ∈ (w.schemaView .schema).attrNames id, name ∈ w.data.attrNames id

variable {w : Walk} {t : Task} {id : ObjectId} {name : String}

/-- Two sources that a schema is read from declare the same of it. -/
theorem Agree.attr_eq (ha : w.Agree t) (hconflict : ¬ w.Conflict t) (he : id.isExplicit = true)
    {source source' : Source} (h : w.Reaches t (.schema (.objectId id) source))
    (h' : w.Reaches t (.schema (.objectId id) source'))
    (hpresent : ((w.schemaView source).attr id name).isPresent = true) :
    (w.schemaView source').attr id name = (w.schemaView source).attr id name := by
  have hname : name ∈ (w.schemaView source').attrNames id := by
    have hmem := View.mem_attrNames.2 hpresent
    cases source with
    | data =>
        cases source' with
        | data => exact hmem
        | schema => exact ha.data id he h' name hmem
    | schema =>
        cases source' with
        | data => exact ha.both id he h h' name hmem
        | schema => exact hmem
  by_contra hne
  exact hconflict (conflict_of_ne he h' h (mem_declared.2 ⟨rfl, View.mem_attrNames.1 hname⟩)
    (mem_declared.2 ⟨rfl, hpresent⟩) hne)

end Walk

namespace Renaming

variable {r : Renaming} {v : View} {schemas : Option View} {objects : List ObjectId}
  {store s : Store} {x y id : ObjectId} {schema item : Item} {first source : Source}

/-- The schemas that are not read from the data view are met at the first level. -/
theorem reaches_schema_firstLevel (r : Renaming) {t : Task}
    (h : (deep v schemas).Reaches t (.schema item .schema)) :
    (firstLevel v schemas r).Reaches t (.schema item .schema) := by
  generalize hm : Mark.schema item .schema = m at h
  induction h generalizing item with
  | start h =>
      subst hm
      exact .start h
  | step _ hlead ih =>
      subst hm
      cases hlead with
      | declared he hl hi => exact .step (ih rfl) (.declared he hl hi)

/-- A store holds what another one holds, except of some objects and their fresh ids. -/
structure SameBelow (r : Renaming) (objects : List ObjectId) (s s' : Store) : Prop where
  schemas : ∀ f, f.subject.isSchema = true → (s'.Says f ↔ s.Says f)
  nested : ∀ f, f.subject ∉ objects → (∀ x ∈ objects, r.rename x ≠ f.subject) →
    (s'.Says f ↔ s.Says f)

/-! ### The walk of a clone -/

/-- The id under which a clone meets what extraction meets under a schema: the fresh id
at the first level, and else the id itself. -/
inductive CloneId (r : Renaming) (w : Walk) (t : Task) (x : ObjectId) (item : Item)
    (source : Source) : ObjectId → Prop
  | fresh : w.Reaches t (.object x item source) → CloneId r w t x item source (r.rename x)
  | same : (∀ z ∈ t.objects, r.rename z ≠ x) → CloneId r w t x item source x

/-- Marks of extraction and of a clone. -/
inductive CloneMark (r : Renaming) (w : Walk) (t : Task) : Mark → Mark → Prop
  | schema {item : Item} {source : Source} :
      CloneMark r w t (.schema item source) (.schema item .data)
  | object {x y : ObjectId} {item : Item} {source : Source} : r.CloneId w t x item source y →
      CloneMark r w t (.object x item source) (.object y item .data)

/-- The marks along which the walks of extraction and of a clone simulate each other. -/
def Counterpart (r : Renaming) (v : View) (schemas : Option View) (t : Task) (m m' : Mark) :
    Prop :=
  (deep v schemas).Reaches t m ∧ r.CloneMark (firstLevel v schemas r) t m m'

theorem CloneId.named {w : Walk} {t : Task} (h : r.CloneId w t x (.dtype .object) source y)
    (hemb : w.embedded x = .ok id) (hn : id.isNoFollow = false) :
    r.CloneId w t x (.objectId id) .data y := by
  cases h with
  | fresh hreach => exact .fresh (.step hreach (.embeddedObject hemb hn))
  | same hx => exact .same hx

theorem Fresh.cloneId_of_mem_ids (hr : r.Fresh v objects) {w : Walk} (h : x ∈ v.ids) :
    r.CloneId w ⟨objects, schema, first⟩ x item source x :=
  .same fun z hz heq => hr.fresh z hz (heq ▸ h)

theorem exists_counterpart_of_has {m : Mark}
    (hm : Task.Has ⟨objects, schema, first⟩ m) :
    ∃ m', Task.Has ⟨objects.map r.rename, schema, .data⟩ m' ∧
      r.Counterpart v schemas ⟨objects, schema, first⟩ m m' := by
  cases m with
  | schema item source => exact ⟨.schema item .data, ⟨hm.1, rfl⟩, .start hm, .schema⟩
  | object x item source =>
      exact ⟨.object (r.rename x) item .data, ⟨List.mem_map_of_mem hm.1, hm.2.1, rfl⟩, .start hm,
        .object (.fresh (.start hm))⟩

theorem exists_has_of_counterpart {m' : Mark}
    (hm : Task.Has ⟨objects.map r.rename, schema, .data⟩ m') :
    ∃ m, Task.Has ⟨objects, schema, first⟩ m ∧
      r.Counterpart v schemas ⟨objects, schema, first⟩ m m' := by
  cases m' with
  | schema item source =>
      obtain ⟨hitem, rfl⟩ := hm
      exact ⟨.schema item first, ⟨hitem, rfl⟩, .start ⟨hitem, rfl⟩, .schema⟩
  | object y item source =>
      obtain ⟨hy, hitem, rfl⟩ := hm
      obtain ⟨x, hx, rfl⟩ := List.mem_map.1 hy
      have hstart : Task.Has ⟨objects, schema, first⟩ (.object x item first) := ⟨hx, hitem, rfl⟩
      exact ⟨_, hstart, .start hstart, .object (.fresh (.start hstart))⟩

/-! ### Runs that succeed -/

section Runs

variable (hr : r.Fresh v objects)
  (h : (firstLevel v schemas r).runTask ⟨objects, schema, first⟩ = .ok store)

include hr h

theorem Fresh.alike_of_cloneId
    (hreach : (deep v schemas).Reaches ⟨objects, schema, first⟩ (.object x item source))
    (hid : r.CloneId (firstLevel v schemas r) ⟨objects, schema, first⟩ x item source y) :
    Alike (deep v schemas) (deep (combined v store) none) x y item source := by
  cases hid with
  | fresh hfirst => exact hr.alike_fresh h hfirst
  | same hx =>
      exact (hr.overlay h).alike_same (isSchema_of_reaches hr.plain hreach) hx schemas item source

variable (hs : (deep v schemas).runTask ⟨objects, schema, first⟩ = .ok s)
  (ha : (deep v schemas).Agree ⟨objects, schema, first⟩)

include hs ha

/-- Behind the first level the data view shows the schemas that extraction reads. -/
theorem Fresh.attr_combined_schema (he : id.isExplicit = true)
    (hreach : (deep v schemas).Reaches ⟨objects, schema, first⟩ (.schema (.objectId id) source))
    (name : String) :
    (combined v store).attr id name = ((deep v schemas).schemaView source).attr id name := by
  have hw := hr.faithful_firstLevel schemas schema first
  have hfacts := fun value => says_iff_of_runTask_eq_ok hw h (.attr id name value)
  have hconflict := not_conflict_of_runTask_eq_ok (Walk.faithful_deep v schemas hr.plain) hs
  rw [combined, View.attr_cons_empty, View.attr_cons]
  cases hvalue : store.attr? id name with
  | some value =>
      obtain ⟨source', hfirst, hmem⟩ :=
        hw.declared_of_holds (isExplicit_iff.1 he).1 ((hfacts value).1 hvalue)
      obtain ⟨rfl, hpresent⟩ := mem_declared.1 hmem
      exact (ha.attr_eq hconflict he (reaches_of_firstLevel hfirst) hreach hpresent).symm
  | none =>
      cases source with
      | data => rfl
      | schema =>
          -- All that is declared in the schema view was copied, so nothing is.
          have hother : ((deep v schemas).schemaView .schema).attr id name = .missing := by
            by_contra hne
            have hsays := (hfacts _).2 ⟨_, reaches_schema_firstLevel r hreach,
              .declared he (mem_declared.2 ⟨rfl, (Item.isPresent_iff _).2 hne⟩)⟩
            cases hvalue.symm.trans hsays
          have hdata : v.attr id name = .missing := by
            by_contra hne
            have hname := ha.data id he hreach name
              (View.mem_attrNames.2 ((Item.isPresent_iff _).2 hne))
            exact (Item.isPresent_iff _).1 (View.mem_attrNames.1 hname) hother
          exact hdata.trans hother.symm

theorem Fresh.sameSchema_combined
    (hreach : (deep v schemas).Reaches ⟨objects, schema, first⟩ (.schema item source)) :
    SameSchema (deep v schemas) (deep (combined v store) none) item source .data where
  shallow := rfl
  declared := by
    rintro id rfl he
    exact View.attrEntries_congr fun name => hr.attr_combined_schema h hs ha he hreach name

theorem Fresh.simulation_combined :
    Simulation (deep v schemas) (deep (combined v store) none)
      (r.Counterpart v schemas ⟨objects, schema, first⟩) where
  leads := by
    rintro m m' n ⟨hreach, hm⟩ hlead
    have hstep := hreach.step hlead
    cases hm with
    | schema =>
        have hsame := hr.sameSchema_combined h hs ha hreach
        obtain ⟨i, rfl, hlead'⟩ := hsame.leads hlead
        exact ⟨_, hlead', hstep, .schema⟩
    | object hid =>
        have hsame := hr.sameSchema_combined h hs ha (reaches_schema_of_object hreach)
        rcases (hr.alike_of_cloneId h hreach hid).leads hsame hlead with
          ⟨i, rfl, hlead'⟩ | ⟨id, rfl, rfl, hemb, hn, hlead'⟩ | ⟨child, i, rfl, hrefers, -, hlead'⟩
        · exact ⟨_, hlead', hstep, .schema⟩
        · exact ⟨_, hlead', hstep, .object (hid.named hemb hn)⟩
        · exact ⟨_, hlead', hstep,
            .object (hr.cloneId_of_mem_ids (View.mem_ids_of_refers hrefers))⟩
  fails := by
    rintro m m' ⟨hreach, hm⟩ hfails
    cases hm with
    | schema => exact (hr.sameSchema_combined h hs ha hreach).fails hfails
    | object hid => exact (hr.alike_of_cloneId h hreach hid).fails hfails

theorem Fresh.simulation_combined_symm :
    Simulation (deep (combined v store) none) (deep v schemas) fun m' m =>
      r.Counterpart v schemas ⟨objects, schema, first⟩ m m' where
  leads := by
    rintro m' m n' ⟨hreach, hm⟩ hlead
    cases hm with
    | schema =>
        have hsame := hr.sameSchema_combined h hs ha hreach
        obtain ⟨i, rfl, hlead'⟩ := hsame.symm.leads hlead
        exact ⟨_, hlead', hreach.step hlead', .schema⟩
    | object hid =>
        have hsame := hr.sameSchema_combined h hs ha (reaches_schema_of_object hreach)
        have halike := (hr.alike_of_cloneId h hreach hid).symm hsame
        rcases halike.leads hsame.symm hlead with
          ⟨i, rfl, hlead'⟩ | ⟨id, rfl, rfl, hemb, hn, hlead'⟩ | ⟨child, i, rfl, -, hrefers, hlead'⟩
        · exact ⟨_, hlead', hreach.step hlead', .schema⟩
        · exact ⟨_, hlead', hreach.step hlead', .object (hid.named (halike.embedded_eq_ok hemb) hn)⟩
        · exact ⟨_, hlead', hreach.step hlead',
            .object (hr.cloneId_of_mem_ids (View.mem_ids_of_refers hrefers))⟩
  fails := by
    rintro m' m ⟨hreach, hm⟩ hfails
    cases hm with
    | schema => exact (hr.sameSchema_combined h hs ha hreach).symm.fails hfails
    | object hid =>
        have hsame := hr.sameSchema_combined h hs ha (reaches_schema_of_object hreach)
        exact ((hr.alike_of_cloneId h hreach hid).symm hsame).fails hfails

/-- If extraction succeeds, so does the second walk of a clone. -/
theorem Fresh.exists_combined (hv : ∀ s ∈ v.layers, s.Valid) :
    ∃ s', (deep (combined v store) none).runTask ⟨objects.map r.rename, schema, .data⟩ =
      .ok s' := by
  cases hrun : (deep (combined v store) none).runTask ⟨objects.map r.rename, schema, .data⟩ with
  | ok s' => exact ⟨s', rfl⟩
  | error e =>
      have hbad := (runTask_eq_error_iff_exists_fails (hr.faithful_deep _ schema)
        ((hr.overlay h).validKeys_combined hv) rfl).1 ⟨e, hrun⟩
      obtain ⟨m, hm, hfails⟩ := (hr.simulation_combined_symm h hs ha).exists_fails
        (fun _ hm => exists_has_of_counterpart hm) hbad
      exact absurd hfails (not_fails_of_runTask_eq_ok (Walk.faithful_deep v schemas hr.plain) hs hm)

/-- Marks that are counterparts give the same facts, except of the first objects. -/
theorem Fresh.gives_iff_of_counterpart {m m' : Mark} {f : Fact}
    (hm : r.Counterpart v schemas ⟨objects, schema, first⟩ m m') (hroot : f.subject ∉ objects)
    (hfresh : ∀ x ∈ objects, r.rename x ≠ f.subject) :
    (deep (combined v store) none).Gives m' f ↔ (deep v schemas).Gives m f := by
  obtain ⟨hreach, hmark⟩ := hm
  cases hmark with
  | schema =>
      have hsame := hr.sameSchema_combined h hs ha hreach
      exact ⟨hsame.symm.gives, hsame.gives⟩
  | object hid =>
      have hsame := hr.sameSchema_combined h hs ha (reaches_schema_of_object hreach)
      have halike := hr.alike_of_cloneId h hreach hid
      cases hid with
      | fresh hfirst =>
          have hx := (reaches_object_of_shallow rfl hfirst).1
          constructor
          · intro hgives
            exact absurd (subject_of_gives_object hgives).symm (hfresh _ hx)
          · intro hgives
            exact absurd (subject_of_gives_object hgives ▸ hx) hroot
      | same => exact ⟨(halike.symm hsame).gives hsame.symm rfl, halike.gives hsame rfl⟩

theorem Fresh.sameBelow_combined {s' : Store}
    (hs' : (deep (combined v store) none).runTask ⟨objects.map r.rename, schema, .data⟩ =
      .ok s') : r.SameBelow objects s s' := by
  have hfacts := says_iff_of_runTask_eq_ok (Walk.faithful_deep v schemas hr.plain) hs
  have hfacts' := says_iff_of_runTask_eq_ok (hr.faithful_deep _ schema) hs'
  have hnested : ∀ f : Fact, f.subject ∉ objects → (∀ x ∈ objects, r.rename x ≠ f.subject) →
      (s'.Says f ↔ s.Says f) := by
    intro f hroot hfresh
    rw [hfacts, hfacts']
    constructor
    · intro hheld
      obtain ⟨m', hm', hgives⟩ := hheld
      obtain ⟨m, hm, hmark⟩ := (hr.simulation_combined_symm h hs ha).exists_reaches
        (fun _ hm => exists_has_of_counterpart hm) hm'
      exact ⟨m, hm, (hr.gives_iff_of_counterpart h hs ha hmark hroot hfresh).1 hgives⟩
    · intro hheld
      obtain ⟨m, hm, hgives⟩ := hheld
      obtain ⟨m', hm', hmark⟩ := (hr.simulation_combined h hs ha).exists_reaches
        (fun _ hm => exists_counterpart_of_has hm) hm
      exact ⟨m', hm', (hr.gives_iff_of_counterpart h hs ha hmark hroot hfresh).2 hgives⟩
  refine ⟨fun f hschema => hnested f ?_ ?_, hnested⟩
  · intro hmem
    rw [hr.plain _ hmem] at hschema
    cases hschema
  · intro x hx heq
    rw [← heq, hr.isSchema_rename, hr.plain x hx] at hschema
    cases hschema

end Runs

end Renaming

end ObjectGraph
