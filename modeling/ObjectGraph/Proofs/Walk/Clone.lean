import ObjectGraph.Proofs.Walk.Shallow
import ObjectGraph.Proofs.Walk.Twin

/-!
# Clones

A clone extracts the fresh ids through the first level that was copied for them. The
first level hides nothing that this walk reads: for an object under a fresh id it says
what the walk reads there, for a schema it says what the view says, and it says
nothing of other objects. So the walk reads what it would read with the twins of the
objects in front of the view.
-/

namespace ObjectGraph

open Schema Walk

/-- A store of the first level of objects under their fresh ids: it says of these what
the view says of the objects, and nothing of other objects. -/
structure Renaming.Overlay (r : Renaming) (v : View) (objects : List ObjectId)
    (store : Store) : Prop where
  valid : store.Valid
  attr : ∀ x ∈ objects, ∀ name value, store.attr? (r.rename x) name = some value →
    value = v.attr x name
  list : ∀ x ∈ objects, ∀ items, store.list? (r.rename x) = some items → v.list? x = some items
  dict : ∀ x ∈ objects, ∀ entries, store.Says (.dict (r.rename x) entries) →
    entries = v.dictEntries x
  image : ∀ f, store.Says f → f.subject.isSchema = false → ∃ x ∈ objects, f.subject = r.rename x

/-- An overlay that says of schemas only what the view says of them. -/
structure Renaming.Consistent (r : Renaming) (v : View) (objects : List ObjectId)
    (store : Store) : Prop extends Overlay r v objects store where
  schema : ∀ id name value, id.isSchema = true → store.attr? id name = some value →
    value = v.attr id name

namespace Renaming

variable {r : Renaming} {v : View} {schemas : Option View} {objects : List ObjectId}
  {store : Store} {x y : ObjectId} {schema item : Item} {first source : Source}

/-- The view through which a clone extracts. -/
def combined (v : View) (store : Store) : View :=
  (v.cons store).cons ∅

theorem Fresh.faithful_firstLevel (hr : r.Fresh v objects) (schemas : Option View)
    (schema : Item) (first : Source) :
    (firstLevel v schemas r).Faithful ⟨objects, schema, first⟩ where
  plain := hr.plain
  kind := hr.kind
  inj := by
    rintro x y ⟨_, _, hx⟩ ⟨_, _, hy⟩ h
    exact hr.inj x (reaches_object_of_shallow rfl hx).1 y (reaches_object_of_shallow rfl hy).1 h

theorem Fresh.overlay (hr : r.Fresh v objects)
    (h : (firstLevel v schemas r).runTask ⟨objects, schema, first⟩ = .ok store) :
    r.Overlay v objects store := by
  have hw := hr.faithful_firstLevel schemas schema first
  have hholds := says_iff_of_runTask_eq_ok hw h
  have hmeets : ∀ x ∈ objects, (firstLevel v schemas r).Meets ⟨objects, schema, first⟩ x :=
    fun x hx => ⟨_, _, .start ⟨hx, rfl, rfl⟩⟩
  constructor
  case valid => exact (written_of_runTask_eq_ok hw h).valid
  case attr =>
    intro x hx name value hvalue
    exact hw.attr_eq (hmeets x hx) ((hholds (.attr (r.rename x) name value)).1 hvalue)
  case list =>
    intro x hx items hitems
    exact hw.list_eq (hmeets x hx) ((hholds (.list (r.rename x) items)).1 hitems)
  case dict =>
    intro x hx entries hentries
    exact hw.dict_eq (hmeets x hx) ((hholds _).1 hentries)
  case image =>
    intro f hf hplain
    exact exists_mem_of_holds_shallow rfl ((hholds f).1 hf) hplain

/-- The first level of objects is consistent with a view that also has their schemas. -/
theorem Fresh.consistent (hr : r.Fresh v objects)
    (h : (firstLevel v none r).runTask ⟨objects, schema, .data⟩ = .ok store) :
    r.Consistent v objects store where
  toOverlay := hr.overlay h
  schema := by
    intro id name value hid hvalue
    have hw := hr.faithful_firstLevel none schema .data
    obtain ⟨source, -, hmem⟩ :=
      hw.declared_of_holds hid ((says_iff_of_runTask_eq_ok hw h (.attr id name value)).1 hvalue)
    cases source with
    | data => exact (mem_declared.1 hmem).1.symm
    | schema => exact (mem_declared.1 hmem).1.symm

/-! ### Reading -/

theorem Overlay.attr_combined (hc : r.Overlay v objects store) (hr : r.Fresh v objects)
    (hx : x ∈ objects) {name : String} (h : (v.attr x name).isPresent = true →
      store.Says (.attr (r.rename x) name (v.attr x name))) :
    (combined v store).attr (r.rename x) name = v.attr x name := by
  rw [combined, View.attr_cons_empty]
  exact View.attr_cons_eq_of_notMem (hr.fresh x hx) (fun u hu => hc.attr x hx name u hu) h

theorem Overlay.list?_combined (hc : r.Overlay v objects store) (hr : r.Fresh v objects)
    (hx : x ∈ objects) (h : ∀ items, v.list? x = some items →
      store.Says (.list (r.rename x) items)) :
    (combined v store).list? (r.rename x) = v.list? x := by
  rw [combined, View.list?_cons_empty]
  refine View.list?_cons_eq_of_notMem (hr.fresh x hx) fun items => ?_
  exact ⟨fun hitems => hc.list x hx items hitems, fun hitems => h items hitems⟩

theorem Overlay.dictEntries_combined (hc : r.Overlay v objects store)
    (hr : r.Fresh v objects) (hx : x ∈ objects) (h : v.dictEntries x ≠ [] →
      store.Says (.dict (r.rename x) (v.dictEntries x))) :
    (combined v store).dictEntries (r.rename x) = v.dictEntries x := by
  rw [combined, View.dictEntries_cons_empty]
  exact View.dictEntries_cons_eq_of_notMem (hr.fresh x hx) (fun es hes => hc.dict x hx es hes) h

theorem Consistent.attr_combined_schema (hc : r.Consistent v objects store) {id : ObjectId}
    (hid : id.isSchema = true) (name : String) :
    (combined v store).attr id name = v.attr id name := by
  rw [combined, View.attr_cons_empty, View.attr_cons]
  cases hvalue : store.attr? id name with
  | some value => exact hc.schema id name value hid hvalue
  | none => rfl

/-- Of an object that is not a fresh one the store says nothing. -/
theorem Overlay.not_says (hc : r.Overlay v objects store) (hplain : y.isSchema = false)
    (hy : ∀ z ∈ objects, r.rename z ≠ y) {f : Fact} (hf : f.subject = y) : ¬ store.Says f := by
  intro hsays
  subst hf
  obtain ⟨x, hx, heq⟩ := hc.image f hsays hplain
  exact hy x hx heq.symm

theorem Overlay.reads_combined_same (hc : r.Overlay v objects store)
    (hplain : y.isSchema = false) (hy : ∀ z ∈ objects, r.rename z ≠ y) :
    (∀ name, (combined v store).attr y name = v.attr y name) ∧
      (combined v store).list? y = v.list? y ∧
      (combined v store).dictEntries y = v.dictEntries y := by
  have hno : ∀ f : Fact, f.subject = y → ¬ store.Says f := fun f hf => hc.not_says hplain hy hf
  refine ⟨fun name => ?_, ?_, ?_⟩
  · rw [combined, View.attr_cons_empty]
    exact View.attr_cons_of_not_says fun u => hno _ rfl
  · rw [combined, View.list?_cons_empty]
    exact View.list?_cons_of_not_says fun items => hno _ rfl
  · rw [combined, View.dictEntries_cons_empty]
    exact View.dictEntries_cons_of_not_says fun es => hno _ rfl

/-! ### The walk of a clone -/

theorem Consistent.sameSchemas (hc : r.Consistent v objects store) (hr : r.Fresh v objects) :
    SameSchemas (deep (r.twinned v objects) none) (deep (combined v store) none) where
  shallow := rfl
  declared := by
    intro id source hid
    have hattrs : ∀ name, (combined v store).attr id name = (r.twinned v objects).attr id name :=
      fun name => (hc.attr_combined_schema hid name).trans
        (hr.attr_twinned (.of_isSchema hr hid) name).symm
    cases source with
    | data => exact View.attrEntries_congr hattrs
    | schema => exact View.attrEntries_congr hattrs

/-- A walk from the twins meets fresh ids only where it starts, under the schemas of the
first level. -/
theorem Fresh.reaches_twin (hr : r.Fresh v objects) {schema : Item}
    (h : (deep (r.twinned v objects) none).Reaches ⟨objects.map r.rename, schema, .data⟩
      (.object y item source)) :
    (∀ z ∈ objects, r.rename z ≠ y) ∨ ∃ x ∈ objects, y = r.rename x ∧
      (firstLevel v none r).Reaches ⟨objects, schema, .data⟩ (.object x item source) := by
  generalize hm : Mark.object y item source = m at h
  induction h generalizing y item source with
  | start h =>
      subst hm
      obtain ⟨x, hx, rfl⟩ := List.mem_map.1 h.1
      exact Or.inr ⟨x, hx, rfl, .start ⟨hx, h.2⟩⟩
  | step _ hlead ih =>
      subst hm
      have hchild : ∀ o, (r.twinned v objects).Refers o y → ∀ z ∈ objects, r.rename z ≠ y := by
        intro o hrefers z hz heq
        exact hr.fresh z hz (heq ▸ hr.mem_ids_of_refers hrefers)
      -- Only the schema that an object names keeps the walk at the object.
      cases hlead with
      | embeddedObject hemb hn =>
          rcases ih rfl with hy | ⟨x, hx, rfl, hreach⟩
          · exact Or.inl hy
          · refine Or.inr ⟨x, hx, rfl, .step hreach (.embeddedObject ?_ hn)⟩
            rw [embedded_eq_ok_iff] at hemb ⊢
            exact ⟨(hr.attr_twinned (.fresh hx) _).symm.trans hemb.1, hemb.2⟩
      | attr _ _ _ _ _ hc => exact Or.inl (hchild _ (.attr hc))
      | item _ _ _ _ hi hc => exact Or.inl (hchild _ (.item hi hc))
      | key _ _ _ _ he hc => exact Or.inl (hchild _ (.key he hc))
      | value _ _ _ _ he hc => exact Or.inl (hchild _ (.value he hc))

/-- An object that is not a fresh one is read through an overlay as before. -/
theorem Overlay.alike_same (hc : r.Overlay v objects store) (hplain : y.isSchema = false)
    (hy : ∀ z ∈ objects, r.rename z ≠ y) (schemas : Option View) (item : Item)
    (source : Source) :
    Alike (deep v schemas) (deep (combined v store) none) y y item source := by
  obtain ⟨hattr, hlist, hdict⟩ := hc.reads_combined_same hplain hy
  constructor
  case kind => rfl
  case embedded => exact fun _ => hattr _
  case attrs => exact fun _ _ _ _ _ name _ => hattr name
  case list => exact fun _ _ _ _ _ _ => hlist
  case dict => exact fun _ _ _ _ _ _ _ => hdict

/-- A fresh id is read through the first level as the object is, under the schemas that
the first level was copied with. The view knows no fresh id, so the first level has to
say all that is read there. -/
theorem Fresh.alike_fresh (hr : r.Fresh v objects)
    (h : (firstLevel v schemas r).runTask ⟨objects, schema, first⟩ = .ok store)
    (hreach : (firstLevel v schemas r).Reaches ⟨objects, schema, first⟩
      (.object x item source)) :
    Alike (deep v schemas) (deep (combined v store) none) x (r.rename x) item source := by
  have hw := hr.faithful_firstLevel schemas schema first
  have hc := hr.overlay h
  have hx : x ∈ objects := (reaches_object_of_shallow rfl hreach).1
  have hsays : ∀ f, (firstLevel v schemas r).Gives (.object x item source) f → store.Says f :=
    fun f hgives => (says_iff_of_runTask_eq_ok hw h f).2 ⟨_, hreach, hgives⟩
  constructor
  case kind => exact hr.kind x
  case embedded =>
    rintro rfl
    refine hc.attr_combined hr hx fun _ => ?_
    cases hemb : (firstLevel v schemas r).embedded x with
    | error e => exact absurd (.embedded hemb) (not_fails_of_runTask_eq_ok hw h hreach)
    | ok id =>
        have hattr := (embedded_eq_ok_iff.1 hemb).1
        rw [show v.attr x schemaAttr = .objectId id from hattr]
        exact hsays _ (.embedded hemb)
  case attrs =>
    rintro id attrs rfl he hl name hname
    exact hc.attr_combined hr hx fun hpresent => hsays _ (.attr he hl hname hpresent)
  case list =>
    rintro id items rfl he hl hlist
    exact hc.list?_combined hr hx fun items hitems => hsays _ (.list he hl hlist hitems)
  case dict =>
    rintro id keys values rfl he hl hdict
    exact hc.dictEntries_combined hr hx fun hne => hsays _ (.dict he hl hdict hne)

/-- The walk of a clone reads what it reaches as with the twins. -/
theorem Fresh.alike_combined (hr : r.Fresh v objects)
    (h : (firstLevel v none r).runTask ⟨objects, schema, .data⟩ = .ok store)
    (hreach : (deep (r.twinned v objects) none).Reaches ⟨objects.map r.rename, schema, .data⟩
      (.object y item source)) :
    Alike (deep (r.twinned v objects) none) (deep (combined v store) none) y y item source := by
  have hsame := (hr.sameSchemas.same item source).symm
  rcases hr.reaches_twin hreach with hy | ⟨x, hx, rfl, hfirst⟩
  · have hplain : y.isSchema = false :=
      isSchema_of_reaches (fun o ho => hr.isSchema_of_mem_map ho) hreach
    exact ((hr.alike (.same hy) item source).symm hsame.symm).trans hsame
      ((hr.overlay h).alike_same hplain hy none item source)
  · exact ((hr.alike (.fresh hx) item source).symm hsame.symm).trans hsame
      (hr.alike_fresh h hfirst)

/-! ### Runs -/

theorem Fresh.faithful_deep (hr : r.Fresh v objects) (u : View) (schema : Item) :
    (deep u none).Faithful ⟨objects.map r.rename, schema, .data⟩ :=
  Walk.faithful_deep u none fun _ ho => hr.isSchema_of_mem_map ho

/-- A shallow walk meets only what a deep one meets. -/
theorem simulation_firstLevel (r : Renaming) (v : View) (schemas : Option View) :
    Simulation (firstLevel v schemas r) (deep v schemas) Eq where
  leads := by
    rintro m _ n rfl hlead
    refine ⟨n, ?_, rfl⟩
    cases hlead with
    | declared he hl hi => exact .declared he hl hi
    | embedded hemb hn => exact .embedded hemb hn
    | embeddedObject hemb hn => exact .embeddedObject hemb hn
    | attr hno => cases hno
    | item hno => cases hno
    | key hno => cases hno
    | value hno => cases hno
  fails := by
    rintro m _ rfl hfails
    cases hfails with
    | any => exact .any
    | unsupported hi => exact .unsupported hi
    | layout he hl => exact .layout he hl
    | embedded hemb => exact .embedded hemb

/-- What the first level reaches is reached by extraction. -/
theorem reaches_of_firstLevel {t : Task} {m : Mark}
    (h : (firstLevel v schemas r).Reaches t m) : (deep v schemas).Reaches t m := by
  obtain ⟨m', hm', rfl⟩ : ∃ m', (deep v schemas).Reaches t m' ∧ m = m' :=
    (simulation_firstLevel r v schemas).exists_reaches (fun m hm => ⟨m, hm, rfl⟩) h
  exact hm'

/-- If extraction succeeds, so does the shallow clone. -/
theorem Fresh.exists_firstLevel (hr : r.Fresh v objects) (hkeys : v.ValidKeys) {s : Store}
    (h : (deep v schemas).runTask ⟨objects, schema, first⟩ = .ok s) :
    ∃ store, (firstLevel v schemas r).runTask ⟨objects, schema, first⟩ = .ok store := by
  have hdeep := Walk.faithful_deep v schemas (t := ⟨objects, schema, first⟩) hr.plain
  cases hrun : (firstLevel v schemas r).runTask ⟨objects, schema, first⟩ with
  | ok store => exact ⟨store, rfl⟩
  | error e =>
      have hw := hr.faithful_firstLevel schemas schema first
      rcases (runTask_eq_error_iff hw hkeys).1 ⟨e, hrun⟩ with ⟨m, hm, hfails⟩ | hconflict
      · exact absurd ((simulation_firstLevel r v schemas).fails m m rfl hfails)
          (not_fails_of_runTask_eq_ok hdeep h (reaches_of_firstLevel hm))
      · obtain ⟨id, name, value, value', he, hm, hm', hv, hv', hne⟩ := hconflict
        exact absurd ⟨id, name, value, value', he, reaches_of_firstLevel hm,
          reaches_of_firstLevel hm', hv, hv', hne⟩ (not_conflict_of_runTask_eq_ok hdeep h)

theorem Overlay.validKeys_combined (hc : r.Overlay v objects store)
    (hv : ∀ s ∈ v.layers, s.Valid) : (combined v store).ValidKeys := by
  refine View.validKeys_of_valid fun s hs => ?_
  simp only [combined, View.cons, List.mem_cons] at hs
  rcases hs with rfl | rfl | hs
  · exact Store.valid_empty
  · exact hc.valid
  · exact hv s hs

/-- The second walk of a clone reads what extraction of the twins reads. -/
theorem Fresh.readsAlike_combined (hr : r.Fresh v objects)
    (h : (firstLevel v none r).runTask ⟨objects, schema, .data⟩ = .ok store) :
    ReadsAlike (deep (r.twinned v objects) none) (deep (combined v store) none)
      ⟨objects.map r.rename, schema, .data⟩ :=
  ((hr.consistent h).sameSchemas hr).readsAlike fun _ _ _ hreach =>
    hr.alike_combined h hreach

/-- The second walk of a clone fails if and only if extraction fails. -/
theorem Fresh.runTask_combined_eq_error_iff (hr : r.Fresh v objects)
    (hv : ∀ s ∈ v.layers, s.Valid)
    (h : (firstLevel v none r).runTask ⟨objects, schema, .data⟩ = .ok store) :
    (∃ e, (deep (combined v store) none).runTask ⟨objects.map r.rename, schema, .data⟩ = .error e) ↔
      ∃ e, (deep v none).runTask ⟨objects, schema, .data⟩ = .error e := by
  have hc := hr.consistent h
  have hw := hr.faithful_deep (combined v store) schema
  rw [runTask_eq_error_iff_exists_fails hw (hc.validKeys_combined hv) rfl,
    runTask_eq_error_iff_exists_fails (Walk.faithful_deep v none hr.plain)
      (View.validKeys_of_valid hv) rfl,
    (hr.readsAlike_combined h).exists_fails_iff]
  exact hr.exists_fails_iff schema

/-- The second walk of a clone builds what extraction of the twins builds. -/
theorem Fresh.runTask_twinned (hr : r.Fresh v objects) (hv : ∀ s ∈ v.layers, s.Valid)
    (h : (firstLevel v none r).runTask ⟨objects, schema, .data⟩ = .ok store) {s : Store}
    (hs : (deep (combined v store) none).runTask ⟨objects.map r.rename, schema, .data⟩ = .ok s) :
    (deep (r.twinned v objects) none).runTask ⟨objects.map r.rename, schema, .data⟩ = .ok s := by
  have hw := hr.faithful_deep (combined v store) schema
  have hw' := hr.faithful_deep (r.twinned v objects) schema
  have hkeys := hr.validKeys_twinned (View.validKeys_of_valid hv)
  exact (hr.readsAlike_combined h).symm.runTask_eq_ok rfl hw hw' hkeys rfl hs

/-- What is true of an object of a deep walk, the view says of it. -/
theorem says_of_gives {u : View} {f : Fact} (h : (deep u none).Gives (.object y item source) f) :
    u.Says y f := by
  cases h with
  | embedded hemb => exact ⟨rfl, (embedded_eq_ok_iff.1 hemb).1, rfl⟩
  | attr _ _ _ hpresent => exact ⟨rfl, rfl, hpresent⟩
  | list _ _ _ hitems => exact ⟨rfl, hitems⟩
  | dict _ _ _ hne => exact ⟨rfl, rfl, hne⟩

/-- A twin says what its object says. -/
theorem Fresh.says_of_twin (hr : r.Fresh v objects) (h : r.Twin objects x y) {f : Fact}
    (hf : (r.twinned v objects).Says y f) : v.Says x (f.under x) := by
  cases f with
  | attr id name value => exact ⟨rfl, (hr.attr_twinned h name).symm.trans hf.2.1, hf.2.2⟩
  | list id items => exact ⟨rfl, (hr.list?_twinned h).symm.trans hf.2⟩
  | dict id entries => exact ⟨rfl, (hr.dictEntries_twinned h).symm.trans hf.2.1, hf.2.2⟩

/-- What is copied is copied of an object that the walk meets. -/
theorem meets_of_says {u : View} {t : Task} (ht : (deep u none).Faithful t) {s : Store}
    (h : (deep u none).runTask t = .ok s) {f : Fact} (hf : s.Says f)
    (hplain : f.subject.isSchema = false) :
    ∃ item source, (deep u none).Reaches t (.object f.subject item source) ∧
      u.Says f.subject f := by
  obtain ⟨m, hreach, hgives⟩ := (says_iff_of_runTask_eq_ok ht h f).1 hf
  cases m with
  | schema i src =>
      rw [(subject_of_gives_schema hgives).2] at hplain
      cases hplain
  | object y i src =>
      have hsubject : f.subject = y := subject_of_gives_object hgives
      rw [hsubject]
      exact ⟨i, src, hreach, says_of_gives hgives⟩

end Renaming

end ObjectGraph
