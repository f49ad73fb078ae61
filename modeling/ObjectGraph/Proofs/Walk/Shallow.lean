import ObjectGraph.Proofs.Store.Ids
import ObjectGraph.Proofs.Walk.Extract
import ObjectGraph.Proofs.Walk.Renaming

/-!
# What a shallow clone copies

A shallow walk meets only the objects that it starts from, each under the schema it
starts with and, if this is `OBJECT`, under the schema that the object names. The facts
that it copies for an object are its `Surface`. All other facts of the copy are the
attributes of the schemas reached.
-/

namespace ObjectGraph

namespace Walk

open Schema

/-- The facts of an object under a schema and, if this is `OBJECT`, under the schema
that the object names. -/
inductive Surface (w : Walk) (item : Item) (source : Source) (o : ObjectId) (f : Fact) : Prop
  | direct : w.Gives (.object o item source) f → Surface w item source o f
  | embedded {schema : ObjectId} : item = .dtype .object → w.embedded o = .ok schema →
      schema.isNoFollow = false → w.Gives (.object o (.objectId schema) .data) f →
      Surface w item source o f

variable {w : Walk} {t : Task} {f : Fact}

theorem subject_of_gives_object {o : ObjectId} {item : Item} {source : Source}
    (h : w.Gives (.object o item source) f) : f.subject = w.target o := by
  cases h <;> rfl

theorem subject_of_gives_schema {item : Item} {source : Source}
    (h : w.Gives (.schema item source) f) :
    item = .objectId f.subject ∧ f.subject.isSchema = true := by
  cases h with
  | declared he => exact ⟨rfl, (isExplicit_iff.1 he).1⟩

theorem subject_of_surface {o : ObjectId} {item : Item} {source : Source}
    (h : w.Surface item source o f) : f.subject = w.target o := by
  cases h with
  | direct h => exact subject_of_gives_object h
  | embedded _ _ _ h => exact subject_of_gives_object h

/-- A shallow walk meets the objects that it starts from, under the schema that it
starts with or the schemas that they name. -/
theorem reaches_object_of_shallow (hw : w.shallow = true) {o : ObjectId} {item : Item}
    {source : Source} (h : w.Reaches t (.object o item source)) :
    o ∈ t.objects ∧ (item = t.schema ∧ source = t.source ∨
      ∃ schema, t.schema = .dtype .object ∧ w.embedded o = .ok schema ∧
        schema.isNoFollow = false ∧ item = .objectId schema ∧ source = .data) := by
  generalize hm : Mark.object o item source = m at h
  induction h generalizing o item source with
  | start h =>
      subst hm
      exact ⟨h.1, Or.inl ⟨h.2.1.symm, h.2.2.symm⟩⟩
  | step _ hlead ih =>
      subst hm
      have hdeep : w.shallow ≠ false := by simp [hw]
      cases hlead with
      | embeddedObject hemb hn =>
          obtain ⟨ho, h | ⟨schema, -, -, -, hitem, -⟩⟩ := ih rfl
          · exact ⟨ho, Or.inr ⟨_, h.1.symm, hemb, hn, rfl, rfl⟩⟩
          · cases hitem
      | attr hno => exact absurd hno hdeep
      | item hno => exact absurd hno hdeep
      | key hno => exact absurd hno hdeep
      | value hno => exact absurd hno hdeep

/-- What is true of a shallow walk. -/
theorem holds_iff_of_shallow (hw : w.shallow = true) :
    w.Holds t f ↔ (∃ o ∈ t.objects, w.Surface t.schema t.source o f) ∨
      ∃ item source, w.Reaches t (.schema item source) ∧ w.Gives (.schema item source) f := by
  constructor
  · rintro ⟨m, hreach, hgives⟩
    cases m with
    | schema item source => exact Or.inr ⟨item, source, hreach, hgives⟩
    | object o item source =>
        obtain ⟨ho, ⟨rfl, rfl⟩ | ⟨schema, hs, hemb, hn, rfl, rfl⟩⟩ :=
          reaches_object_of_shallow hw hreach
        · exact Or.inl ⟨o, ho, .direct hgives⟩
        · exact Or.inl ⟨o, ho, .embedded hs hemb hn hgives⟩
  · rintro (⟨o, ho, hsurface⟩ | ⟨item, source, hreach, hgives⟩)
    · have hstart : w.Reaches t (.object o t.schema t.source) := .start ⟨ho, rfl, rfl⟩
      cases hsurface with
      | direct hgives => exact ⟨_, hstart, hgives⟩
      | embedded hs hemb hn hgives =>
          rw [hs] at hstart
          exact ⟨_, .step hstart (.embeddedObject hemb hn), hgives⟩
    · exact ⟨_, hreach, hgives⟩

/-- What is true of a shallow walk is true of a schema or of an object that it starts from. -/
theorem exists_mem_of_holds_shallow (hw : w.shallow = true) (h : w.Holds t f)
    (hplain : f.subject.isSchema = false) : ∃ o ∈ t.objects, f.subject = w.target o := by
  rcases (holds_iff_of_shallow hw).1 h with ⟨o, ho, hsurface⟩ | ⟨_, _, -, hgives⟩
  · exact ⟨o, ho, subject_of_surface hsurface⟩
  · rw [(subject_of_gives_schema hgives).2] at hplain
    cases hplain

/-- What is true of the copy of an object is its surface. -/
theorem Faithful.holds_object_iff (hw : w.Faithful t) (hshallow : w.shallow = true)
    {o : ObjectId} (ho : o ∈ t.objects) (hsubject : f.subject = w.target o) :
    w.Holds t f ↔ w.Surface t.schema t.source o f := by
  have hmeets : ∀ x ∈ t.objects, w.Meets t x := fun x hx => ⟨_, _, .start ⟨hx, rfl, rfl⟩⟩
  rw [holds_iff_of_shallow hshallow]
  constructor
  · rintro (⟨x, hx, hsurface⟩ | ⟨_, _, -, hgives⟩)
    · have heq := hsubject.symm.trans (subject_of_surface hsurface)
      obtain rfl := hw.inj o x (hmeets o ho) (hmeets x hx) heq
      exact hsurface
    · have hschema := (subject_of_gives_schema hgives).2
      rw [hsubject, hw.isSchema_target (hmeets o ho)] at hschema
      cases hschema
  · intro hsurface
    exact Or.inl ⟨o, ho, hsurface⟩

/-- What is true of a schema is declared where the walk reaches it from. -/
theorem Faithful.holds_schema_iff (hw : w.Faithful t) (hshallow : w.shallow = true)
    (hschema : f.subject.isSchema = true) :
    w.Holds t f ↔ ∃ source, w.Reaches t (.schema (.objectId f.subject) source) ∧
      w.Gives (.schema (.objectId f.subject) source) f := by
  rw [holds_iff_of_shallow hshallow]
  constructor
  · rintro (⟨o, ho, hsurface⟩ | ⟨_, source, hreach, hgives⟩)
    · have hplain := hw.isSchema_target ⟨_, _, .start ⟨ho, rfl, rfl⟩⟩
      rw [← subject_of_surface hsurface, hschema] at hplain
      cases hplain
    · obtain ⟨rfl, -⟩ := subject_of_gives_schema hgives
      exact ⟨source, hreach, hgives⟩
  · rintro ⟨source, hreach, hgives⟩
    exact Or.inr ⟨_, source, hreach, hgives⟩

theorem faithful_firstLevel (data : View) (schemas : Option View) {objects : Column}
    (schema : Item) (a : Allocator) (hsize : objects.size < UInt32.size) :
    (firstLevel data schemas (Renaming.ofColumn objects a).1).Faithful
      ((firstLevel data schemas (Renaming.ofColumn objects a).1).firstTask
        objects.roots schema) where
  plain := fun _ ho => isSchema_of_mem_roots ho
  kind := fun o => Renaming.kind_rename objects a o
  inj := by
    rintro x y ⟨_, _, hx⟩ ⟨_, _, hy⟩ h
    exact Renaming.rename_inj hsize (reaches_object_of_shallow rfl hx).1
      (reaches_object_of_shallow rfl hy).1 h

end Walk

/-- The ids that occur in the arguments of a copy. -/
def inputIds (data : View) (schemas : Option View) (objects : Column) (schema : Item) :
    List ObjectId :=
  data.ids ++ (schemas.map View.ids).getD [] ++ objects.items.filterMap Item.objectId? ++
    schema.objectId?.toList

/-- A store and a column are the first level of a column under fresh ids. -/
structure ShallowCopy (data : View) (schemas : Option View) (objects : Column) (schema : Item)
    (r : Renaming) (store : Store) (out : Column) : Prop where
  size : out.size = objects.size
  get : ∀ i, out.get i =
    match (objects.get i).child? with
    | some x => .objectId (r.rename x)
    | none => objects.get i
  inj : ∀ x ∈ objects.roots, ∀ y ∈ objects.roots, r.rename x = r.rename y → x = y
  kind : ∀ x, (r.rename x).kind = x.kind
  fresh : ∀ x ∈ objects.roots, r.rename x ∉ inputIds data schemas objects schema
  valid : store.Valid
  image : ∀ f, store.Says f → f.subject.isSchema = false →
    ∃ x ∈ objects.roots, f.subject = r.rename x
  surface : ∀ x ∈ objects.roots, ∀ f, f.subject = r.rename x →
    (store.Says f ↔
      (Walk.firstLevel data schemas r).Surface schema
        (if schemas.isSome then .schema else .data) x f)
  schemas : ∀ f, f.subject.isSchema = true →
    (store.Says f ↔ ∃ source, (Walk.firstLevel data schemas r).Reaches
      ((Walk.firstLevel data schemas r).firstTask objects.roots schema)
      (.schema (.objectId f.subject) source) ∧
      (Walk.firstLevel data schemas r).Gives (.schema (.objectId f.subject) source) f)

section

variable {data : View} {schemas : Option View} {objects : Column} {schema : Item}
  {a : Allocator} {store : Store} {out : Column} {item : Item}

theorem fst_shallowClone (data : View) (schemas : Option View) (objects : Column)
    (schema : Item) (a : Allocator) :
    (shallowClone data schemas objects schema a).1 =
      ((Walk.firstLevel data schemas (Renaming.ofColumn objects a).1).run objects.roots
        schema).map fun store =>
          (store, (Renaming.ofColumn objects a).1.renameColumn objects, schema) :=
  rfl

theorem shallowClone_eq_ok_iff :
    (shallowClone data schemas objects schema a).1 = .ok (store, out, item) ↔
      (Walk.firstLevel data schemas (Renaming.ofColumn objects a).1).run objects.roots schema =
        .ok store ∧ out = (Renaming.ofColumn objects a).1.renameColumn objects ∧ item = schema := by
  rw [fst_shallowClone]
  cases (Walk.firstLevel data schemas (Renaming.ofColumn objects a).1).run objects.roots schema with
  | error e => simp [Except.map]
  | ok s =>
      simp only [Except.map, Except.ok.injEq, Prod.mk.injEq]
      constructor
      · rintro ⟨rfl, rfl, rfl⟩
        exact ⟨rfl, rfl, rfl⟩
      · rintro ⟨rfl, rfl, rfl⟩
        exact ⟨rfl, rfl, rfl⟩

/-- A shallow clone of objects with earlier ids is their first level under fresh ids. -/
theorem shallowClone_eq_ok (hsize : objects.size < UInt32.size)
    (hids : ∀ id ∈ inputIds data schemas objects schema, a.Earlier id)
    (h : (shallowClone data schemas objects schema a).1 = .ok (store, out, item)) :
    item = schema ∧
      ShallowCopy data schemas objects schema (Renaming.ofColumn objects a).1 store out := by
  obtain ⟨hrun, rfl, rfl⟩ := shallowClone_eq_ok_iff.1 h
  have hw := Walk.faithful_firstLevel data schemas item a hsize
  have hfacts := fun f => Walk.says_iff_of_runTask_eq_ok hw hrun f
  refine ⟨rfl, ?_⟩
  constructor
  case size => exact Renaming.size_renameColumn _ _
  case get =>
    exact fun i => Renaming.get_renameColumn _ _ i
  case inj => exact fun x hx y hy heq => Renaming.rename_inj hsize hx hy heq
  case kind => exact Renaming.kind_rename objects a
  case fresh => exact fun x hx hmem => Renaming.not_earlier_rename hx (hids _ hmem)
  case valid => exact (Walk.written_of_runTask_eq_ok hw hrun).valid
  case image =>
    intro f hf hplain
    exact Walk.exists_mem_of_holds_shallow rfl ((hfacts f).1 hf) hplain
  case surface =>
    intro x hx f hsubject
    exact (hfacts f).trans (hw.holds_object_iff rfl hx hsubject)
  case schemas =>
    intro f hschema
    exact (hfacts f).trans (hw.holds_schema_iff rfl hschema)

end

namespace Ring

/-- The copy of the first object of a ring still refers to the second one. -/
theorem shallowClone_first :
    (∀ id ∈ inputIds ⟨[store]⟩ none (.ofItems [.objectId first]) (.objectId link),
      ({ next := 3 } : Allocator).Earlier id) ∧
    ShallowCopy ⟨[store]⟩ none (.ofItems [.objectId first]) (.objectId link)
      (Renaming.ofColumn (.ofItems [.objectId first]) { next := 3 }).1
      ((Store.empty.setAttr link "next" (.objectId link)).setAttr
        ⟨3, 0, .entity⟩ "next" (.objectId second))
      (.ofItems [.objectId ⟨3, 0, .entity⟩]) := by
  have hids : ∀ id ∈ inputIds ⟨[store]⟩ none (.ofItems [.objectId first]) (.objectId link),
      ({ next := 3 } : Allocator).Earlier id := by decide +kernel
  have hfirst := @Walk.Trace.step _ _ _ _ _ _ [] [⟨[], .objectId link, .data⟩]
    (.start (w := .firstLevel ⟨[store]⟩ none
        (Renaming.ofColumn (.ofItems [.objectId first]) { next := 3 }).1)
      (t := ⟨[first], .objectId link, .data⟩)) rfl
  have hrun := (@Walk.Trace.step _ _ _ _ _ _ [] [] hfirst rfl).runTask_eq_ok
  exact ⟨hids, (shallowClone_eq_ok (by decide) hids
    (shallowClone_eq_ok_iff.2 ⟨hrun, rfl, rfl⟩)).2⟩

end Ring

end ObjectGraph
