import ObjectGraph.Proofs.Store.Reading
import ObjectGraph.Walk.Run

/-!
# What a walk reaches

What a walk meets is a schema read from a source, or an object under such a schema:
a `Mark`. `Leads` is one step from a mark to the next, and `Reaches` its least
closure from a first task, so it says nothing about queues or visits. `Gives` is
what the copy holds on account of a mark, and `Fails` what makes a mark stop the
walk.

Nothing leads from a tag, from a NoFollow schema, or from a schema whose attributes
have no layout. In a shallow walk no object leads to another one.
-/

namespace ObjectGraph

/-- A schema object that a walk follows. -/
def ObjectId.isExplicit (id : ObjectId) : Bool :=
  id.isSchema && !id.isNoFollow

/-- A schema or an object under a schema, with the source of the schema. -/
inductive Mark where
  | schema (item : Item) (source : Source)
  | object (id : ObjectId) (schema : Item) (source : Source)

/-- The marks of a task: its schema, and its objects under it. -/
def Task.Has (t : Task) : Mark → Prop
  | .schema item source => t.schema = item ∧ t.source = source
  | .object o item source => o ∈ t.objects ∧ t.schema = item ∧ t.source = source

/-- The marks of a list of tasks. -/
def Marked (tasks : List Task) (m : Mark) : Prop :=
  ∃ t ∈ tasks, t.Has m

namespace Walk

open Schema

/-- One step of the graph, under the schemas that it is read with. -/
inductive Leads (w : Walk) : Mark → Mark → Prop
  | declared {id : ObjectId} {source : Source} {layout : Layout} {item : Item} :
      id.isExplicit = true → w.layout id source = .ok layout → item ∈ layout.schemas →
      Leads w (.schema (.objectId id) source) (.schema item source)
  | embedded {o schema : ObjectId} {source : Source} :
      w.embedded o = .ok schema → schema.isNoFollow = false →
      Leads w (.object o (.dtype .object) source) (.schema (.objectId schema) .data)
  | embeddedObject {o schema : ObjectId} {source : Source} :
      w.embedded o = .ok schema → schema.isNoFollow = false →
      Leads w (.object o (.dtype .object) source) (.object o (.objectId schema) .data)
  | attr {o id child : ObjectId} {source : Source} {attrs : List (String × Item)}
      {name : String} {item : Item} :
      w.shallow = false → id.isExplicit = true → w.layout id source = .ok (.entity attrs) →
      (name, item) ∈ attrs → isNoFollow item = false →
      (w.data.attr o name).child? = some child →
      Leads w (.object o (.objectId id) source) (.object child item source)
  | item {o id child : ObjectId} {source : Source} {items x : Item} :
      w.shallow = false → id.isExplicit = true → w.layout id source = .ok (.list items) →
      o.isList = true → x ∈ w.data.list o → x.child? = some child →
      Leads w (.object o (.objectId id) source) (.object child items source)
  | key {o id child : ObjectId} {source : Source} {keys values : Item} {e : Item × Item} :
      w.shallow = false → id.isExplicit = true →
      w.layout id source = .ok (.dict keys values) →
      o.isDict = true → e ∈ w.data.dictEntries o → e.1.child? = some child →
      Leads w (.object o (.objectId id) source) (.object child keys source)
  | value {o id child : ObjectId} {source : Source} {keys values : Item} {e : Item × Item} :
      w.shallow = false → id.isExplicit = true →
      w.layout id source = .ok (.dict keys values) →
      o.isDict = true → e ∈ w.data.dictEntries o → e.2.child? = some child →
      Leads w (.object o (.objectId id) source) (.object child values source)

/-- The least set of marks that holds those of a first task and is closed under
steps. -/
inductive Reaches (w : Walk) (t : Task) : Mark → Prop
  | start {m : Mark} : t.Has m → Reaches w t m
  | step {m n : Mark} : Reaches w t m → w.Leads m n → Reaches w t n

/-- The facts that a copy holds on account of a mark. -/
inductive Gives (w : Walk) : Mark → Fact → Prop
  | declared {id : ObjectId} {source : Source} {name : String} {value : Item} :
      id.isExplicit = true → (name, value) ∈ w.declared id source →
      Gives w (.schema (.objectId id) source) (.attr id name value)
  | embedded {o schema : ObjectId} {source : Source} :
      w.embedded o = .ok schema →
      Gives w (.object o (.dtype .object) source)
        (.attr (w.target o) schemaAttr (.objectId schema))
  | attr {o id : ObjectId} {source : Source} {attrs : List (String × Item)} {name : String} :
      id.isExplicit = true → w.layout id source = .ok (.entity attrs) →
      name ∈ attrs.map Prod.fst → (w.data.attr o name).isPresent = true →
      Gives w (.object o (.objectId id) source) (.attr (w.target o) name (w.data.attr o name))
  | list {o id : ObjectId} {source : Source} {schema : Item} {items : List Item} :
      id.isExplicit = true → w.layout id source = .ok (.list schema) →
      o.isList = true → w.data.list? o = some items →
      Gives w (.object o (.objectId id) source) (.list (w.target o) items)
  | dict {o id : ObjectId} {source : Source} {keys values : Item} :
      id.isExplicit = true → w.layout id source = .ok (.dict keys values) →
      o.isDict = true → w.data.dictEntries o ≠ [] →
      Gives w (.object o (.objectId id) source) (.dict (w.target o) (w.data.dictEntries o))

/-- The marks that stop a walk. -/
inductive Fails (w : Walk) : Mark → Prop
  | any {source : Source} : Fails w (.schema (.dtype .any) source)
  | unsupported {item : Item} {source : Source} :
      item.isSchema = false → Fails w (.schema item source)
  | layout {id : ObjectId} {source : Source} {e : Error} :
      id.isExplicit = true → w.layout id source = .error e →
      Fails w (.schema (.objectId id) source)
  | embedded {o : ObjectId} {source : Source} {e : Error} :
      w.embedded o = .error e → Fails w (.object o (.dtype .object) source)

/-- The objects that a walk meets under some schema. -/
def Meets (w : Walk) (t : Task) (o : ObjectId) : Prop :=
  ∃ schema source, w.Reaches t (.object o schema source)

/-- The copies of the objects that a walk meets have their kinds and are told apart,
and a walk starts from objects that are not schemas. -/
structure Faithful (w : Walk) (t : Task) : Prop where
  plain : ∀ o ∈ t.objects, o.isSchema = false
  kind : ∀ o, (w.target o).kind = o.kind
  inj : ∀ a b, w.Meets t a → w.Meets t b → w.target a = w.target b → a = b

variable {w : Walk} {t : Task}

theorem embedded_eq_ok_iff {o schema : ObjectId} :
    w.embedded o = .ok schema ↔
      w.data.attr o schemaAttr = .objectId schema ∧ schema.isSchema = true := by
  unfold embedded
  cases h : (w.data.attr o schemaAttr).objectId? with
  | none =>
      constructor
      · intro hne
        cases hne
      · rintro ⟨hattr, -⟩
        rw [hattr] at h
        cases h
  | some id =>
      have hattr := Item.objectId?_eq_some_iff.1 h
      by_cases hid : id.isSchema = true
      · simp only [hid, if_true, Except.ok.injEq, hattr, Item.objectId.injEq]
        constructor
        · rintro rfl
          exact ⟨rfl, hid⟩
        · exact And.left
      · simp only [hid, hattr, Item.objectId.injEq]
        constructor
        · intro hne
          cases hne
        · rintro ⟨rfl, h⟩
          exact absurd h hid

theorem isExplicit_iff {id : ObjectId} :
    id.isExplicit = true ↔ id.isSchema = true ∧ id.isNoFollow = false := by
  simp [ObjectId.isExplicit]

theorem isSchema_child {item : Item} {child : ObjectId} (h : item.child? = some child) :
    child.isSchema = false :=
  (Item.child?_eq_some_iff.1 h).2

/-- No step leads to a schema as an object. -/
theorem isSchema_of_reaches (ht : ∀ o ∈ t.objects, o.isSchema = false) {o : ObjectId}
    {schema : Item} {source : Source} (h : w.Reaches t (.object o schema source)) :
    o.isSchema = false := by
  generalize hm : Mark.object o schema source = m at h
  induction h generalizing o schema source with
  | start h =>
      subst hm
      exact ht o h.1
  | step hreach hlead ih =>
      subst hm
      cases hlead with
      | embeddedObject => exact ih rfl
      | attr _ _ _ _ _ hc => exact isSchema_child hc
      | item _ _ _ _ _ hc => exact isSchema_child hc
      | key _ _ _ _ _ hc => exact isSchema_child hc
      | value _ _ _ _ _ hc => exact isSchema_child hc

/-- The schema that an object is met under is met too. -/
theorem reaches_schema_of_object {o : ObjectId} {schema : Item} {source : Source}
    (h : w.Reaches t (.object o schema source)) : w.Reaches t (.schema schema source) := by
  generalize hm : Mark.object o schema source = m at h
  induction h generalizing o schema source with
  | start h =>
      subst hm
      exact .start h.2
  | step hreach hlead ih =>
      subst hm
      cases hlead with
      | embeddedObject hemb hn => exact .step hreach (.embedded hemb hn)
      | attr _ he hl ha =>
          exact .step (ih rfl) (.declared he hl (List.mem_map_of_mem (f := Prod.snd) ha))
      | item _ he hl => exact .step (ih rfl) (.declared he hl List.mem_cons_self)
      | key _ he hl => exact .step (ih rfl) (.declared he hl List.mem_cons_self)
      | value _ he hl =>
          exact .step (ih rfl) (.declared he hl (List.mem_cons_of_mem _ List.mem_cons_self))

theorem Faithful.isSchema_target (hw : w.Faithful t) {o : ObjectId} (ho : w.Meets t o) :
    (w.target o).isSchema = false := by
  obtain ⟨schema, source, hreach⟩ := ho
  have hplain := isSchema_of_reaches hw.plain hreach
  rw [ObjectId.isSchema, hw.kind]
  exact hplain

/-- What is true of a walk: the facts of the marks that it reaches. -/
def Holds (w : Walk) (t : Task) (f : Fact) : Prop :=
  ∃ m, w.Reaches t m ∧ w.Gives m f

theorem not_isSchema_of_isExplicit {id : ObjectId} (h : id.isExplicit = true)
    (hid : id.isSchema = false) : False := by
  rw [(isExplicit_iff.1 h).1] at hid
  cases hid

/-- The copy of an object has no attribute values but those of the object. -/
theorem Faithful.attr_eq (hw : w.Faithful t) {o : ObjectId} (ho : w.Meets t o) {name : String}
    {value : Item} (h : w.Holds t (.attr (w.target o) name value)) :
    value = w.data.attr o name := by
  obtain ⟨m, hreach, hgives⟩ := h
  have hplain := hw.isSchema_target ho
  generalize htarget : w.target o = id at hgives hplain
  cases hgives with
  | declared he => exact (not_isSchema_of_isExplicit he hplain).elim
  | @embedded o' schema source hemb =>
      obtain rfl := hw.inj o o' ho ⟨_, _, hreach⟩ htarget
      exact (embedded_eq_ok_iff.1 hemb).1.symm
  | @attr o' schema source attrs =>
      obtain rfl := hw.inj o o' ho ⟨_, _, hreach⟩ htarget
      rfl

theorem Faithful.list_eq (hw : w.Faithful t) {o : ObjectId} (ho : w.Meets t o)
    {items : List Item} (h : w.Holds t (.list (w.target o) items)) :
    w.data.list? o = some items := by
  obtain ⟨m, hreach, hgives⟩ := h
  generalize htarget : w.target o = id at hgives
  cases hgives with
  | @list o' schema source _ _ _ _ _ hitems =>
      obtain rfl := hw.inj o o' ho ⟨_, _, hreach⟩ htarget
      exact hitems

theorem Faithful.dict_eq (hw : w.Faithful t) {o : ObjectId} (ho : w.Meets t o)
    {entries : List (Item × Item)} (h : w.Holds t (.dict (w.target o) entries)) :
    entries = w.data.dictEntries o := by
  obtain ⟨m, hreach, hgives⟩ := h
  generalize htarget : w.target o = id at hgives
  cases hgives with
  | @dict o' schema source =>
      obtain rfl := hw.inj o o' ho ⟨_, _, hreach⟩ htarget
      rfl

/-- A schema has no attribute values but those declared in a source that it is
reached from. -/
theorem Faithful.declared_of_holds (hw : w.Faithful t) {id : ObjectId} {name : String}
    {value : Item} (hid : id.isSchema = true) (h : w.Holds t (.attr id name value)) :
    ∃ source, w.Reaches t (.schema (.objectId id) source) ∧
      (name, value) ∈ w.declared id source := by
  obtain ⟨m, hreach, hgives⟩ := h
  cases hgives with
  | declared _ hmem => exact ⟨_, hreach, hmem⟩
  | embedded =>
      rw [hw.isSchema_target ⟨_, _, hreach⟩] at hid
      cases hid
  | attr =>
      rw [hw.isSchema_target ⟨_, _, hreach⟩] at hid
      cases hid

end Walk

end ObjectGraph
