import ObjectGraph.Proofs.Walk.Shallow

/-!
# Views that answer alike

A walk learns of a view only what the view answers: the value of an attribute, the items
of a list and the entries of a dict. So it does not matter over how many layers the
answers are spread, which of them hide others, and in which order the layers mention
names: two walks over views with the same answers do the same in every step, and so they
end in the same store or in the same error.
-/

namespace ObjectGraph

/-- Two views have the same answers, a dict with its entries in the same order. -/
structure View.SameAnswers (u v : View) : Prop where
  attr : ∀ id name, u.attr id name = v.attr id name
  list : ∀ id, u.list? id = v.list? id
  dict : ∀ id, u.dictEntries id = v.dictEntries id

theorem View.SameAnswers.refl (v : View) : v.SameAnswers v where
  attr := fun _ _ => rfl
  list := fun _ => rfl
  dict := fun _ => rfl

theorem View.SameAnswers.symm {u v : View} (h : u.SameAnswers v) : v.SameAnswers u where
  attr := fun id name => (h.attr id name).symm
  list := fun id => (h.list id).symm
  dict := fun id => (h.dict id).symm

namespace Walk

/-- Two walks that copy alike and read views with the same answers. -/
structure SameAnswers (w w' : Walk) : Prop where
  data : w.data.SameAnswers w'.data
  schemas : ∀ source, (w.schemaView source).SameAnswers (w'.schemaView source)
  target : w.target = w'.target
  shallow : w.shallow = w'.shallow

variable {w w' : Walk} {t : Task} {p : Progress} {done queue : List Task}

theorem SameAnswers.declared_eq (h : SameAnswers w w') (schema : ObjectId) (source : Source) :
    w.declared schema source = w'.declared schema source :=
  View.attrEntries_congr fun name => (h.schemas source).attr schema name

theorem SameAnswers.layout_eq (h : SameAnswers w w') (schema : ObjectId) (source : Source) :
    w.layout schema source = w'.layout schema source := by
  rw [layout, h.declared_eq, layout]

theorem SameAnswers.withEmbedded_eq (h : SameAnswers w w') (objects : List ObjectId) :
    w.withEmbedded objects = w'.withEmbedded objects := by
  induction objects with
  | nil => rfl
  | cons o objects ih =>
      have hembedded : w.embedded o = w'.embedded o := by
        rw [embedded, h.data.attr, embedded]
      rw [withEmbedded, hembedded, ih, withEmbedded]

theorem SameAnswers.copyData_eq (h : SameAnswers w w') (objects : List ObjectId) (s : Store)
    (layout : Layout) : w.copyData objects s layout = w'.copyData objects s layout := by
  cases layout with
  | entity attrs =>
      have hcopy : w.copyAttr objects = w'.copyAttr objects := by
        funext s name
        simp only [copyAttr, h.data.attr, h.target]
      rw [copyData, hcopy, copyData]
  | list items => simp only [copyData, copyLists, h.data.list, h.target]
  | dict keys values => simp only [copyData, copyDicts, h.data.dict, h.target]

theorem SameAnswers.childTasks_eq (h : SameAnswers w w') (source : Source)
    (objects : List ObjectId) (layout : Layout) :
    w.childTasks source objects layout = w'.childTasks source objects layout := by
  have hchild : w.childTask = w'.childTask := by
    funext objects schema source
    rw [childTask, h.shallow, childTask]
  cases layout with
  | entity attrs => simp only [childTasks, hchild, h.data.attr]
  | list items =>
      have hlist : w.data.list = w'.data.list := by
        funext id
        rw [View.list, h.data.list, View.list]
      rw [childTasks, hchild, hlist, childTasks]
  | dict keys values =>
      have hdict : w.data.dictEntries = w'.data.dictEntries := funext h.data.dict
      rw [childTasks, hchild, hdict, childTasks]

/-- Walks over views with the same answers do the same in every step. -/
theorem SameAnswers.step_eq (h : SameAnswers w w') (p : Progress) (t : Task) :
    w.step p t = w'.step p t := by
  have hobjects : w.stepObjects = w'.stepObjects := by
    funext p objects source
    simp only [stepObjects, h.withEmbedded_eq, h.target]
  have hexplicit : w.stepExplicit = w'.stepExplicit := by
    funext p schema objects source
    simp only [stepExplicit, h.layout_eq, h.declared_eq, h.copyData_eq, h.childTasks_eq]
  rw [step, hobjects, hexplicit, step]

theorem SameAnswers.trace (h : SameAnswers w w') (htrace : w.Trace t p done queue) :
    w'.Trace t p done queue := by
  induction htrace with
  | start => exact .start
  | @step p q u done queue tasks _ hstep ih => exact .step ih ((h.step_eq p u).symm.trans hstep)

/-- Walks over views with the same answers end in the same way. -/
theorem SameAnswers.runTask_eq (h : SameAnswers w w') (t : Task) : w.runTask t = w'.runTask t := by
  cases hrun : w.runTask t with
  | ok r =>
      obtain ⟨p, done, htrace, rfl⟩ := exists_trace_of_drain_eq_ok hrun .start
      exact (h.trace htrace).runTask_eq_ok.symm
  | error e =>
      obtain ⟨p, done, u, queue, htrace, hstep⟩ := exists_trace_of_drain_eq_error hrun .start
      exact ((h.trace htrace).runTask_eq_error ((h.step_eq p u).symm.trans hstep)).symm

variable {data data' : View} {schemas schemas' : Option View}

theorem sameAnswers_mk (hdata : data.SameAnswers data')
    (hschemas : Option.Rel View.SameAnswers schemas schemas') (target : ObjectId → ObjectId)
    (shallow : Bool) :
    SameAnswers ⟨data, schemas, target, shallow⟩ ⟨data', schemas', target, shallow⟩ where
  data := hdata
  schemas := by
    intro source
    cases source with
    | data => exact hdata
    | schema =>
        cases hschemas with
        | none => exact hdata
        | some h => exact h
  target := rfl
  shallow := rfl

end Walk

variable {data data' : View} {schemas schemas' : Option View}

theorem isSome_eq_of_rel (h : Option.Rel View.SameAnswers schemas schemas') :
    schemas.isSome = schemas'.isSome := by
  cases h <;> rfl

theorem run_eq_of_sameAnswers (hdata : data.SameAnswers data')
    (hschemas : Option.Rel View.SameAnswers schemas schemas') (target : ObjectId → ObjectId)
    (shallow : Bool) (objects : List ObjectId) (schema : Item) :
    (Walk.mk data schemas target shallow).run objects schema =
      (Walk.mk data' schemas' target shallow).run objects schema := by
  have hwalk := Walk.sameAnswers_mk hdata hschemas target shallow
  rw [Walk.run, Walk.firstTask, isSome_eq_of_rel hschemas, hwalk.runTask_eq]
  rfl

/-- How data and schemas are spread over layers does not matter: extraction and shallow
clones over views with the same answers have the same results, errors included. -/
theorem extract_shallowClone_congr (hdata : data.SameAnswers data')
    (hschemas : Option.Rel View.SameAnswers schemas schemas') (objects : Column) (schema : Item)
    (a : Allocator) :
    extract data schemas objects schema = extract data' schemas' objects schema ∧
      shallowClone data schemas objects schema a =
        shallowClone data' schemas' objects schema a := by
  have hrun := run_eq_of_sameAnswers hdata hschemas
  constructor
  · exact hrun id false objects.roots schema
  · rw [shallowClone, shallowClone]
    exact congrArg (fun result => (Except.map _ result, _)) (hrun _ true objects.roots schema)

namespace Spread

/-- A schema of dicts with text keys. -/
def pairs : ObjectId :=
  ⟨1, 0, .schema⟩

def table : ObjectId :=
  ⟨2, 0, .dict⟩

/-- The lower layer, with an attribute that does not belong to a dict schema. -/
def lower : Store :=
  ((((Store.empty.setAttr pairs Schema.keysAttr (.dtype .text)).setAttr
    pairs Schema.valuesAttr (.dtype .bool)).setAttr pairs "x" (.dtype .bool)).putInDict
      table (.text "a") (.bool true)).putInDict table (.text "b") (.bool true)

/-- The upper layer hides this attribute and one key, and has a key of its own. -/
def upper : Store :=
  ((Store.empty.setAttr pairs "x" .missing).putInDict table (.text "b") .missing).putInDict
    table (.text "c") (.bool false)

/-- The answers of both layers in one store. -/
def single : Store :=
  (((Store.empty.setAttr pairs Schema.keysAttr (.dtype .text)).setAttr
    pairs Schema.valuesAttr (.dtype .bool)).putInDict
      table (.text "c") (.bool false)).putInDict table (.text "a") (.bool true)

theorem sameAnswers_single : (View.ofStore upper [lower]).SameAnswers (.ofStore single []) where
  attr := by
    intro id name
    simp only [View.ofStore, View.attr, View.attr?, List.findSome?_cons, List.findSome?_nil, upper,
      lower, single, Store.attr?_putInDict, Store.attr?_setAttr, Store.attr?_empty]
    by_cases hx : pairs = id ∧ "x" = name
    · obtain ⟨rfl, rfl⟩ := hx
      decide
    · simp only [hx, if_false]
  list := fun _ => rfl
  dict := by
    intro id
    by_cases hid : table = id
    · subst hid
      decide +kernel
    · have hempty : ∀ s ∈ [upper, lower] ++ [single], s.dict id = .empty := by
        simp [upper, lower, single, Store.dict_putInDict, hid, Store.dict_empty]
      have hlayers := View.dictEntries_of_empty fun s hs => hempty s (List.mem_append_left _ hs)
      have hsingle := View.dictEntries_of_empty fun s hs => hempty s (List.mem_append_right _ hs)
      exact Eq.trans (b := []) hlayers hsingle.symm

theorem extract_single :
    extract (.ofStore single []) (some (.ofStore single [])) (.ofItems [.objectId table])
      (.objectId pairs) = .ok single := by
  have hdict := @Walk.Trace.step _ _ _ _ _ _ []
    [⟨[], .dtype .text, .schema⟩, ⟨[], .dtype .bool, .schema⟩]
    (.start (w := .deep (.ofStore single []) (some (.ofStore single [])))
      (t := ⟨[table], .objectId pairs, .schema⟩)) rfl
  have hkeys := @Walk.Trace.step _ _ _ _ _ _ [⟨[], .dtype .bool, .schema⟩] [] hdict rfl
  exact (@Walk.Trace.step _ _ _ _ _ _ [] [] hkeys rfl).runTask_eq_ok

/-- The two layers are copied as the single store is, with the keys of the dict in the
order in which the layers show them. -/
theorem extract_layers :
    (View.ofStore upper [lower]).SameAnswers (.ofStore single []) ∧
      extract (.ofStore upper [lower]) (some (.ofStore upper [lower])) (.ofItems [.objectId table])
        (.objectId pairs) = .ok single ∧
      shallowClone (.ofStore upper [lower]) (some (.ofStore upper [lower]))
          (.ofItems [.objectId table]) (.objectId pairs) { next := 3 } =
        shallowClone (.ofStore single []) (some (.ofStore single []))
          (.ofItems [.objectId table]) (.objectId pairs) { next := 3 } := by
  have hsame := extract_shallowClone_congr sameAnswers_single (.some sameAnswers_single)
    (.ofItems [.objectId table]) (.objectId pairs) { next := 3 }
  exact ⟨sameAnswers_single, hsame.1.trans extract_single, hsame.2⟩

end Spread

end ObjectGraph
