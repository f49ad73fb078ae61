import ObjectGraph.Proofs.Walk.Copy

/-!
# One step of a walk

`Steps` lists all that one step can do, `Stops` all that it can fail on. What follows
from a step is stated against the tasks that were done before, `Seen`: the visits and the
copied schemas are exactly the marks of these tasks. Then a step adds the facts of its own
task, its marks do not fail, and the tasks that follow from it are the marks that its new
marks lead to.
-/

namespace ObjectGraph

namespace Walk

open Schema

/-- Copies the pairs of objects and the schemas that they name. -/
def nameSchemas (w : Walk) (s : Store) (typed : List (ObjectId × ObjectId)) : Store :=
  typed.foldl (fun r t => r.setAttr (w.target t.1) schemaAttr (.objectId t.2)) s

/-- What a successful step can do. -/
inductive Steps (w : Walk) (p : Progress) (u : Task) : Progress → List Task → Prop
  | leaf : (∀ id, u.schema = .objectId id → id.isNoFollow = true) →
      u.schema ≠ .dtype .object → u.schema ≠ .dtype .any → u.schema.isSchema = true →
      Steps w p u p []
  | objects {typed : List (ObjectId × ObjectId)} :
      u.schema = .dtype .object →
      w.withEmbedded (p.fresh none u.source (u.objects.filter fun o => !o.isSchema)) =
        .ok typed →
      Steps w p u ⟨w.nameSchemas p.result typed,
        p.visitsWith none u.source
          (p.fresh none u.source (u.objects.filter fun o => !o.isSchema)), p.loaded⟩
        (bySchema typed)
  | known {id : ObjectId} {layout : Layout} {r : Store} {tasks : List Task} :
      u.schema = .objectId id → id.isExplicit = true → w.layout id u.source = .ok layout →
      (id, u.source) ∈ p.loaded →
      w.copyData (p.fresh (some id) u.source u.objects) p.result layout = .ok r →
      (tasks = w.childTasks u.source (p.fresh (some id) u.source u.objects) layout ∨
        tasks = [] ∧ p.fresh (some id) u.source u.objects = []) →
      Steps w p u ⟨r, p.visitsWith (some id) u.source
        (p.fresh (some id) u.source u.objects), p.loaded⟩ tasks
  | new {id : ObjectId} {layout : Layout} {r r' : Store} :
      u.schema = .objectId id → id.isExplicit = true → w.layout id u.source = .ok layout →
      (id, u.source) ∉ p.loaded →
      declare id p.result (w.declared id u.source) = .ok r →
      w.copyData (p.fresh (some id) u.source u.objects) r layout = .ok r' →
      Steps w p u ⟨r', p.visitsWith (some id) u.source
        (p.fresh (some id) u.source u.objects), (id, u.source) :: p.loaded⟩
        (w.childTasks u.source (p.fresh (some id) u.source u.objects) layout)

variable {w : Walk} {t u : Task} {p q : Progress} {done tasks : List Task}

theorem steps_of_stepObjects (hs : u.schema = .dtype .object)
    (h : w.stepObjects p u.objects u.source = .ok (q, tasks)) : w.Steps p u q tasks := by
  unfold stepObjects at h
  simp only at h
  cases ht : w.withEmbedded
      (p.fresh none u.source (u.objects.filter fun o => !o.isSchema)) with
  | error e => simp [ht, bind, Except.bind] at h
  | ok typed =>
      simp only [ht, bind, Except.bind, pure, Except.pure, Except.ok.injEq, Prod.mk.injEq] at h
      obtain ⟨rfl, rfl⟩ := h
      exact .objects hs ht

theorem steps_of_stepExplicit {id : ObjectId} (hs : u.schema = .objectId id)
    (he : id.isExplicit = true)
    (h : w.stepExplicit p id u.objects u.source = .ok (q, tasks)) : w.Steps p u q tasks := by
  unfold stepExplicit at h
  cases hl : w.layout id u.source with
  | error e => simp [hl, bind, Except.bind] at h
  | ok layout =>
      simp only [hl, bind, Except.bind, pure, Except.pure] at h
      split at h
      · rename_i hk
        split at h
        · rename_i hnil
          cases h
          have hnil := List.isEmpty_iff.1 hnil
          have hc : w.copyData (p.fresh (some id) u.source u.objects) p.result layout =
              .ok p.result := by rw [hnil, copyData_nil]
          have hstep := Steps.known hs he hl hk hc (Or.inr ⟨rfl, hnil⟩)
          rw [hnil] at hstep
          exact hstep
        · split at h
          · cases h
          · rename_i r hc
            cases h
            exact .known hs he hl hk hc (Or.inl rfl)
      · rename_i hn
        split at h
        · cases h
        · rename_i r hd
          split at h
          · cases h
          · rename_i r' hc
            cases h
            exact .new hs he hl hn hd hc

theorem steps_of_step (h : w.step p u = .ok (q, tasks)) : w.Steps p u q tasks := by
  unfold step at h
  split at h
  · cases h
  · rename_i hs
    exact steps_of_stepObjects hs h
  · rename_i d hany hobject hs
    cases h
    refine .leaf ?_ ?_ ?_ ?_
    · intro id hid
      rw [hs] at hid
      cases hid
    · rw [hs]
      intro heq
      exact hobject (Item.dtype.inj heq)
    · rw [hs]
      intro heq
      exact hany (Item.dtype.inj heq)
    · rw [hs]
      rfl
  · rename_i id hs
    split at h
    · rename_i hn
      cases h
      refine .leaf ?_ ?_ ?_ ?_
      · intro id' hid
        rw [hs] at hid
        obtain rfl := Item.objectId.inj hid
        exact hn
      · simp [hs]
      · simp [hs]
      · rw [hs]
        exact ObjectId.isSchema_of_isNoFollow hn
    · rename_i hn
      split at h
      · rename_i hschema
        exact steps_of_stepExplicit hs (isExplicit_iff.2 ⟨hschema, by simpa using hn⟩) h
      · cases h
  · cases h

/-! ### Errors -/

/-- What can stop a step, with the error it ends in. -/
inductive Stops (w : Walk) (p : Progress) (u : Task) : Error → Prop
  | any : u.schema = .dtype .any → Stops w p u .anySchema
  | unsupported : u.schema.isSchema = false → Stops w p u .unsupportedSchema
  | embedded {o : ObjectId} :
      u.schema = .dtype .object → o ∈ u.objects → w.embedded o = .error (.noEmbeddedSchema o) →
      Stops w p u (.noEmbeddedSchema o)
  | layout {id : ObjectId} {e : Error} :
      u.schema = .objectId id → id.isExplicit = true → w.layout id u.source = .error e →
      Stops w p u e
  | conflict {id : ObjectId} {name : String} {value v : Item} :
      u.schema = .objectId id → id.isExplicit = true →
      (name, value) ∈ w.declared id u.source → p.result.attr? id name = some v → v ≠ value →
      Stops w p u (.schemaConflict id name v value)

variable {e : Error}

theorem eq_noEmbeddedSchema {o : ObjectId} (h : w.embedded o = .error e) :
    e = .noEmbeddedSchema o := by
  unfold embedded at h
  split at h
  · split at h
    · cases h
    · exact (Except.error.inj h).symm
  · exact (Except.error.inj h).symm

theorem exists_of_withEmbedded_eq_error {objects : List ObjectId}
    (h : w.withEmbedded objects = .error e) : ∃ o ∈ objects, w.embedded o = .error e := by
  induction objects with
  | nil => cases h
  | cons o objects ih =>
      cases ho : w.embedded o with
      | error e' =>
          simp only [withEmbedded, ho, bind, Except.bind, Except.error.injEq] at h
          exact ⟨o, List.mem_cons_self, by rw [ho, h]⟩
      | ok schema =>
          cases hrest : w.withEmbedded objects with
          | error e' =>
              simp only [withEmbedded, ho, hrest, bind, Except.bind, Except.error.injEq] at h
              obtain ⟨o', ho', hemb⟩ := ih (by rw [hrest, h])
              exact ⟨o', List.mem_cons_of_mem o ho', hemb⟩
          | ok rest => simp [withEmbedded, ho, hrest, bind, Except.bind, pure, Except.pure] at h

theorem stops_of_stepObjects (hs : u.schema = .dtype .object)
    (h : w.stepObjects p u.objects u.source = .error e) : w.Stops p u e := by
  unfold stepObjects at h
  cases ht : w.withEmbedded
      (p.fresh none u.source (u.objects.filter fun o => !o.isSchema)) with
  | error e' =>
      simp only [ht, bind, Except.bind, Except.error.injEq] at h
      subst h
      obtain ⟨o, ho, hemb⟩ := exists_of_withEmbedded_eq_error ht
      obtain rfl := eq_noEmbeddedSchema hemb
      exact .embedded hs (List.mem_filter.1 (Progress.mem_fresh.1 ho).1).1 hemb
  | ok typed => simp [ht, bind, Except.bind, pure, Except.pure] at h

theorem stops_of_stepExplicit (hkind : ∀ o, (w.target o).kind = o.kind)
    (hkeys : w.data.ValidKeys) {id : ObjectId} (hs : u.schema = .objectId id)
    (he : id.isExplicit = true) (h : w.stepExplicit p id u.objects u.source = .error e) :
    w.Stops p u e := by
  unfold stepExplicit at h
  cases hl : w.layout id u.source with
  | error e' =>
      simp only [hl, bind, Except.bind, Except.error.injEq] at h
      exact .layout hs he (h ▸ hl)
  | ok layout =>
      have hcopy := fun s =>
        exists_copyData hkind hkeys (p.fresh (some id) u.source u.objects) s layout
      simp only [hl, bind, Except.bind, pure, Except.pure] at h
      split at h
      · obtain ⟨r, hr⟩ := hcopy p.result
        rw [hr] at h
        split at h <;> cases h
      · split at h
        · rename_i e' hd
          obtain ⟨name, value, v, hmem, hv, hne, heq⟩ :=
            exists_of_declare_eq_error (fun name u v hu hv => declared_inj hu hv) hd
          rw [← Except.error.inj h, heq]
          exact .conflict hs he hmem hv hne
        · rename_i s hd
          obtain ⟨r, hr⟩ := hcopy s
          rw [hr] at h
          cases h

theorem stops_of_step (hkind : ∀ o, (w.target o).kind = o.kind) (hkeys : w.data.ValidKeys)
    (h : w.step p u = .error e) : w.Stops p u e := by
  unfold step at h
  split at h
  · rename_i hs
    cases h
    exact .any hs
  · rename_i hs
    exact stops_of_stepObjects hs h
  · cases h
  · rename_i id hs
    split at h
    · cases h
    · rename_i hn
      split at h
      · rename_i hschema
        exact stops_of_stepExplicit hkind hkeys hs
          (isExplicit_iff.2 ⟨hschema, by simpa using hn⟩) h
      · rename_i hschema
        cases h
        refine .unsupported ?_
        rw [hs]
        simpa [Item.isSchema] using hschema
  · rename_i hdtype hid
    cases h
    refine .unsupported ?_
    cases hs : u.schema with
    | dtype d => exact absurd hs (hdtype d)
    | objectId id => exact absurd hs (hid id)
    | _ => rfl

/-! ### Tasks that follow -/

theorem marked_cons {m : Mark} : Marked (u :: done) m ↔ u.Has m ∨ Marked done m := by
  simp [Marked]

theorem marked_append {m : Mark} :
    Marked (done ++ tasks) m ↔ Marked done m ∨ Marked tasks m := by
  simp [Marked, or_and_right, exists_or]

/-- The tasks of typed objects are the schemas that are followed, and the objects under
these. -/
theorem marked_bySchema_iff {typed : List (ObjectId × ObjectId)} {m : Mark} :
    Marked (bySchema typed) m ↔ ∃ x ∈ typed, x.2.isNoFollow = false ∧
      (m = .schema (.objectId x.2) .data ∨ m = .object x.1 (.objectId x.2) .data) := by
  simp only [Marked, bySchema, List.mem_map, List.mem_eraseDups, List.mem_filter,
    Bool.not_eq_true']
  constructor
  · rintro ⟨t, ⟨schema, ⟨x, ⟨hx, hn⟩, rfl⟩, rfl⟩, hm⟩
    cases m with
    | schema item source =>
        obtain ⟨rfl, rfl⟩ := hm
        exact ⟨x, hx, hn, Or.inl rfl⟩
    | object o item source =>
        obtain ⟨ho, rfl, rfl⟩ := hm
        obtain ⟨y, hy, rfl⟩ := List.mem_map.1 ho
        obtain ⟨hy, hyx, hyn⟩ : y ∈ typed ∧ y.2 = x.2 ∧ y.2.isNoFollow = false := by
          simpa using hy
        exact ⟨y, hy, hyn, Or.inr (by rw [hyx])⟩
  · rintro ⟨x, hx, hn, rfl | rfl⟩
    · exact ⟨_, ⟨x.2, ⟨x, ⟨hx, hn⟩, rfl⟩, rfl⟩, rfl, rfl⟩
    · exact ⟨_, ⟨x.2, ⟨x, ⟨hx, hn⟩, rfl⟩, rfl⟩, List.mem_map.2 ⟨x, by simp [hx, hn], rfl⟩,
        rfl, rfl⟩

theorem has_childTask {objects : List ObjectId} {schema : Item} {source : Source} {m : Mark} :
    (w.childTask objects schema source).Has m ↔ m = .schema schema source ∨
      w.shallow = false ∧ ∃ o ∈ objects, m = .object o schema source := by
  cases m with
  | schema item src =>
      simp only [Task.Has, childTask, Mark.schema.injEq, reduceCtorEq, and_false, exists_false,
        or_false]
      exact and_congr eq_comm eq_comm
  | object o item src =>
      simp only [Task.Has, childTask, reduceCtorEq, false_or, Mark.object.injEq]
      cases w.shallow with
      | true => simp
      | false =>
          constructor
          · rintro ⟨ho, rfl, rfl⟩
            exact ⟨rfl, o, ho, rfl, rfl, rfl⟩
          · rintro ⟨-, o', ho, rfl, rfl, rfl⟩
            exact ⟨ho, rfl, rfl⟩

theorem exists_of_marked_childTasks {id : ObjectId} {source : Source} {layout : Layout}
    {objects : List ObjectId} {m : Mark} (he : id.isExplicit = true)
    (hl : w.layout id source = .ok layout)
    (h : Marked (w.childTasks source objects layout) m) :
    (∃ item ∈ layout.schemas, m = .schema item source) ∨
      ∃ o ∈ objects, w.Leads (.object o (.objectId id) source) m := by
  obtain ⟨t, ht, hm⟩ := h
  cases layout with
  | entity attrs =>
      obtain ⟨⟨name, item⟩, ha, rfl⟩ := List.mem_map.1 ht
      obtain ⟨ha, hn⟩ := List.mem_filter.1 ha
      rcases has_childTask.1 hm with rfl | ⟨hdeep, child, hchild, rfl⟩
      · exact Or.inl ⟨item, List.mem_map.2 ⟨_, ha, rfl⟩, rfl⟩
      · obtain ⟨o, ho, hc⟩ := List.mem_filterMap.1 hchild
        exact Or.inr ⟨o, ho, .attr hdeep he hl ha (by simpa using hn) hc⟩
  | list items =>
      obtain rfl := List.mem_singleton.1 ht
      rcases has_childTask.1 hm with rfl | ⟨hdeep, child, hchild, rfl⟩
      · exact Or.inl ⟨items, List.mem_singleton_self _, rfl⟩
      · obtain ⟨x, hx, hc⟩ := List.mem_filterMap.1 hchild
        obtain ⟨o, ho, hx⟩ := List.mem_flatMap.1 hx
        obtain ⟨ho, hlist⟩ := List.mem_filter.1 ho
        exact Or.inr ⟨o, ho, .item hdeep he hl hlist hx hc⟩
  | dict keys values =>
      simp only [childTasks, List.mem_cons, List.not_mem_nil, or_false] at ht
      rcases ht with rfl | rfl
      · rcases has_childTask.1 hm with rfl | ⟨hdeep, child, hchild, rfl⟩
        · exact Or.inl ⟨keys, by simp [Layout.schemas], rfl⟩
        · obtain ⟨x, hx, hc⟩ := List.mem_filterMap.1 hchild
          obtain ⟨o, ho, hx⟩ := List.mem_flatMap.1 hx
          obtain ⟨ho, hdict⟩ := List.mem_filter.1 ho
          exact Or.inr ⟨o, ho, .key hdeep he hl hdict hx hc⟩
      · rcases has_childTask.1 hm with rfl | ⟨hdeep, child, hchild, rfl⟩
        · exact Or.inl ⟨values, by simp [Layout.schemas], rfl⟩
        · obtain ⟨x, hx, hc⟩ := List.mem_filterMap.1 hchild
          obtain ⟨o, ho, hx⟩ := List.mem_flatMap.1 hx
          obtain ⟨ho, hdict⟩ := List.mem_filter.1 ho
          exact Or.inr ⟨o, ho, .value hdeep he hl hdict hx hc⟩

/-- Every schema of a layout has a task, unless nothing follows from it. -/
theorem marked_childTasks_schema {source : Source} {layout : Layout} (objects : List ObjectId)
    {item : Item} (hi : item ∈ layout.schemas) (hn : isNoFollow item = false) :
    Marked (w.childTasks source objects layout) (.schema item source) := by
  cases layout with
  | entity attrs =>
      obtain ⟨a, ha, rfl⟩ := List.mem_map.1 hi
      exact ⟨_, List.mem_map.2 ⟨a, List.mem_filter.2 ⟨ha, by simpa using hn⟩, rfl⟩, rfl, rfl⟩
  | list items =>
      obtain rfl := List.mem_singleton.1 hi
      exact ⟨_, List.mem_singleton_self _, rfl, rfl⟩
  | dict keys values =>
      simp only [Layout.schemas, List.mem_cons, List.not_mem_nil, or_false] at hi
      rcases hi with rfl | rfl
      · exact ⟨_, List.mem_cons_self, rfl, rfl⟩
      · exact ⟨_, List.mem_cons_of_mem _ List.mem_cons_self, rfl, rfl⟩

/-- Everything that an object of a layout leads to has a task. -/
theorem marked_childTasks_object {id o : ObjectId} {source : Source} {layout : Layout}
    {objects : List ObjectId} {m : Mark} (hl : w.layout id source = .ok layout)
    (ho : o ∈ objects) (h : w.Leads (.object o (.objectId id) source) m) :
    Marked (w.childTasks source objects layout) m := by
  cases h with
  | attr hdeep _ hl' ha hn hc =>
      obtain rfl := Except.ok.inj (hl.symm.trans hl')
      exact ⟨_, List.mem_map.2 ⟨_, List.mem_filter.2 ⟨ha, by simpa using hn⟩, rfl⟩,
        has_childTask.2 (Or.inr ⟨hdeep, _, List.mem_filterMap.2 ⟨o, ho, hc⟩, rfl⟩)⟩
  | item hdeep _ hl' hlist hx hc =>
      obtain rfl := Except.ok.inj (hl.symm.trans hl')
      have hmem := List.mem_flatMap.2 ⟨o, List.mem_filter.2 ⟨ho, hlist⟩, hx⟩
      exact ⟨_, List.mem_singleton_self _,
        has_childTask.2 (Or.inr ⟨hdeep, _, List.mem_filterMap.2 ⟨_, hmem, hc⟩, rfl⟩)⟩
  | key hdeep _ hl' hdict hx hc =>
      obtain rfl := Except.ok.inj (hl.symm.trans hl')
      have hmem := List.mem_flatMap.2 ⟨o, List.mem_filter.2 ⟨ho, hdict⟩, hx⟩
      exact ⟨_, List.mem_cons_self,
        has_childTask.2 (Or.inr ⟨hdeep, _, List.mem_filterMap.2 ⟨_, hmem, hc⟩, rfl⟩)⟩
  | value hdeep _ hl' hdict hx hc =>
      obtain rfl := Except.ok.inj (hl.symm.trans hl')
      have hmem := List.mem_flatMap.2 ⟨o, List.mem_filter.2 ⟨ho, hdict⟩, hx⟩
      exact ⟨_, List.mem_cons_of_mem _ List.mem_cons_self,
        has_childTask.2 (Or.inr ⟨hdeep, _, List.mem_filterMap.2 ⟨_, hmem, hc⟩, rfl⟩)⟩

end Walk

end ObjectGraph
