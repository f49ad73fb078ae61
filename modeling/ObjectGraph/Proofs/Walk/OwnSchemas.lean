import ObjectGraph.Proofs.Walk.Answers
import ObjectGraph.Proofs.Walk.Simulation

/-!
# The data as its own schema view

A walk that is given its data as a schema view takes the same steps as a walk without a
schema view. Only its first task has another source, so it may visit an object and copy
a schema twice, once from each source, where the other walk does so once.

A deep walk reaches the same marks up to their sources then, and no schema is declared
in two ways, so it ends in the same store. In a shallow walk the tasks that follow carry
no objects, so no second visit copies anything and the two walks run in step.
-/

namespace ObjectGraph

/-- The task with its schema read from another source. -/
def Task.readFrom (t : Task) (source : Source) : Task :=
  { t with source }

namespace Walk

variable {w : Walk} {t u : Task} {p p' q : Progress} {tasks queue queue' : List Task}
  {source source' : Source}

/-- Without a schema view all schemas are read from the data. -/
theorem declared_eq_of_none (hw : w.schemas = none) (id : ObjectId) (source source' : Source) :
    w.declared id source' = w.declared id source := by
  have hview : ∀ source, w.schemaView source = w.data := by
    intro source
    cases source <;> simp [schemaView, hw]
  rw [declared, declared, hview, hview]

theorem layout_eq_of_none (hw : w.schemas = none) (id : ObjectId) (source source' : Source) :
    w.layout id source' = w.layout id source := by
  rw [layout, declared_eq_of_none hw id source source', layout]

/-! ### Deep walks -/

/-- Marks that differ at most in their sources. -/
inductive UpToSource : Mark → Mark → Prop
  | schema {item : Item} {source source' : Source} :
      UpToSource (.schema item source) (.schema item source')
  | object {o : ObjectId} {item : Item} {source source' : Source} :
      UpToSource (.object o item source) (.object o item source')

theorem sameSchema_of_none (hw : w.schemas = none) (item : Item) (source source' : Source) :
    SameSchema w w item source source' where
  shallow := rfl
  declared := fun id _ _ => declared_eq_of_none hw id source source'

theorem alike_self (w : Walk) (o : ObjectId) (item : Item) (source : Source) :
    Alike w w o o item source := by
  constructor <;> intros <;> rfl

/-- Without a schema view a step can be made from marks with any sources. -/
theorem simulation_of_none (hw : w.schemas = none) : Simulation w w UpToSource where
  leads := by
    intro m m' n hm hlead
    cases hm with
    | @schema item source source' =>
        obtain ⟨i, heq, hlead'⟩ := (sameSchema_of_none hw item source source').leads hlead
        subst heq
        exact ⟨_, hlead', .schema⟩
    | object =>
        rcases (alike_self w _ _ _).leads (sameSchema_of_none hw _ _ _) hlead with
          ⟨i, rfl, hlead'⟩ | ⟨schema, rfl, -, -, -, hlead'⟩ | ⟨child, i, rfl, -, -, hlead'⟩
        · exact ⟨_, hlead', .schema⟩
        · exact ⟨_, hlead', .object⟩
        · exact ⟨_, hlead', .object⟩
  fails := by
    intro m m' hm hfails
    cases hm with
    | schema => exact (sameSchema_of_none hw _ _ _).fails hfails
    | object => exact (alike_self w _ _ _).fails hfails

theorem exists_upToSource_of_has (t : Task) (source source' : Source) (m : Mark)
    (hm : (t.readFrom source).Has m) : ∃ m', (t.readFrom source').Has m' ∧ UpToSource m m' := by
  cases m with
  | schema item other => exact ⟨.schema item source', ⟨hm.1, rfl⟩, .schema⟩
  | object o item other => exact ⟨.object o item source', ⟨hm.1, hm.2.1, rfl⟩, .object⟩

/-- What is true does not depend on the source that a walk starts from. -/
theorem holds_readFrom_of_none (hw : w.schemas = none) (source source' : Source) {f : Fact}
    (h : w.Holds (t.readFrom source) f) : w.Holds (t.readFrom source') f := by
  obtain ⟨m, hm, hgives⟩ := h
  obtain ⟨m', hm', hsame⟩ := (simulation_of_none hw).exists_reaches
    (exists_upToSource_of_has t source source') hm
  refine ⟨m', hm', ?_⟩
  cases hsame with
  | schema => exact (sameSchema_of_none hw _ _ _).gives hgives
  | object => exact (alike_self w _ _ _).gives (sameSchema_of_none hw _ _ _) rfl hgives

theorem not_conflict_of_none (hw : w.schemas = none) : ¬ w.Conflict t := by
  intro hconflict
  obtain ⟨id, name, value, value', _, _, _, hv, hv', hne⟩ := hconflict
  rw [declared_eq_of_none hw id .data .schema] at hv'
  exact hne (declared_inj hv hv')

theorem runTask_readFrom_eq_ok (hw : w.schemas = none)
    (hfaithful : ∀ source, w.Faithful (t.readFrom source)) (hkeys : w.data.ValidKeys)
    (source source' : Source) {r : Store} (h : w.runTask (t.readFrom source) = .ok r) :
    w.runTask (t.readFrom source') = .ok r := by
  cases hrun : w.runTask (t.readFrom source') with
  | error e =>
      have hbad := (runTask_eq_error_iff (hfaithful source') hkeys).1 ⟨e, hrun⟩
      have hfails := hbad.resolve_right (not_conflict_of_none hw)
      obtain ⟨m, hm, hfails⟩ := (simulation_of_none hw).exists_fails
        (exists_upToSource_of_has t source' source) hfails
      exact absurd hfails (not_fails_of_runTask_eq_ok (hfaithful source) h hm)
  | ok r' =>
      have hsays : ∀ f, r'.Says f ↔ r.Says f := by
        intro f
        rw [says_iff_of_runTask_eq_ok (hfaithful source') hrun,
          says_iff_of_runTask_eq_ok (hfaithful source) h]
        exact ⟨holds_readFrom_of_none hw source' source, holds_readFrom_of_none hw source source'⟩
      exact congrArg Except.ok (Store.eq_of_says
        (written_of_runTask_eq_ok (hfaithful source') hrun).valid
        (written_of_runTask_eq_ok (hfaithful source) h).valid hsays)

/-! ### Shallow walks -/

/-- A walk has built the same store, and has done under the schemas of one source what
another has done under those of the other. -/
structure Mirrors (source source' : Source) (p p' : Progress) : Prop where
  result : p'.result = p.result
  visits : ∀ o schema,
    (⟨o, some schema, source'⟩ : Visit) ∈ p'.visits ↔ ⟨o, some schema, source⟩ ∈ p.visits
  loaded : ∀ schema, (schema, source') ∈ p'.loaded ↔ (schema, source) ∈ p.loaded

/-- Two steps fail alike, or they go on alike with other sources. -/
inductive SameOutcome (source source' : Source) :
    Except Error (Progress × List Task) → Except Error (Progress × List Task) → Prop
  | error (e : Error) : SameOutcome source source' (.error e) (.error e)
  | ok {p p' : Progress} (tasks : List Task) : Mirrors source source' p p' →
      SameOutcome source source' (.ok (p, tasks))
        (.ok (p', tasks.map fun u => u.readFrom source'))

theorem Mirrors.fresh_eq (hp : Mirrors source source' p p') (schema : ObjectId)
    (objects : List ObjectId) :
    p'.fresh (some schema) source' objects = p.fresh (some schema) source objects := by
  simp only [Progress.fresh, hp.visits]

theorem Mirrors.visitsWith (hp : Mirrors source source' p p') (schema : ObjectId)
    (objects : List ObjectId) (o other : ObjectId) :
    (⟨o, some other, source'⟩ : Visit) ∈ p'.visitsWith (some schema) source' objects ↔
      ⟨o, some other, source⟩ ∈ p.visitsWith (some schema) source objects := by
  simp [Progress.visitsWith, hp.visits]

theorem childTasks_readFrom (w : Walk) (source source' : Source) (objects : List ObjectId)
    (layout : Layout) : w.childTasks source' objects layout =
      (w.childTasks source objects layout).map fun u => u.readFrom source' := by
  cases layout <;> simp [childTasks, childTask, Task.readFrom]

theorem SameOutcome.bind {α : Type} (x : Except Error α)
    {f f' : α → Except Error (Progress × List Task)}
    (h : ∀ a, SameOutcome source source' (f a) (f' a)) :
    SameOutcome source source' (x >>= f) (x >>= f') := by
  cases x with
  | error e => exact .error e
  | ok a => exact h a

/-- A step under an explicit schema copies the same and leads to the same tasks. -/
theorem Mirrors.stepExplicit (hw : w.schemas = none) (hp : Mirrors source source' p p')
    (schema : ObjectId) (objects : List ObjectId) :
    SameOutcome source source' (w.stepExplicit p schema objects source)
      (w.stepExplicit p' schema objects source') := by
  rw [Walk.stepExplicit, Walk.stepExplicit, layout_eq_of_none hw schema source source',
    declared_eq_of_none hw schema source source', hp.fresh_eq, hp.result]
  apply SameOutcome.bind
  intro layout
  simp only [hp.loaded, childTasks_readFrom w source source']
  have hvisits := hp.visitsWith schema (p.fresh (some schema) source objects)
  split
  · rename_i hloaded
    split
    · exact .ok [] hp
    · apply SameOutcome.bind
      intro result
      exact .ok _ ⟨rfl, fun o other => hvisits o other, hp.loaded⟩
  · apply SameOutcome.bind
    intro declared
    apply SameOutcome.bind
    intro result
    refine .ok _ ⟨rfl, fun o other => hvisits o other, ?_⟩
    intro other
    simp [hp.loaded]

/-- A task that reads its schema from a source and is typed `OBJECT` only if it has no
objects. These are the tasks of a shallow walk after the first one. -/
def Bare (source : Source) (u : Task) : Prop :=
  u.source = source ∧ (u.schema = .dtype .object → u.objects = [])

theorem Mirrors.step (hw : w.schemas = none) (hp : Mirrors source source' p p')
    (hu : Bare source u) :
    SameOutcome source source' (w.step p u) (w.step p' (u.readFrom source')) := by
  obtain ⟨hsource, hbare⟩ := hu
  unfold Walk.step Task.readFrom
  cases hschema : u.schema with
  | dtype d =>
      cases d with
      | any => exact .error _
      | object =>
          simp only [hbare hschema]
          exact .ok [] hp
      | _ => exact .ok [] hp
  | objectId id =>
      simp only [hsource]
      split
      · exact .ok [] hp
      · split
        · exact hp.stepExplicit hw id u.objects
        · exact .error _
  | _ => exact .error _

theorem bare_childTasks (hw : w.shallow = true) {objects : List ObjectId} {layout : Layout}
    (hu : u ∈ w.childTasks source objects layout) : Bare source u := by
  have hchild : ∀ objects item, Bare source (w.childTask objects item source) := by
    simp [Bare, childTask, hw]
  cases layout with
  | entity attrs =>
      obtain ⟨a, _, ha⟩ := List.mem_map.1 hu
      exact ha ▸ hchild _ a.2
  | list items => exact List.mem_singleton.1 hu ▸ hchild _ items
  | dict keys values =>
      rcases List.mem_pair.1 hu with rfl | rfl
      · exact hchild _ keys
      · exact hchild _ values

/-- All tasks that follow from such a task are such tasks. -/
theorem bare_of_step (hw : w.shallow = true) (hu : Bare source u)
    (h : w.step p u = .ok (q, tasks)) : ∀ v ∈ tasks, Bare source v := by
  obtain ⟨hsource, hbare⟩ := hu
  cases steps_of_step h with
  | leaf => simp
  | objects hs htyped =>
      rw [hbare hs] at htyped
      obtain rfl := Except.ok.inj htyped
      simp [bySchema]
  | known _ _ _ _ _ htasks =>
      rcases htasks with rfl | ⟨rfl, -⟩
      · rw [hsource]
        exact fun v hv => bare_childTasks hw hv
      · simp
  | new =>
      rw [hsource]
      exact fun v hv => bare_childTasks hw hv

/-- Such tasks are done in step whatever the source. -/
theorem Mirrors.drain_eq (hw : w.schemas = none) (hshallow : w.shallow = true)
    {ids ids' : List ObjectId} {hids : w.Closed ids} {hids' : w.Closed ids'}
    {hq : ∀ v ∈ queue, v.Within ids} {hq' : ∀ v ∈ queue', v.Within ids'}
    (hp : Mirrors source source' p p') (hmap : queue' = queue.map fun v => v.readFrom source')
    (hqueue : ∀ v ∈ queue, Bare source v) :
    w.drain ids' hids' p' queue' hq' = w.drain ids hids p queue hq := by
  fun_induction drain w ids hids p queue hq generalizing p' queue' with
  | case1 p hq =>
      subst hmap
      simp only [List.map_nil]
      rw [drain, hp.result]
  | case2 p u queue hq e hstep =>
      subst hmap
      have hout := hp.step hw (hqueue u List.mem_cons_self)
      rw [hstep] at hout
      generalize hstep' : w.step p' (u.readFrom source') = out at hout
      cases hout with
      | error => exact drain_cons_of_error hstep'
  | case3 p u queue hq q tasks hstep hadv hq'' ih =>
      subst hmap
      have hu := hqueue u List.mem_cons_self
      have hout := hp.step hw hu
      rw [hstep] at hout
      generalize hstep' : w.step p' (u.readFrom source') = out at hout
      cases hout with
      | @ok _ q' _ hmirrors =>
          have hrest : ∀ v ∈ queue ++ tasks, Bare source v := by
            intro v hv
            rcases List.mem_append.1 hv with hv | hv
            · exact hqueue v (List.mem_cons_of_mem u hv)
            · exact bare_of_step hshallow hu hstep v hv
          obtain ⟨hcons, heq⟩ := @exists_drain_cons _ _ _ _ _ _ _ hids' hq' hstep'
          exact heq.trans (ih hmirrors List.map_append.symm hrest)

theorem runTask_eq_drain (w : Walk) (t : Task) :
    ∃ hq, w.runTask t = w.drain (w.reach t) (w.closed_reach t) .start [t] hq :=
  ⟨_, rfl⟩

/-- A first task typed `OBJECT` leads to the same tasks from every source. -/
theorem stepObjects_start (w : Walk) (objects : List ObjectId) (source source' : Source) :
    (∃ e, w.stepObjects .start objects source = .error e ∧
      w.stepObjects .start objects source' = .error e) ∨
    ∃ p p' typed, w.stepObjects .start objects source = .ok (p, bySchema typed) ∧
      w.stepObjects .start objects source' = .ok (p', bySchema typed) ∧
      Mirrors .data .data p p' := by
  have hfresh : Progress.start.fresh none source' (objects.filter fun o => !o.isSchema) =
      Progress.start.fresh none source (objects.filter fun o => !o.isSchema) := by
    simp [Progress.fresh, Progress.start]
  simp only [stepObjects, hfresh]
  cases w.withEmbedded (Progress.start.fresh none source (objects.filter fun o => !o.isSchema)) with
  | error e => exact .inl ⟨e, rfl, rfl⟩
  | ok typed =>
      refine .inr ⟨_, _, typed, rfl, rfl, rfl, ?_, ?_⟩
      · simp [Progress.visitsWith, Progress.start]
      · simp

/-- Which source a shallow walk starts from does not matter. -/
theorem runTask_readFrom_eq (hw : w.schemas = none) (hshallow : w.shallow = true) (t : Task)
    (source source' : Source) :
    w.runTask (t.readFrom source') = w.runTask (t.readFrom source) := by
  obtain ⟨hq, hrun⟩ := w.runTask_eq_drain (t.readFrom source)
  obtain ⟨hq', hrun'⟩ := w.runTask_eq_drain (t.readFrom source')
  rw [hrun, hrun']
  by_cases hobject : t.schema = .dtype .object
  · have hstep : ∀ source, w.step .start (t.readFrom source) =
        w.stepObjects .start t.objects source := by
      simp [step, Task.readFrom, hobject]
    rcases w.stepObjects_start t.objects source source' with
      ⟨e, he, he'⟩ | ⟨p, p', typed, htyped, htyped', hp⟩
    · rw [drain_cons_of_error ((hstep source).trans he),
        drain_cons_of_error ((hstep source').trans he')]
    · obtain ⟨hrest, heq⟩ := @exists_drain_cons _ _ _ _ _ _ _ (w.closed_reach _) hq
        ((hstep source).trans htyped)
      obtain ⟨hrest', heq'⟩ := @exists_drain_cons _ _ _ _ _ _ _ (w.closed_reach _) hq'
        ((hstep source').trans htyped')
      have hbare : ∀ v ∈ bySchema typed, Bare .data v := by
        intro v hv
        obtain ⟨schema, _, hv⟩ := List.mem_map.1 hv
        subst hv
        exact ⟨rfl, fun hitem => by cases hitem⟩
      have hmap : (bySchema typed).map (fun v => v.readFrom .data) = bySchema typed := by
        simp [bySchema, Task.readFrom]
      simp only [List.nil_append] at heq heq'
      rw [heq, heq']
      exact hp.drain_eq hw hshallow hmap.symm hbare
  · have hbare : ∀ v ∈ [t.readFrom source], Bare source v := by
      simp [Bare, Task.readFrom, hobject]
    have hstart : Mirrors source source' .start .start := by
      constructor <;> simp [Progress.start]
    exact hstart.drain_eq hw hshallow rfl hbare

end Walk

variable {data schemas : View}

/-- The data as its own schema view: the walk is that without a schema view, started from
the other source. -/
theorem run_eq_runTask_of_sameAnswers (hsame : data.SameAnswers schemas)
    (target : ObjectId → ObjectId) (shallow : Bool) (objects : List ObjectId) (schema : Item) :
    (Walk.mk data (some schemas) target shallow).run objects schema =
      (Walk.mk data none target shallow).runTask ⟨objects, schema, .schema⟩ := by
  have hwalks : Walk.SameAnswers ⟨data, some schemas, target, shallow⟩
      ⟨data, none, target, shallow⟩ := by
    refine ⟨.refl data, ?_, rfl, rfl⟩
    intro source
    cases source with
    | data => exact .refl data
    | schema => exact hsame.symm
  exact hwalks.runTask_eq _

/-- The data, or another view with the same answers, can be given as the schema view: this
extracts the same store, and a shallow clone is the same with all that it returns. -/
theorem extract_shallowClone_own_schemas (hdata : data.Written) (hsame : data.SameAnswers schemas)
    (objects : Column) (schema : Item) (a : Allocator) :
    (∀ r, extract data (some schemas) objects schema = .ok r ↔
      extract data none objects schema = .ok r) ∧
    shallowClone data (some schemas) objects schema a =
      shallowClone data none objects schema a := by
  have hrun := run_eq_runTask_of_sameAnswers hsame
  constructor
  · intro r
    have hfaithful : ∀ source, (Walk.deep data none).Faithful
        ((⟨objects.roots, schema, .data⟩ : Task).readFrom source) :=
      fun source => Walk.faithful_deep data none fun o ho => Walk.isSchema_of_mem_roots ho
    have hstart := Walk.runTask_readFrom_eq_ok rfl hfaithful hdata.validKeys
    rw [extract, Walk.deep, hrun]
    exact ⟨hstart .schema .data, hstart .data .schema⟩
  · rw [shallowClone, shallowClone]
    have hstart := (Walk.firstLevel data none (Renaming.ofColumn objects a).1).runTask_readFrom_eq
      rfl rfl ⟨objects.roots, schema, .data⟩ .data .schema
    exact congrArg (fun result => (Except.map _ result, _)) ((hrun _ true _ schema).trans hstart)

namespace SelfTyped

/-- A schema whose attribute is typed `OBJECT`. -/
def node : ObjectId :=
  ⟨1, 0, .schema⟩

def first : ObjectId :=
  ⟨2, 0, .entity⟩

def second : ObjectId :=
  ⟨2, 1, .entity⟩

/-- Two objects that refer to each other and name the schema themselves. -/
def store : Store :=
  ((((Store.empty.setAttr node "next" (.dtype .object)).setAttr first "next"
    (.objectId second)).setAttr second Schema.schemaAttr (.objectId node)).setAttr
      second "next" (.objectId first)).setAttr first Schema.schemaAttr (.objectId node)

theorem written_store : store.Written :=
  ((((Store.Written.empty.setAttr _ _ _).setAttr _ _ _).setAttr _ _ _).setAttr _ _ _).setAttr _ _ _

theorem extract_store :
    extract ⟨[store]⟩ none (.ofItems [.objectId first]) (.objectId node) = .ok store := by
  have hfirst := @Walk.Trace.step _ _ _ _ _ _ [] [⟨[second], .dtype .object, .data⟩]
    (.start (w := .deep ⟨[store]⟩ none) (t := ⟨[first], .objectId node, .data⟩)) rfl
  have hsecond := @Walk.Trace.step _ _ _ _ _ _ [] [⟨[second], .objectId node, .data⟩] hfirst rfl
  have hback := @Walk.Trace.step _ _ _ _ _ _ [] [⟨[first], .dtype .object, .data⟩] hsecond rfl
  have hagain := @Walk.Trace.step _ _ _ _ _ _ [] [⟨[first], .objectId node, .data⟩] hback rfl
  exact (@Walk.Trace.step _ _ _ _ _ _ [] [] hagain rfl).runTask_eq_ok

/-- The schema is reached from both sources when the store is its own schema view. -/
theorem extract_own_store :
    (View.mk [store]).Written ∧ (View.mk [store]).SameAnswers ⟨[store]⟩ ∧
      extract ⟨[store]⟩ (some ⟨[store]⟩) (.ofItems [.objectId first]) (.objectId node) =
        .ok store := by
  have hwritten : (View.mk [store]).Written := by
    intro s hs
    rw [List.mem_singleton.1 hs]
    exact written_store
  have hown := extract_shallowClone_own_schemas hwritten (.refl _) (.ofItems [.objectId first])
    (.objectId node) { next := 3 }
  exact ⟨hwritten, .refl _, (hown.1 store).2 extract_store⟩

end SelfTyped

end ObjectGraph
