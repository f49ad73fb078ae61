import ObjectGraph.Proofs.Walk.Trace

/-!
# Where a walk copies to

The ids that objects are copied under decide what the copy says, and nothing else: a
walk reads its views at the objects themselves, and of its own store it reads only the
attributes of schemas, which are copied under their own ids. So two walks that differ
in their targets do the same tasks and end in the same error, or both end well. No
injectivity is needed: the targets may even collide, as long as they have the kinds of
the objects.
-/

namespace ObjectGraph

/-- No object of the task is a schema. -/
def Task.Plain (t : Task) : Prop :=
  ∀ o ∈ t.objects, o.isSchema = false

namespace Store

/-- The stores have the same attributes of schemas. -/
def AgreeOnSchemas (s t : Store) : Prop :=
  ∀ id, id.isSchema = true → ∀ name, t.attr? id name = s.attr? id name

variable {s s' t u : Store}

theorem AgreeOnSchemas.refl (s : Store) : s.AgreeOnSchemas s :=
  fun _ _ _ => rfl

theorem AgreeOnSchemas.symm (h : s.AgreeOnSchemas t) : t.AgreeOnSchemas s :=
  fun id hid name => (h id hid name).symm

theorem AgreeOnSchemas.trans (h : s.AgreeOnSchemas t) (h' : t.AgreeOnSchemas u) :
    s.AgreeOnSchemas u :=
  fun id hid name => (h' id hid name).trans (h id hid name)

theorem agreeOnSchemas_setAttr {id : ObjectId} (hid : id.isSchema = false) (name : String)
    (value : Item) : s.AgreeOnSchemas (s.setAttr id name value) := by
  intro other hother otherName
  rw [attr?_setAttr, if_neg]
  rintro ⟨rfl, -⟩
  rw [hid] at hother
  cases hother

theorem AgreeOnSchemas.setAttr (h : s.AgreeOnSchemas t) (id : ObjectId) (name : String)
    (value : Item) : (s.setAttr id name value).AgreeOnSchemas (t.setAttr id name value) := by
  intro other hother otherName
  rw [attr?_setAttr, attr?_setAttr, h other hother otherName]

end Store

namespace Walk

open Schema Store

variable {w : Walk} {t u : Task} {p p' q : Progress} {done queue tasks : List Task} {s s' r : Store}

/-- The walk that copies objects to other targets. -/
def withTarget (w : Walk) (target : ObjectId → ObjectId) : Walk :=
  { w with target }

theorem withEmbedded_withTarget (target : ObjectId → ObjectId) (objects : List ObjectId) :
    (w.withTarget target).withEmbedded objects = w.withEmbedded objects := by
  induction objects with
  | nil => rfl
  | cons o objects ih =>
      rw [withEmbedded, withEmbedded, ih]
      rfl

theorem childTasks_withTarget (target : ObjectId → ObjectId) (source : Source)
    (objects : List ObjectId) (layout : Layout) :
    (w.withTarget target).childTasks source objects layout =
      w.childTasks source objects layout := by
  cases layout <;> rfl

/-! ### Copies leave schemas alone -/

theorem agreeOnSchemas_nameSchemas {typed : List (ObjectId × ObjectId)}
    (hplain : ∀ x ∈ typed, (w.target x.1).isSchema = false) :
    s.AgreeOnSchemas (w.nameSchemas s typed) := by
  induction typed generalizing s with
  | nil => exact .refl s
  | cons x typed ih =>
      have hx := agreeOnSchemas_setAttr (s := s) (hplain x List.mem_cons_self) schemaAttr
        (.objectId x.2)
      exact hx.trans (ih fun y hy => hplain y (List.mem_cons_of_mem x hy))

theorem agreeOnSchemas_copyAttr {objects : List ObjectId}
    (hplain : ∀ o ∈ objects, (w.target o).isSchema = false) (name : String) :
    s.AgreeOnSchemas (w.copyAttr objects s name) := by
  refine List.foldlRecOn objects _ (.refl s) fun r hr o ho => ?_
  by_cases hpresent : (w.data.attr o name).isPresent = true
  · simp only [hpresent, if_true]
    exact hr.trans (agreeOnSchemas_setAttr (hplain o ho) _ _)
  · simp only [hpresent]
    exact hr

theorem agreeOnSchemas_copyData {objects : List ObjectId} {layout : Layout}
    (hplain : ∀ o ∈ objects, (w.target o).isSchema = false)
    (h : w.copyData objects s layout = .ok r) : s.AgreeOnSchemas r := by
  cases layout with
  | entity attrs =>
      obtain rfl := Except.ok.inj h
      exact List.foldlRecOn _ _ (.refl s) fun r hr name _ =>
        hr.trans (agreeOnSchemas_copyAttr hplain name)
  | list items =>
      refine foldlM_invariant (I := s.AgreeOnSchemas) (fun r hr l _ v hv => ?_) (.refl s) h
      split at hv
      · obtain ⟨-, rfl⟩ := setList_eq_ok hv
        exact hr
      · exact Except.ok.inj hv ▸ hr
  | dict keys values =>
      refine foldlM_invariant (I := s.AgreeOnSchemas) (fun r hr d _ v hv => ?_) (.refl s) h
      rw [foldlM_setInDict hv]
      intro id hid name
      rw [attr?_putAll, hr id hid name]

/-! ### Walks in step -/

/-- Two walks have done the same, up to what their stores say of objects. -/
structure Abreast (p p' : Progress) : Prop where
  schemas : p.result.AgreeOnSchemas p'.result
  visits : p'.visits = p.visits
  loaded : p'.loaded = p.loaded

/-- Two outcomes are the same error, or successes with what `R` relates. -/
inductive BothEnd {α : Type} (R : α → α → Prop) : Except Error α → Except Error α → Prop
  | error (e : Error) : BothEnd R (.error e) (.error e)
  | ok {a b : α} : R a b → BothEnd R (.ok a) (.ok b)

theorem BothEnd.bind {α β : Type} {R : α → α → Prop} {S : β → β → Prop} {x y : Except Error α}
    {f g : α → Except Error β} (h : BothEnd R x y) (hfg : ∀ a b, R a b → BothEnd S (f a) (g b)) :
    BothEnd S (x >>= f) (y >>= g) := by
  cases h with
  | error e => exact .error e
  | ok hab => exact hfg _ _ hab

theorem bothEnd_declare (h : s.AgreeOnSchemas s') {schema : ObjectId}
    (hid : schema.isSchema = true) (attrs : List (String × Item)) :
    BothEnd AgreeOnSchemas (declare schema s attrs) (declare schema s' attrs) := by
  induction attrs generalizing s s' with
  | nil => exact .ok h
  | cons a attrs ih =>
      obtain ⟨name, value⟩ := a
      rw [declare, declare, h schema hid name]
      split
      · exact .error _
      · exact ih (h.setAttr schema name value)

/-- Both walks keep the kinds of the objects that they copy. -/
structure KeepKinds (w : Walk) (target : ObjectId → ObjectId) : Prop where
  left : ∀ o, (w.target o).kind = o.kind
  right : ∀ o, (target o).kind = o.kind
  keys : w.data.ValidKeys

variable {target : ObjectId → ObjectId}

theorem isSchema_of_kind {a b : ObjectId} (h : a.kind = b.kind) : a.isSchema = b.isSchema := by
  rw [ObjectId.isSchema, h, ObjectId.isSchema]

theorem KeepKinds.bothEnd_copyData (hw : w.KeepKinds target) (h : s.AgreeOnSchemas s')
    {objects : List ObjectId} (hplain : ∀ o ∈ objects, o.isSchema = false) (layout : Layout) :
    BothEnd AgreeOnSchemas (w.copyData objects s layout)
      ((w.withTarget target).copyData objects s' layout) := by
  obtain ⟨r, hr⟩ := exists_copyData hw.left hw.keys objects s layout
  obtain ⟨r', hr'⟩ :=
    exists_copyData (w := w.withTarget target) hw.right hw.keys objects s' layout
  rw [hr, hr']
  have hleft := agreeOnSchemas_copyData
    (fun o ho => (isSchema_of_kind (hw.left o)).trans (hplain o ho)) hr
  have hright := agreeOnSchemas_copyData
    (fun o ho => (isSchema_of_kind (hw.right o)).trans (hplain o ho)) hr'
  exact .ok (hleft.symm.trans (h.trans hright))

/-- Two steps are abreast: both go on with the same tasks. -/
def Onward (a b : Progress × List Task) : Prop :=
  Abreast a.1 b.1 ∧ b.2 = a.2

theorem KeepKinds.stepObjects (hw : w.KeepKinds target) (hp : Abreast p p')
    (objects : List ObjectId) (source : Source) :
    BothEnd Onward (w.stepObjects p objects source)
      ((w.withTarget target).stepObjects p' objects source) := by
  have hfresh : p'.fresh none source (objects.filter fun o => !o.isSchema) =
      p.fresh none source (objects.filter fun o => !o.isSchema) := by
    rw [Progress.fresh, hp.visits, Progress.fresh]
  rw [Walk.stepObjects, Walk.stepObjects, withEmbedded_withTarget]
  simp only [hfresh]
  cases htyped : w.withEmbedded (p.fresh none source (objects.filter fun o => !o.isSchema)) with
  | error e => exact .error e
  | ok typed =>
      have hplain : ∀ x ∈ typed, x.1.isSchema = false := by
        intro x hx
        have hmem := (Progress.mem_fresh.1 (mem_of_mem_typed htyped hx).1).1
        simpa using (List.mem_filter.1 hmem).2
      have hleft := agreeOnSchemas_nameSchemas (w := w) (s := p.result)
        fun x hx => (isSchema_of_kind (hw.left x.1)).trans (hplain x hx)
      have hright := agreeOnSchemas_nameSchemas (w := w.withTarget target) (s := p'.result)
        fun x hx => (isSchema_of_kind (hw.right x.1)).trans (hplain x hx)
      refine .ok ⟨⟨hleft.symm.trans (hp.schemas.trans hright), ?_, hp.loaded⟩, rfl⟩
      rw [Progress.visitsWith, hp.visits, Progress.visitsWith]

theorem KeepKinds.stepExplicit (hw : w.KeepKinds target) (hp : Abreast p p') {schema : ObjectId}
    (hid : schema.isSchema = true) {objects : List ObjectId}
    (hplain : ∀ o ∈ objects, o.isSchema = false) (source : Source) :
    BothEnd Onward (w.stepExplicit p schema objects source)
      ((w.withTarget target).stepExplicit p' schema objects source) := by
  have hfresh : p'.fresh (some schema) source objects = p.fresh (some schema) source objects := by
    rw [Progress.fresh, hp.visits, Progress.fresh]
  have hvisits : ∀ fresh, p'.visitsWith (some schema) source fresh =
      p.visitsWith (some schema) source fresh := by
    intro fresh
    rw [Progress.visitsWith, hp.visits, Progress.visitsWith]
  have hplain : ∀ o ∈ p.fresh (some schema) source objects, o.isSchema = false :=
    fun o ho => hplain o (Progress.mem_fresh.1 ho).1
  rw [Walk.stepExplicit, Walk.stepExplicit]
  change BothEnd Onward (w.layout schema source >>= _) (w.layout schema source >>= _)
  cases w.layout schema source with
  | error e => exact .error e
  | ok layout =>
      simp only [hfresh, hvisits, hp.loaded, childTasks_withTarget, bind, Except.bind]
      split
      · split
        · exact .ok ⟨hp, rfl⟩
        · refine (hw.bothEnd_copyData hp.schemas hplain layout).bind fun r r' hr => ?_
          exact .ok ⟨⟨hr, rfl, rfl⟩, rfl⟩
      · refine (bothEnd_declare hp.schemas hid _).bind fun r r' hr => ?_
        refine (hw.bothEnd_copyData hr hplain layout).bind fun s s' hs => ?_
        exact .ok ⟨⟨hs, rfl, rfl⟩, rfl⟩

/-- Walks that are abreast stay so, or stop on the same error. -/
theorem KeepKinds.step (hw : w.KeepKinds target) (hp : Abreast p p') (hu : u.Plain) :
    BothEnd Onward (w.step p u) ((w.withTarget target).step p' u) := by
  unfold Walk.step
  split
  · exact .error _
  · exact hw.stepObjects hp u.objects u.source
  · exact .ok ⟨hp, rfl⟩
  · rename_i id hs
    split
    · exact .ok ⟨hp, rfl⟩
    · split
      · rename_i hid
        exact hw.stepExplicit hp hid hu u.source
      · exact .error _
  · exact .error _

theorem not_isSchema_of_leads (hu : u.Plain) {m : Mark} (hm : u.Has m) {o : ObjectId}
    {schema : Item} {source : Source} (hlead : w.Leads m (.object o schema source)) :
    o.isSchema = false := by
  cases hlead with
  | embeddedObject => exact hu o hm.1
  | attr _ _ _ _ _ hc => exact isSchema_child hc
  | item _ _ _ _ _ hc => exact isSchema_child hc
  | key _ _ _ _ _ hc => exact isSchema_child hc
  | value _ _ _ _ _ hc => exact isSchema_child hc

theorem plain_of_step (hu : u.Plain) (h : w.step p u = .ok (q, tasks)) : ∀ v ∈ tasks, v.Plain := by
  intro v hv o ho
  obtain ⟨m, hm, hlead⟩ := exists_leads_of_steps (steps_of_step h)
    (⟨v, hv, ho, rfl, rfl⟩ : Marked tasks (.object o v.schema v.source))
  exact not_isSchema_of_leads hu hm hlead

/-- With other targets a walk goes through the same tasks. -/
theorem KeepKinds.exists_trace (hw : w.KeepKinds target) (ht : t.Plain)
    (h : w.Trace t p done queue) :
    (∀ v ∈ queue, v.Plain) ∧
      ∃ p', (w.withTarget target).Trace t p' done queue ∧ Abreast p p' := by
  -- The tasks stay plain along the trace, so no copy of an object can change a schema.
  induction h with
  | start =>
      refine ⟨fun v hv => List.mem_singleton.1 hv ▸ ht, .start, .start, ?_⟩
      exact ⟨.refl _, rfl, rfl⟩
  | @step p q u done queue tasks _ hstep ih =>
      obtain ⟨hplain, p', htrace, hp⟩ := ih
      have hu := hplain u List.mem_cons_self
      have hboth := hw.step hp hu
      rw [hstep] at hboth
      generalize hstep' : (w.withTarget target).step p' u = out at hboth
      cases hboth with
      | @ok _ b hab =>
          obtain ⟨q', tasks'⟩ := b
          obtain ⟨hq, rfl⟩ : Abreast q q' ∧ tasks' = tasks := hab
          refine ⟨fun v hv => ?_, q', .step htrace hstep', hq⟩
          rcases List.mem_append.1 hv with hv | hv
          · exact hplain v (List.mem_cons_of_mem u hv)
          · exact plain_of_step hu hstep v hv

/-- With other targets a walk ends in the same error, or ends well as before. -/
theorem KeepKinds.runTask (hw : w.KeepKinds target) (ht : t.Plain) :
    BothEnd AgreeOnSchemas (w.runTask t) ((w.withTarget target).runTask t) := by
  cases hrun : w.runTask t with
  | ok r =>
      obtain ⟨p, done, htrace, rfl⟩ := exists_trace_of_drain_eq_ok hrun .start
      obtain ⟨-, p', htrace', hp⟩ := hw.exists_trace ht htrace
      rw [htrace'.runTask_eq_ok]
      exact .ok hp.schemas
  | error e =>
      obtain ⟨p, done, u, queue, htrace, hstep⟩ := exists_trace_of_drain_eq_error hrun .start
      obtain ⟨hplain, p', htrace', hp⟩ := hw.exists_trace ht htrace
      have hboth := hw.step hp (hplain u List.mem_cons_self)
      rw [hstep] at hboth
      generalize hstep' : (w.withTarget target).step p' u = out at hboth
      cases hboth with
      | error =>
          rw [htrace'.runTask_eq_error hstep']
          exact .error e

end Walk

end ObjectGraph
