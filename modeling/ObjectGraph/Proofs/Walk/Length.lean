import ObjectGraph.Proofs.Walk.Shallow

/-!
# The length of a walk

The queue of a walk grows while it is consumed, so its length alone bounds nothing. But
a step that adds tasks makes a visit or copies a schema for the first time, and it adds
no more tasks than there are ids to group by or attributes to follow. So the length of
the queue, with that many tasks for every visit and every schema that is left, goes
down with every step. This is `potential`, a number computed from the views and the
first task, and a walk takes at most so many steps.

The bound is stated of traces, which know only single steps; that `drain` is a total
function is used to say what the last step of a trace has to do with its result.
-/

namespace ObjectGraph

namespace Store

/-- The names of all attribute entries. -/
def names (s : Store) : List String :=
  s.attrs.toList.flatMap fun o => o.2.toList.map Prod.fst

theorem mem_names {s : Store} {id : ObjectId} {name : String}
    (h : (s.attr? id name).isSome) : name ∈ s.names := by
  obtain ⟨value, hvalue⟩ := Option.isSome_iff_exists.1 h
  unfold attr? localAttrs at hvalue
  cases ho : s.attrs[id]? with
  | none => simp [ho] at hvalue
  | some table =>
      rw [ho, Option.getD_some] at hvalue
      have hobject := Std.ExtTreeMap.mem_toList_iff_getElem?_eq_some.2 ho
      have hname := Std.ExtTreeMap.mem_toList_iff_getElem?_eq_some.2 hvalue
      exact List.mem_flatMap.2 ⟨_, hobject, List.mem_map.2 ⟨_, hname, rfl⟩⟩

end Store

namespace View

/-- The names of all attribute entries of the layers. -/
def names (v : View) : List String :=
  v.layers.flatMap Store.names

theorem length_attrEntries_le (v : View) (id : ObjectId) :
    (v.attrEntries id).length ≤ v.names.length := by
  have hsub : v.attrNames id ⊆ v.names := by
    intro name hname
    obtain ⟨s, hs, hentry⟩ := mem_mentionedNames.1 (List.mem_filter.1 hname).1
    exact List.mem_flatMap.2 ⟨s, hs, Store.mem_names hentry⟩
  rw [attrEntries, List.length_map]
  exact (List.subperm_of_subset (v.nodup_attrNames id) hsub).length_le

end View

namespace Walk

/-- No step adds more tasks than this. -/
def width (w : Walk) (ids : List ObjectId) : Nat :=
  ids.length + w.data.names.length + ((w.schemas.map View.names).getD []).length + 2

/-- The tasks in a queue, with all that can follow from the visits and schemas that
are left. -/
def potential (w : Walk) (ids : List ObjectId) (p : Progress) (queue : List Task) : Nat :=
  queue.length + w.width ids * left ids p

/-- The largest number of steps of a walk from a first task. -/
def stepLimit (w : Walk) (t : Task) : Nat :=
  w.potential (w.reach t) .start [t]

variable {w : Walk} {ids : List ObjectId} {t u : Task} {p q : Progress}
  {done queue tasks : List Task}

theorem length_declared_le (w : Walk) (ids : List ObjectId) (schema : ObjectId)
    (source : Source) : (w.declared schema source).length ≤ w.width ids := by
  have hlength := (w.schemaView source).length_attrEntries_le schema
  have hnames : (w.schemaView source).names.length ≤ w.width ids := by
    unfold width
    cases source with
    | data =>
        rw [schemaView]
        omega
    | schema =>
        rw [schemaView]
        cases w.schemas with
        | none =>
            rw [Option.getD_none]
            omega
        | some v =>
            rw [Option.getD_some, Option.map_some, Option.getD_some]
            omega
  exact hlength.trans hnames

theorem length_childTasks_le {schema : ObjectId} {source : Source} {layout : Layout}
    (h : w.layout schema source = .ok layout) (objects : List ObjectId) :
    (w.childTasks source objects layout).length ≤ w.width ids := by
  have htwo : 2 ≤ w.width ids := Nat.le_add_left _ _
  cases layout with
  | entity attrs =>
      -- Only the attributes that are declared make an entity layout.
      have hattrs : attrs = w.declared schema source := by
        unfold layout Layout.ofAttrs at h
        split at h
        · split at h <;> cases h
        · split at h
          · cases h
            rfl
          · split at h <;> cases h
          · cases h
      rw [childTasks, List.length_map, hattrs]
      exact (List.length_filter_le _ _).trans (length_declared_le w ids schema source)
  | list items =>
      rw [childTasks, List.length_singleton]
      omega
  | dict keys values => exact htwo

theorem length_bySchema_le (hw : w.Closed ids) {objects : List ObjectId}
    {typed : List (ObjectId × ObjectId)} (h : w.withEmbedded objects = .ok typed) :
    (bySchema typed).length ≤ w.width ids := by
  have hsub : ((typed.filter fun t => !t.2.isNoFollow).map Prod.snd).eraseDups ⊆ ids := by
    intro schema hschema
    obtain ⟨pair, hpair, rfl⟩ := List.mem_map.1 (List.mem_eraseDups.1 hschema)
    exact embedded_mem hw ((withEmbedded_eq_ok h).2 pair (List.mem_filter.1 hpair).1)
  have hlength := (List.subperm_of_subset (nodup_eraseDups _) hsub).length_le
  rw [bySchema, List.length_map]
  unfold width
  omega

theorem length_tasks_le (hw : w.Closed ids) (h : w.step p u = .ok (q, tasks)) :
    tasks.length ≤ w.width ids := by
  cases steps_of_step h with
  | leaf => exact Nat.zero_le _
  | objects _ htyped => exact length_bySchema_le hw htyped
  | known _ _ hl _ _ htasks =>
      rcases htasks with rfl | ⟨rfl, -⟩
      · exact length_childTasks_le hl _
      · exact Nat.zero_le _
  | new _ _ hl => exact length_childTasks_le hl _

theorem potential_lt (hw : w.Closed ids) (hu : u.Within ids)
    (h : w.step p u = .ok (q, tasks)) :
    w.potential ids q (queue ++ tasks) < w.potential ids p (u :: queue) := by
  have hadv := advances_step hw hu h
  have hlength := length_tasks_le hw h
  unfold potential
  rw [List.length_append, List.length_cons]
  -- A step that adds no task takes one from the queue, any other one takes from what is left.
  by_cases hnil : tasks = []
  · have hleft := Nat.mul_le_mul_left (w.width ids) hadv.left_le
    rw [hnil, List.length_nil]
    omega
  · have hleft := Nat.mul_le_mul_left (w.width ids) (Nat.succ_le_of_lt (hadv.left_lt hnil))
    rw [Nat.mul_succ] at hleft
    omega

theorem Trace.within (h : w.Trace t p done queue) : ∀ u ∈ queue, u.Within (w.reach t) := by
  induction h with
  | start =>
      intro u hu
      rw [List.mem_singleton.1 hu]
      exact w.within_reach t
  | step _ hstep ih =>
      intro u hu
      rcases List.mem_append.1 hu with hu | hu
      · exact ih u (List.mem_cons_of_mem _ hu)
      · exact (advances_step (w.closed_reach t) (ih _ List.mem_cons_self) hstep).within u hu

/-- The steps that were made and those that can still be made are not more than the
limit. -/
theorem Trace.length_add_potential_le (h : w.Trace t p done queue) :
    done.length + w.potential (w.reach t) p queue ≤ w.stepLimit t := by
  induction h with
  | start => exact (Nat.zero_add _).le
  | @step p q u done queue tasks htrace hstep ih =>
      have hlt : w.potential (w.reach t) q (queue ++ tasks) <
          w.potential (w.reach t) p (u :: queue) :=
        potential_lt (w.closed_reach t) (htrace.within u List.mem_cons_self) hstep
      rw [List.length_cons]
      omega

/-! ### Turns of the loop -/

/-- One turn of the loop on what is done and what is queued. The later state comes
first, as for a relation along which one descends. -/
inductive Turn (w : Walk) : Progress × List Task → Progress × List Task → Prop
  | mk {p q : Progress} {u : Task} {queue tasks : List Task} :
      w.step p u = .ok (q, tasks) → Turn w (q, queue ++ tasks) (p, u :: queue)

theorem acc_turn (hw : w.Closed ids) (p : Progress) (queue : List Task)
    (hq : ∀ u ∈ queue, u.Within ids) : Acc w.Turn (p, queue) := by
  induction h : w.potential ids p queue using Nat.strong_induction_on generalizing p queue with
  | _ n ih =>
      subst h
      constructor
      intro s hturn
      cases hturn with
      | @mk _ q u queue tasks hstep =>
          have hu := hq u List.mem_cons_self
          refine ih _ (potential_lt hw hu hstep) q (queue ++ tasks) ?_ rfl
          intro v hv
          rcases List.mem_append.1 hv with hv | hv
          · exact hq v (List.mem_cons_of_mem u hv)
          · exact (advances_step hw hu hstep).within v hv

/-- From no state can the loop turn forever. -/
theorem wellFounded_turn (w : Walk) : WellFounded w.Turn := by
  constructor
  rintro ⟨p, queue⟩
  -- All tasks of the queue stay among the ids that are reached from one of them.
  let ids := w.data.mentioned ++ (w.schemas.map View.mentioned).getD [] ++ queue.flatMap w.reach
  have hw : w.Closed ids := by
    constructor
    · intro id hid
      simp [ids, hid]
    · intro v hv id hid
      simp [ids, hv, hid]
  refine acc_turn hw p queue fun u hu => ?_
  have hreach : w.reach u ⊆ ids := fun id hid =>
    List.mem_append_right _ (List.mem_flatMap.2 ⟨u, hu, hid⟩)
  have hwithin := w.within_reach u
  exact ⟨fun o ho => hreach (hwithin.1 ho), fun id hid => hreach (hwithin.2 id hid)⟩

/-- There is no further turn: the queue is empty, or its first task stops the walk. -/
inductive Halts (w : Walk) (p : Progress) : List Task → Except Error Store → Prop
  | empty : Halts w p [] (.ok p.result)
  | stopped {u : Task} {queue : List Task} {e : Error} :
      w.step p u = .error e → Halts w p (u :: queue) (.error e)

/-- The loop from a first task ends with an outcome: no turn can be taken forever, no
trace is longer than the limit, and one comes to the outcome. -/
structure Ends (w : Walk) (t : Task) (outcome : Except Error Store) : Prop where
  wellFounded : WellFounded w.Turn
  limited : ∀ p done queue, w.Trace t p done queue → done.length ≤ w.stepLimit t
  halts : ∃ p done queue, w.Trace t p done queue ∧ w.Halts p queue outcome

theorem ends_runTask (w : Walk) (t : Task) : w.Ends t (w.runTask t) where
  wellFounded := w.wellFounded_turn
  limited := fun _ _ _ h => (Nat.le_add_right _ _).trans h.length_add_potential_le
  halts := by
    cases h : w.runTask t with
    | ok r =>
        obtain ⟨p, done, htrace, rfl⟩ := exists_trace_of_drain_eq_ok h .start
        exact ⟨p, done, [], htrace, .empty⟩
    | error e =>
        obtain ⟨p, done, u, queue, htrace, hstep⟩ := exists_trace_of_drain_eq_error h .start
        exact ⟨p, done, u :: queue, htrace, .stopped hstep⟩

end Walk

/-- Extraction and shallow clone end on all views, also on cyclic ones, and their
outcome is the one at which their loop has come to an end. -/
theorem walks_end (data : View) (schemas : Option View) (objects : Column) (schema : Item)
    (a : Allocator) :
    ((Walk.deep data schemas).Ends
      ((Walk.deep data schemas).firstTask objects.roots schema)
      (extract data schemas objects schema)) ∧
    (Walk.firstLevel data schemas (Renaming.ofColumn objects a).1).Ends
      ((Walk.firstLevel data schemas (Renaming.ofColumn objects a).1).firstTask
        objects.roots schema)
      ((shallowClone data schemas objects schema a).1.map Prod.fst) := by
  constructor
  · exact Walk.ends_runTask _ _
  · have hrun : (shallowClone data schemas objects schema a).1.map Prod.fst =
        (Walk.firstLevel data schemas (Renaming.ofColumn objects a).1).run objects.roots
          schema := by
      rw [fst_shallowClone]
      cases (Walk.firstLevel data schemas (Renaming.ofColumn objects a).1).run objects.roots
        schema with
      | error e => rfl
      | ok store => rfl
    rw [hrun]
    exact Walk.ends_runTask _ _

end ObjectGraph
