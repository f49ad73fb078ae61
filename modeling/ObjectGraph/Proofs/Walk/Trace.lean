import ObjectGraph.Proofs.Walk.Effect

/-!
# Traces of a walk

A trace of a walk keeps the tasks that it has done beside those in its queue. Every
mark of a trace is reached, and what the marks of the tasks done lead to is a mark of
the trace, unless it is idle. So when the queue is empty the tasks done hold all that
is reached, and `run` is characterized without its queue: it succeeds with a store
that says exactly the facts of the marks reached, or a mark is reached that fails, or
a schema is reached from two sources that declare an attribute differently.
-/

namespace ObjectGraph

namespace Walk

/-- The tasks done by a walk, the last one first, and the tasks in its queue. -/
inductive Trace (w : Walk) (t : Task) : Progress → List Task → List Task → Prop
  | start : Trace w t .start [] [t]
  | step {p q : Progress} {u : Task} {done queue tasks : List Task} :
      Trace w t p done (u :: queue) → w.step p u = .ok (q, tasks) →
      Trace w t q (u :: done) (queue ++ tasks)

/-- What every trace keeps. -/
structure Traced (w : Walk) (t : Task) (p : Progress) (done queue : List Task) : Prop where
  seen : p.Seen done
  written : p.result.Written
  begins : ∀ m, t.Has m → Marked (done ++ queue) m
  reaches : ∀ m, Marked (done ++ queue) m → w.Reaches t m
  closed : ∀ m n, Marked done m → w.Leads m n → Marked (done ++ queue) n ∨ n.Idle
  facts : ∀ f, p.result.Says f ↔ ∃ m, Marked done m ∧ w.Gives m f
  fine : ∀ m, Marked done m → ¬ w.Fails m

/-- A schema is reached from both sources, and they declare an attribute of it
differently. -/
def Conflict (w : Walk) (t : Task) : Prop :=
  ∃ id name value value', id.isExplicit = true ∧
    w.Reaches t (.schema (.objectId id) .data) ∧
    w.Reaches t (.schema (.objectId id) .schema) ∧
    (name, value) ∈ w.declared id .data ∧ (name, value') ∈ w.declared id .schema ∧
    value ≠ value'

variable {w : Walk} {t u : Task} {p q : Progress} {done queue tasks : List Task}

theorem Traced.ready (h : w.Traced t p done (u :: queue)) (hw : w.Faithful t) :
    w.Ready t p done u where
  faithful := hw
  seen := h.seen
  doneReaches := fun m hm => h.reaches m (marked_append.2 (Or.inl hm))
  reaches := fun m hm => h.reaches m (marked_append.2 (Or.inr (marked_cons.2 (Or.inl hm))))
  facts := h.facts
  fine := h.fine

theorem traced_start (w : Walk) (t : Task) : w.Traced t .start [] [t] where
  seen := seen_start
  written := .empty
  begins := fun m hm => ⟨t, List.mem_singleton_self t, hm⟩
  reaches := by
    rintro m ⟨u, hu, hm⟩
    obtain rfl := List.mem_singleton.1 hu
    exact .start hm
  closed := by
    rintro m n ⟨u, hu, -⟩
    cases hu
  facts := by
    intro f
    constructor
    · intro hf
      exact absurd hf (Store.not_says_empty f)
    · rintro ⟨m, ⟨u, hu, -⟩, -⟩
      cases hu
  fine := by
    rintro m ⟨u, hu, -⟩
    cases hu

theorem marked_step {m : Mark} :
    Marked (u :: done ++ (queue ++ tasks)) m ↔
      Marked (done ++ u :: queue) m ∨ Marked tasks m := by
  simp only [List.cons_append, marked_cons, marked_append]
  tauto

theorem traced_step (hw : w.Faithful t) (h : w.Traced t p done (u :: queue))
    (hstep : w.step p u = .ok (q, tasks)) : w.Traced t q (u :: done) (queue ++ tasks) := by
  have hready := h.ready hw
  have hsteps := steps_of_step hstep
  have hadds := adds_of_steps hready hsteps
  constructor
  case seen => exact seen_of_steps hready.plain h.seen hsteps
  case written => exact written_of_steps h.written hsteps
  case begins =>
    intro m hm
    exact marked_step.2 (Or.inl (h.begins m hm))
  case reaches =>
    intro m hm
    rcases marked_step.1 hm with hm | hm
    · exact h.reaches m hm
    · obtain ⟨n, hn, hlead⟩ := exists_leads_of_steps hsteps hm
      exact .step (hready.reaches n hn) hlead
  case closed =>
    intro m n hm hlead
    -- What is new in this task leads to tasks of the step, the rest was closed before.
    by_cases hold : Marked done m
    · rcases h.closed m n hold hlead with hn | hidle
      · exact Or.inl (marked_step.2 (Or.inl hn))
      · exact Or.inr hidle
    · have hm := (marked_cons.1 hm).resolve_right hold
      rcases marked_of_leads_of_steps h.seen hready.plain hsteps hm hold hlead with hn | hidle
      · exact Or.inl (marked_step.2 (Or.inr hn))
      · exact Or.inr hidle
  case facts =>
    intro f
    rw [hadds f, h.facts f]
    simp only [marked_cons, or_and_right, exists_or]
    exact or_comm
  case fine =>
    intro m hm
    rcases marked_cons.1 hm with hm | hm
    · exact not_fails_of_steps hready hsteps hm
    · exact h.fine m hm

theorem Trace.traced (hw : w.Faithful t) (h : w.Trace t p done queue) :
    w.Traced t p done queue := by
  induction h with
  | start => exact traced_start w t
  | step _ hstep ih => exact traced_step hw ih hstep

/-! ### Runs -/

theorem exists_trace_of_drain_eq_ok {ids : List ObjectId} {hids : w.Closed ids}
    {hq : ∀ u ∈ queue, u.Within ids} {r : Store} (h : w.drain ids hids p queue hq = .ok r)
    (htrace : w.Trace t p done queue) :
    ∃ q done', w.Trace t q done' [] ∧ q.result = r := by
  fun_induction drain w ids hids p queue hq generalizing done with
  | case1 p hq => exact ⟨p, done, htrace, Except.ok.inj h⟩
  | case2 => cases h
  | case3 p u queue hq q tasks hstep hadv hq' ih => exact ih h (.step htrace hstep)

theorem exists_trace_of_drain_eq_error {ids : List ObjectId} {hids : w.Closed ids}
    {hq : ∀ u ∈ queue, u.Within ids} {e : Error} (h : w.drain ids hids p queue hq = .error e)
    (htrace : w.Trace t p done queue) :
    ∃ q done' u queue', w.Trace t q done' (u :: queue') ∧ w.step q u = .error e := by
  fun_induction drain w ids hids p queue hq generalizing done with
  | case1 => cases h
  | case2 p u queue hq e' hstep =>
      obtain rfl := Except.error.inj h
      exact ⟨p, done, u, queue, htrace, hstep⟩
  | case3 p u queue hq q tasks hstep hadv hq' ih => exact ih h (.step htrace hstep)

theorem exists_drain_cons {ids : List ObjectId} {hids : w.Closed ids}
    {hq : ∀ v ∈ u :: queue, v.Within ids} (h : w.step p u = .ok (q, tasks)) :
    ∃ hq', w.drain ids hids p (u :: queue) hq = w.drain ids hids q (queue ++ tasks) hq' := by
  have hadv := advances_step hids (hq u List.mem_cons_self) h
  refine ⟨fun v hv => (List.mem_append.1 hv).elim
    (fun hv => hq v (List.mem_cons_of_mem u hv)) (hadv.within v), ?_⟩
  rw [drain]
  split
  · rename_i e he
    cases h.symm.trans he
  · rename_i q' tasks' hstep
    obtain ⟨rfl, rfl⟩ := Prod.mk.inj (Except.ok.inj (h.symm.trans hstep))
    rfl

theorem drain_cons_of_error {ids : List ObjectId} {hids : w.Closed ids}
    {hq : ∀ v ∈ u :: queue, v.Within ids} {e : Error} (h : w.step p u = .error e) :
    w.drain ids hids p (u :: queue) hq = .error e := by
  rw [drain]
  split
  · rename_i e' he
    cases h.symm.trans he
    rfl
  · rename_i he
    cases h.symm.trans he

/-- From every state of its trace a walk goes on to the end of its run. -/
theorem Trace.exists_runTask_eq_drain (h : w.Trace t p done queue) :
    ∃ hq, w.runTask t = w.drain (w.reach t) (w.closed_reach t) p queue hq := by
  induction h with
  | start => exact ⟨fun u hu => List.mem_singleton.1 hu ▸ w.within_reach t, rfl⟩
  | step _ hstep ih =>
      obtain ⟨hq, ih⟩ := ih
      obtain ⟨hq', hdrain⟩ := @exists_drain_cons _ _ _ _ _ _ _ _ hq hstep
      exact ⟨hq', ih.trans hdrain⟩

theorem Trace.runTask_eq_ok (h : w.Trace t p done []) : w.runTask t = .ok p.result := by
  obtain ⟨hq, hrun⟩ := h.exists_runTask_eq_drain
  rw [hrun, drain]

theorem Trace.runTask_eq_error (h : w.Trace t p done (u :: queue)) {e : Error}
    (hstep : w.step p u = .error e) : w.runTask t = .error e := by
  obtain ⟨hq, hrun⟩ := h.exists_runTask_eq_drain
  rw [hrun, drain_cons_of_error hstep]

/-! ### Idle marks -/

theorem not_isExplicit_of_idle {id : ObjectId} {source : Source}
    (h : (Mark.schema (.objectId id) source).Idle) : ¬ id.isExplicit = true :=
  not_isExplicit_of_isNoFollow h

theorem not_leads_of_idle {m n : Mark} (h : m.Idle) : ¬ w.Leads m n := by
  intro hlead
  cases hlead with
  | declared he => exact not_isExplicit_of_idle h he
  | _ => exact h

theorem not_gives_of_idle {m : Mark} {f : Fact} (h : m.Idle) : ¬ w.Gives m f := by
  intro hgives
  cases hgives with
  | declared he => exact not_isExplicit_of_idle h he
  | _ => exact h

theorem not_fails_of_idle {m : Mark} (h : m.Idle) : ¬ w.Fails m := by
  intro hfails
  cases hfails with
  | any => cases h
  | @unsupported item source hi =>
      cases item with
      | objectId id =>
          have hschema := ObjectId.isSchema_of_isNoFollow (show id.isNoFollow = true from h)
          rw [show id.isSchema = false from hi] at hschema
          cases hschema
      | _ => cases h
  | layout he => exact not_isExplicit_of_idle h he
  | embedded => exact h

/-- When the queue is empty, all that is reached is done. -/
theorem Traced.marked_of_reaches (h : w.Traced t p done []) {m : Mark}
    (hm : w.Reaches t m) : Marked done m ∨ m.Idle := by
  induction hm with
  | start hm =>
      have := h.begins _ hm
      rw [List.append_nil] at this
      exact Or.inl this
  | step _ hlead ih =>
      rcases ih with hm | hidle
      · have := h.closed _ _ hm hlead
        rwa [List.append_nil] at this
      · exact absurd hlead (not_leads_of_idle hidle)

theorem exists_traced_of_runTask_eq_ok (hw : w.Faithful t) {r : Store}
    (h : w.runTask t = .ok r) : ∃ p done, w.Traced t p done [] ∧ p.result = r := by
  obtain ⟨p, done, htrace, rfl⟩ := exists_trace_of_drain_eq_ok h .start
  exact ⟨p, done, htrace.traced hw, rfl⟩

/-- The store of a run says exactly the facts of what is reached. -/
theorem says_iff_of_runTask_eq_ok (hw : w.Faithful t) {r : Store} (h : w.runTask t = .ok r)
    (f : Fact) : r.Says f ↔ w.Holds t f := by
  obtain ⟨p, done, htraced, rfl⟩ := exists_traced_of_runTask_eq_ok hw h
  rw [htraced.facts f]
  constructor
  · rintro ⟨m, hm, hgives⟩
    exact ⟨m, htraced.reaches m (marked_append.2 (Or.inl hm)), hgives⟩
  · rintro ⟨m, hm, hgives⟩
    rcases htraced.marked_of_reaches hm with hm | hidle
    · exact ⟨m, hm, hgives⟩
    · exact absurd hgives (not_gives_of_idle hidle)

theorem written_of_runTask_eq_ok (hw : w.Faithful t) {r : Store} (h : w.runTask t = .ok r) :
    r.Written := by
  obtain ⟨p, done, htraced, rfl⟩ := exists_traced_of_runTask_eq_ok hw h
  exact htraced.written

theorem not_fails_of_runTask_eq_ok (hw : w.Faithful t) {r : Store} (h : w.runTask t = .ok r)
    {m : Mark} (hm : w.Reaches t m) : ¬ w.Fails m := by
  obtain ⟨p, done, htraced, rfl⟩ := exists_traced_of_runTask_eq_ok hw h
  rcases htraced.marked_of_reaches hm with hm | hidle
  · exact htraced.fine m hm
  · exact not_fails_of_idle hidle

theorem not_conflict_of_runTask_eq_ok (hw : w.Faithful t) {r : Store}
    (h : w.runTask t = .ok r) : ¬ w.Conflict t := by
  rintro ⟨id, name, value, value', he, hm, hm', hv, hv', hne⟩
  have hs := (says_iff_of_runTask_eq_ok hw h (.attr id name value)).2 ⟨_, hm, .declared he hv⟩
  have hs' := (says_iff_of_runTask_eq_ok hw h (.attr id name value')).2 ⟨_, hm', .declared he hv'⟩
  exact hne (Option.some.inj (hs.symm.trans hs'))

/-- Sources that differ are the two sources. -/
theorem conflict_of_ne {id : ObjectId} {name : String} {source source' : Source}
    {value value' : Item} (he : id.isExplicit = true)
    (hm : w.Reaches t (.schema (.objectId id) source))
    (hm' : w.Reaches t (.schema (.objectId id) source'))
    (hv : (name, value) ∈ w.declared id source) (hv' : (name, value') ∈ w.declared id source')
    (hne : value ≠ value') : w.Conflict t := by
  cases source with
  | data =>
      cases source' with
      | data => exact absurd (declared_inj hv hv') hne
      | schema => exact ⟨id, name, value, value', he, hm, hm', hv, hv', hne⟩
  | schema =>
      cases source' with
      | data => exact ⟨id, name, value', value, he, hm', hm, hv', hv, hne.symm⟩
      | schema => exact absurd (declared_inj hv hv') hne

/-- One source declares one value, so another value that was copied before is from the
other source. -/
theorem Ready.conflict (h : w.Ready t p done u) {id : ObjectId} {name : String} {value v : Item}
    (hs : u.schema = .objectId id) (he : id.isExplicit = true)
    (hmem : (name, value) ∈ w.declared id u.source) (hv : p.result.attr? id name = some v)
    (hne : v ≠ value) : w.Conflict t := by
  obtain ⟨source, hreach, hmem'⟩ := h.faithful.declared_of_holds (isExplicit_iff.1 he).1
    (h.holds (.attr id name v) hv)
  exact conflict_of_ne he hreach (h.reaches _ (has_schema hs)) hmem' hmem hne

/-- A run stops only on something that is reached. -/
theorem exists_fails_of_runTask_eq_error (hw : w.Faithful t) (hkeys : w.data.ValidKeys)
    {e : Error} (h : w.runTask t = .error e) :
    (∃ m, w.Reaches t m ∧ w.Fails m) ∨ w.Conflict t := by
  obtain ⟨p, done, u, queue, htrace, hstep⟩ := exists_trace_of_drain_eq_error h .start
  have hready := (htrace.traced hw).ready hw
  rcases exists_of_step_eq_error hw.kind hkeys hstep with ⟨m, hm, hfails⟩ | hclash
  · exact Or.inl ⟨m, hready.reaches m hm, hfails⟩
  · obtain ⟨id, name, value, v, hs, he, hmem, hv, hne⟩ := hclash
    exact Or.inr (hready.conflict hs he hmem hv hne)

/-- A run fails exactly when a mark is reached that fails, or a schema from two sources
that differ. -/
theorem runTask_eq_error_iff (hw : w.Faithful t) (hkeys : w.data.ValidKeys) :
    (∃ e, w.runTask t = .error e) ↔
      (∃ m, w.Reaches t m ∧ w.Fails m) ∨ w.Conflict t := by
  constructor
  · rintro ⟨e, h⟩
    exact exists_fails_of_runTask_eq_error hw hkeys h
  · intro hbad
    cases h : w.runTask t with
    | error e => exact ⟨e, rfl⟩
    | ok r =>
        rcases hbad with ⟨m, hm, hfails⟩ | hconflict
        · exact absurd hfails (not_fails_of_runTask_eq_ok hw h hm)
        · exact absurd hconflict (not_conflict_of_runTask_eq_ok hw h)

end Walk

end ObjectGraph
