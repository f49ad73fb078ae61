import ObjectGraph.Proofs.Walk.Seen

/-!
# The effect of one step

A step adds the facts of the marks of its task, and these marks do not fail. A step
that stops has met a mark that fails, or a schema that was copied before with another
value for one of its attributes.
-/

namespace ObjectGraph

namespace Walk

open Schema

variable {w : Walk} {t u : Task} {p q : Progress} {done tasks : List Task}

/-- What is known of a walk when it takes up a task: all is reached from the first task,
and the store says the facts of the tasks done. -/
structure Ready (w : Walk) (t : Task) (p : Progress) (done : List Task) (u : Task) : Prop where
  faithful : w.Faithful t
  seen : p.Seen done
  doneReaches : ∀ m, Marked done m → w.Reaches t m
  reaches : ∀ m, u.Has m → w.Reaches t m
  facts : ∀ f, p.result.Says f ↔ ∃ m, Marked done m ∧ w.Gives m f
  fine : ∀ m, Marked done m → ¬ w.Fails m

theorem Ready.holds (h : w.Ready t p done u) (f : Fact) (hf : p.result.Says f) : w.Holds t f := by
  obtain ⟨m, hm, hgives⟩ := (h.facts f).1 hf
  exact ⟨m, h.doneReaches m hm, hgives⟩

theorem Ready.plain (h : w.Ready t p done u) : ∀ o ∈ u.objects, o.isSchema = false := by
  intro o ho
  exact isSchema_of_reaches h.faithful.plain (h.reaches _ (has_object ho rfl))

/-- Facts that the store says already may be counted again. -/
theorem adds_of_says {s r : Store} {F G : Fact → Prop} (h : s.Adds r F)
    (hFG : ∀ f, F f → G f) (hG : ∀ f, G f → F f ∨ s.Says f) : s.Adds r G := by
  intro f
  rw [h f]
  constructor
  · rintro (hs | hf)
    · exact Or.inl hs
    · exact Or.inr (hFG f hf)
  · rintro (hs | hg)
    · exact Or.inl hs
    · exact (hG f hg).symm

theorem adds_nameSchemas (hw : w.Faithful t) {s : Store} {source : Source}
    {typed : List (ObjectId × ObjectId)} (hs : ∀ f, s.Says f → w.Holds t f)
    (hemb : ∀ x ∈ typed, w.embedded x.1 = .ok x.2)
    (hreach : ∀ x ∈ typed, w.Reaches t (.object x.1 (.dtype .object) source)) :
    s.Adds (w.nameSchemas s typed) fun f =>
      ∃ x ∈ typed, f = .attr (w.target x.1) schemaAttr (.objectId x.2) := by
  refine Store.adds_foldl ?_ ?_ hs
  · rintro x hx f rfl
    exact ⟨_, hreach x hx, .embedded (hemb x hx)⟩
  · intro s hs x hx
    refine Store.adds_setAttr fun v hv => ?_
    rw [hw.attr_eq ⟨_, _, hreach x hx⟩ (hs _ hv)]
    exact (embedded_eq_ok_iff.1 (hemb x hx)).1

theorem Ready.says_of_marked (hr : w.Ready t p done u) {m : Mark} {f : Fact}
    (hm : Marked done m) (hgives : w.Gives m f) : p.result.Says f :=
  (hr.facts f).2 ⟨m, hm, hgives⟩

/-- The facts of the objects of a task are those of the objects that are copied now and
those of the objects that were copied before. -/
theorem Ready.exists_fresh_or_says (hr : w.Ready t p done u) {id o : ObjectId} {f : Fact}
    (ho : o ∈ u.objects) (hgives : w.Gives (.object o (.objectId id) u.source) f) :
    (∃ o ∈ p.fresh (some id) u.source u.objects,
      w.Gives (.object o (.objectId id) u.source) f) ∨ p.result.Says f := by
  rcases mem_fresh_or_marked hr.seen (some id) ho with hfresh | hm
  · exact Or.inl ⟨o, hfresh, hgives⟩
  · exact Or.inr (hr.says_of_marked hm hgives)

theorem Ready.reaches_fresh (hr : w.Ready t p done u) {id : ObjectId}
    (hs : u.schema = .objectId id) : ∀ o ∈ p.fresh (some id) u.source u.objects,
      w.Reaches t (.object o (.objectId id) u.source) :=
  fun _ ho => hr.reaches _ (has_object (Progress.mem_fresh.1 ho).1 hs)

/-! ### The facts of a task -/

/-- What is typed with a NoFollow schema or a tag other than `OBJECT` gives nothing. -/
theorem not_gives_of_leaf (hid : ∀ id, u.schema = .objectId id → id.isNoFollow = true)
    (hobject : u.schema ≠ .dtype .object) {m : Mark} {f : Fact} (hm : u.Has m) :
    ¬ w.Gives m f := by
  have hexplicit : ∀ id, u.schema = .objectId id → ¬ id.isExplicit = true :=
    fun id hs => not_isExplicit_of_isNoFollow (hid id hs)
  intro hgives
  cases hgives with
  | declared he => exact hexplicit _ hm.1 he
  | embedded => exact hobject hm.2.1
  | attr he => exact hexplicit _ hm.2.1 he
  | list he => exact hexplicit _ hm.2.1 he
  | dict he => exact hexplicit _ hm.2.1 he

/-- Naming the schemas of the fresh objects adds the facts of a task typed `OBJECT`. -/
theorem Ready.adds_objects (hr : w.Ready t p done u) {typed : List (ObjectId × ObjectId)}
    (hs : u.schema = .dtype .object)
    (htyped : w.withEmbedded (p.fresh none u.source (u.objects.filter fun o => !o.isSchema)) =
      .ok typed) :
    p.result.Adds (w.nameSchemas p.result typed) fun f => ∃ m, u.Has m ∧ w.Gives m f := by
  have hmem := fun x (hx : x ∈ typed) => mem_of_mem_typed htyped hx
  have hhas : ∀ x ∈ typed, u.Has (.object x.1 (.dtype .object) u.source) := by
    intro x hx
    have ho := (Progress.mem_fresh.1 (hmem x hx).1).1
    exact has_object (List.mem_filter.1 ho).1 hs
  refine adds_of_says (adds_nameSchemas hr.faithful hr.holds (fun x hx => (hmem x hx).2)
    fun x hx => hr.reaches _ (hhas x hx)) ?_ ?_
  · rintro f ⟨x, hx, rfl⟩
    exact ⟨_, hhas x hx, .embedded (hmem x hx).2⟩
  · rintro f ⟨m, hm, hgives⟩
    cases m with
    | schema item source =>
        obtain ⟨rfl, rfl⟩ := hm
        rw [hs] at hgives
        cases hgives
    | object o item source =>
        obtain ⟨ho, rfl, rfl⟩ := hm
        rw [hs] at hgives
        have hplain : o ∈ u.objects.filter fun o => !o.isSchema :=
          List.mem_filter.2 ⟨ho, by simp [hr.plain o ho]⟩
        rcases mem_fresh_or_marked hr.seen none hplain with hfresh | hm
        · obtain ⟨schema, hx, hemb⟩ := exists_mem_typed htyped hfresh
          cases hgives with
          | embedded hemb' =>
              obtain rfl := Except.ok.inj (hemb.symm.trans hemb')
              exact Or.inl ⟨_, hx, rfl⟩
        · exact Or.inr (hr.says_of_marked hm hgives)

/-- Copying the fresh objects adds the facts of a task under a schema that was copied. -/
theorem Ready.adds_known (hr : w.Ready t p done u) {id : ObjectId} {layout : Layout} {r : Store}
    (hs : u.schema = .objectId id) (he : id.isExplicit = true)
    (hl : w.layout id u.source = .ok layout) (hk : (id, u.source) ∈ p.loaded)
    (hc : w.copyData (p.fresh (some id) u.source u.objects) p.result layout = .ok r) :
    p.result.Adds r fun f => ∃ m, u.Has m ∧ w.Gives m f := by
  refine adds_of_says (adds_copyData hr.faithful he hl (hr.reaches_fresh hs) hr.holds hc) ?_ ?_
  · rintro f ⟨o, ho, hgives⟩
    exact ⟨_, has_object (Progress.mem_fresh.1 ho).1 hs, hgives⟩
  · rintro f ⟨m, hm, hgives⟩
    cases m with
    | schema item source =>
        obtain ⟨rfl, rfl⟩ := hm
        rw [hs] at hgives
        exact Or.inr (hr.says_of_marked ((hr.seen.loaded _ _).1 hk).2 hgives)
    | object o item source =>
        obtain ⟨ho, rfl, rfl⟩ := hm
        rw [hs] at hgives
        exact hr.exists_fresh_or_says ho hgives

/-- Copying a schema and then the fresh objects adds the facts of a task under it. -/
theorem Ready.adds_new (hr : w.Ready t p done u) {id : ObjectId} {layout : Layout} {r r' : Store}
    (hs : u.schema = .objectId id) (he : id.isExplicit = true)
    (hl : w.layout id u.source = .ok layout)
    (hd : declare id p.result (w.declared id u.source) = .ok r)
    (hc : w.copyData (p.fresh (some id) u.source u.objects) r layout = .ok r') :
    p.result.Adds r' fun f => ∃ m, u.Has m ∧ w.Gives m f := by
  have hid := (isExplicit_iff.1 he).1
  have hschema : p.result.Adds r fun f =>
      ∃ a ∈ w.declared id u.source, f = .attr id a.1 a.2 :=
    adds_declare (fun a ha => (mem_declared.1 ha).2)
      (fun name value hv => hr.faithful.isPresent_of_says hr.holds hid hv) hd
  have hholds : ∀ f, r.Says f → w.Holds t f := by
    intro f hf
    rcases (hschema f).1 hf with hf | ⟨a, ha, rfl⟩
    · exact hr.holds f hf
    · exact ⟨_, hr.reaches _ (has_schema hs), .declared he ha⟩
  have hcopied := adds_copyData hr.faithful he hl (hr.reaches_fresh hs) hholds hc
  refine adds_of_says (hschema.trans hcopied) ?_ ?_
  · rintro f (⟨a, ha, rfl⟩ | ⟨o, ho, hgives⟩)
    · exact ⟨_, has_schema hs, .declared he ha⟩
    · exact ⟨_, has_object (Progress.mem_fresh.1 ho).1 hs, hgives⟩
  · rintro f ⟨m, hm, hgives⟩
    cases m with
    | schema item source =>
        obtain ⟨rfl, rfl⟩ := hm
        rw [hs] at hgives
        cases hgives with
        | declared _ ha => exact Or.inl (Or.inl ⟨_, ha, rfl⟩)
    | object o item source =>
        obtain ⟨ho, rfl, rfl⟩ := hm
        rw [hs] at hgives
        exact (hr.exists_fresh_or_says ho hgives).imp_left Or.inr

/-- A step adds the facts of its task. -/
theorem adds_of_steps (hr : w.Ready t p done u) (h : w.Steps p u q tasks) :
    p.result.Adds q.result fun f => ∃ m, u.Has m ∧ w.Gives m f := by
  cases h with
  | leaf hid hobject _ _ =>
      refine Store.Adds.refl fun f h => ?_
      obtain ⟨m, hm, hgives⟩ := h
      exact not_gives_of_leaf hid hobject hm hgives
  | objects hs htyped => exact hr.adds_objects hs htyped
  | known hs he hl hk hc _ => exact hr.adds_known hs he hl hk hc
  | new hs he hl _ hd hc => exact hr.adds_new hs he hl hd hc

theorem written_nameSchemas {s : Store} {typed : List (ObjectId × ObjectId)} (hs : s.Written) :
    (w.nameSchemas s typed).Written := by
  unfold nameSchemas
  induction typed generalizing s with
  | nil => exact hs
  | cons x typed ih => exact ih (hs.setAttr _ _ _)

theorem not_fails_of_layout {id : ObjectId} {layout : Layout} (hs : u.schema = .objectId id)
    (he : id.isExplicit = true) (hl : w.layout id u.source = .ok layout) {m : Mark}
    (hm : u.Has m) : ¬ w.Fails m := by
  intro hfails
  cases m with
  | schema item source =>
      obtain ⟨rfl, rfl⟩ := hm
      rw [hs] at hfails
      cases hfails with
      | unsupported hi => exact not_isSchema_of_isExplicit he hi
      | layout _ herr => cases hl.symm.trans herr
  | object o item source =>
      obtain ⟨-, rfl, rfl⟩ := hm
      rw [hs] at hfails
      cases hfails

/-- The marks of a task that was done do not fail. -/
theorem not_fails_of_steps (hr : w.Ready t p done u) (h : w.Steps p u q tasks) {m : Mark}
    (hm : u.Has m) : ¬ w.Fails m := by
  intro hfails
  cases h with
  | leaf hid hobject hany hschema =>
      cases hfails with
      | any => exact hany hm.1
      | unsupported hi =>
          rw [← hm.1, hschema] at hi
          cases hi
      | layout he => exact not_isExplicit_of_isNoFollow (hid _ hm.1) he
      | embedded => exact hobject hm.2.1
  | objects hs htyped =>
      cases m with
      | schema item source =>
          obtain ⟨rfl, rfl⟩ := hm
          rw [hs] at hfails
          cases hfails with
          | unsupported hi => cases hi
      | object o item source =>
          obtain ⟨ho, rfl, rfl⟩ := hm
          rw [hs] at hfails
          have hplain : o ∈ u.objects.filter fun o => !o.isSchema :=
            List.mem_filter.2 ⟨ho, by simp [hr.plain o ho]⟩
          rcases mem_fresh_or_marked hr.seen none hplain with hfresh | hm
          · obtain ⟨schema, -, hemb⟩ := exists_mem_typed htyped hfresh
            cases hfails with
            | embedded herr => cases hemb.symm.trans herr
          · exact hr.fine _ hm hfails
  | known hs he hl => exact not_fails_of_layout hs he hl hm hfails
  | new hs he hl => exact not_fails_of_layout hs he hl hm hfails

theorem written_of_steps (hp : p.result.Written) (h : w.Steps p u q tasks) :
    q.result.Written := by
  cases h with
  | leaf => exact hp
  | objects => exact written_nameSchemas hp
  | known _ _ _ _ hc => exact written_copyData hp hc
  | new _ _ _ _ hd hc => exact written_copyData (written_declare hp hd) hc

/-! ### Errors -/

/-- A schema was copied before with another value for one of its attributes. -/
def Clashes (w : Walk) (s : Store) (u : Task) : Prop :=
  ∃ id name value v, u.schema = .objectId id ∧ id.isExplicit = true ∧
    (name, value) ∈ w.declared id u.source ∧ s.attr? id name = some v ∧ v ≠ value

/-- A step stops on a mark that fails, or on a schema that was copied before. -/
theorem exists_of_step_eq_error (hkind : ∀ o, (w.target o).kind = o.kind)
    (hkeys : w.data.ValidKeys) {e : Error} (h : w.step p u = .error e) :
    (∃ m, u.Has m ∧ w.Fails m) ∨ w.Clashes p.result u := by
  cases stops_of_step hkind hkeys h with
  | any hs => exact Or.inl ⟨_, has_schema hs, .any⟩
  | unsupported hs => exact Or.inl ⟨_, has_schema rfl, .unsupported hs⟩
  | embedded hs ho hemb => exact Or.inl ⟨_, has_object ho hs, .embedded hemb⟩
  | layout hs he hl => exact Or.inl ⟨_, has_schema hs, .layout he hl⟩
  | conflict hs he hmem hv hne => exact Or.inr ⟨_, _, _, _, hs, he, hmem, hv, hne⟩

end Walk

end ObjectGraph
