import ObjectGraph.Proofs.Walk.Step

/-!
# What a walk has seen

The visits and the copied schemas of a walk are exactly the marks of the tasks it has
done, `Seen`. So a mark that a step passes over belongs to a task done before, and the
tasks that follow from a step are what its new marks lead to, but for schemas that are
declared and not followed.
-/

namespace ObjectGraph

/-- The mark that a visit stands for. -/
def Visit.mark (v : Visit) : Mark :=
  .object v.object (match v.schema with | none => .dtype .object | some id => .objectId id)
    v.source

/-- A schema that is declared but not followed. -/
def Mark.Idle : Mark → Prop
  | .schema item _ => Schema.isNoFollow item = true
  | .object _ _ _ => False

/-- The visits and the copied schemas are the marks of the tasks done. -/
structure Progress.Seen (p : Progress) (done : List Task) : Prop where
  visits : ∀ v, v ∈ p.visits ↔
    (∀ id, v.schema = some id → id.isExplicit = true) ∧ Marked done v.mark
  loaded : ∀ id source, (id, source) ∈ p.loaded ↔
    id.isExplicit = true ∧ Marked done (.schema (.objectId id) source)

namespace Walk

open Schema

variable {w : Walk} {t u : Task} {p q : Progress} {done tasks : List Task}

theorem seen_start : Progress.start.Seen [] := by
  constructor <;> simp [Progress.start, Marked]

theorem mem_visitsWith_fresh {schema : Option ObjectId} {source : Source}
    {objects : List ObjectId} {v : Visit} :
    v ∈ p.visitsWith schema source (p.fresh schema source objects) ↔
      v ∈ p.visits ∨ v.object ∈ objects ∧ v.schema = schema ∧ v.source = source := by
  simp only [Progress.visitsWith, List.mem_append, List.mem_map, Progress.mem_fresh]
  constructor
  · rintro (⟨o, ⟨ho, -⟩, rfl⟩ | hv)
    · exact Or.inr ⟨ho, rfl, rfl⟩
    · exact Or.inl hv
  · rintro (hv | ⟨ho, rfl, rfl⟩)
    · exact Or.inr hv
    · by_cases hv : v ∈ p.visits
      · exact Or.inr hv
      · exact Or.inl ⟨v.object, ⟨ho, hv⟩, rfl⟩

theorem not_isExplicit_of_isNoFollow {id : ObjectId} (h : id.isNoFollow = true) :
    ¬ id.isExplicit = true := by
  intro he
  rw [(isExplicit_iff.1 he).2] at h
  cases h

theorem Seen.visits_cons (hseen : p.Seen done) {v : Visit} :
    (∀ id, v.schema = some id → id.isExplicit = true) ∧ Marked (u :: done) v.mark ↔
      v ∈ p.visits ∨ (∀ id, v.schema = some id → id.isExplicit = true) ∧ u.Has v.mark := by
  rw [marked_cons, hseen.visits]
  tauto

theorem Seen.loaded_cons (hseen : p.Seen done) {id : ObjectId} {source : Source} :
    id.isExplicit = true ∧ Marked (u :: done) (.schema (.objectId id) source) ↔
      (id, source) ∈ p.loaded ∨
        id.isExplicit = true ∧ u.schema = .objectId id ∧ u.source = source := by
  rw [marked_cons, hseen.loaded]
  simp only [Task.Has]
  tauto

/-- The objects of a task that visits count under a schema. -/
theorem visit_objects_iff (hs : u.schema = .dtype .object)
    (hplain : ∀ o ∈ u.objects, o.isSchema = false) {v : Visit} :
    (∀ id, v.schema = some id → id.isExplicit = true) ∧ u.Has v.mark ↔
      v.object ∈ u.objects.filter (fun o => !o.isSchema) ∧ v.schema = none ∧
        v.source = u.source := by
  obtain ⟨o, schema, source⟩ := v
  cases schema with
  | none =>
      simp only [Visit.mark, Task.Has, List.mem_filter, reduceCtorEq, false_implies,
        implies_true, true_and]
      constructor
      · rintro ⟨ho, -, hsource⟩
        exact ⟨⟨ho, by simp [hplain o ho]⟩, hsource.symm⟩
      · rintro ⟨⟨ho, -⟩, hsource⟩
        exact ⟨ho, hs, hsource.symm⟩
  | some id => simp [Visit.mark, Task.Has, hs]

theorem visit_explicit_iff {id : ObjectId} (hs : u.schema = .objectId id)
    (he : id.isExplicit = true) {v : Visit} :
    (∀ id, v.schema = some id → id.isExplicit = true) ∧ u.Has v.mark ↔
      v.object ∈ u.objects ∧ v.schema = some id ∧ v.source = u.source := by
  obtain ⟨o, schema, source⟩ := v
  cases schema with
  | none => simp [Visit.mark, Task.Has, hs]
  | some other =>
      simp only [Visit.mark, Task.Has, hs, Option.some.injEq, Item.objectId.injEq]
      constructor
      · rintro ⟨-, ho, rfl, rfl⟩
        exact ⟨ho, rfl, rfl⟩
      · rintro ⟨ho, rfl, rfl⟩
        exact ⟨fun id hid => hid ▸ he, ho, rfl, rfl⟩

/-- After a step, what is seen is what was seen and the marks of the task. -/
theorem seen_of_steps (hplain : ∀ o ∈ u.objects, o.isSchema = false) (hseen : p.Seen done)
    (h : w.Steps p u q tasks) : q.Seen (u :: done) := by
  cases h with
  | leaf hid hobject hany _ =>
      constructor
      · intro v
        rw [Seen.visits_cons hseen]
        refine ⟨Or.inl, ?_⟩
        rintro (hv | ⟨he, hhas⟩)
        · exact hv
        · obtain ⟨o, schema, source⟩ := v
          cases schema with
          | none => exact absurd hhas.2.1 hobject
          | some id =>
              exact absurd (he id rfl) (not_isExplicit_of_isNoFollow (hid id hhas.2.1))
      · intro id source
        rw [Seen.loaded_cons hseen]
        refine ⟨Or.inl, ?_⟩
        rintro (hv | ⟨he, hs, -⟩)
        · exact hv
        · exact absurd he (not_isExplicit_of_isNoFollow (hid id hs))
  | objects hs _ =>
      constructor
      · intro v
        rw [Seen.visits_cons hseen, visit_objects_iff hs hplain]
        exact mem_visitsWith_fresh
      · intro id source
        rw [Seen.loaded_cons hseen]
        simp [hs]
  | @known id layout r _ hs he _ hk =>
      constructor
      · intro v
        rw [Seen.visits_cons hseen, visit_explicit_iff hs he]
        exact mem_visitsWith_fresh
      · intro other source
        rw [Seen.loaded_cons hseen]
        refine ⟨Or.inl, ?_⟩
        rintro (hv | ⟨-, hs', rfl⟩)
        · exact hv
        · obtain rfl := Item.objectId.inj (hs.symm.trans hs')
          exact hk
  | @new id layout r r' hs he =>
      constructor
      · intro v
        rw [Seen.visits_cons hseen, visit_explicit_iff hs he]
        exact mem_visitsWith_fresh
      · intro other source
        rw [Seen.loaded_cons hseen, List.mem_cons, hs]
        constructor
        · rintro (heq | hv)
          · obtain ⟨rfl, rfl⟩ := Prod.mk.inj heq
            exact Or.inr ⟨he, rfl, rfl⟩
          · exact Or.inl hv
        · rintro (hv | ⟨-, heq, rfl⟩)
          · exact Or.inr hv
          · exact Or.inl (by rw [Item.objectId.inj heq])

/-! ### Marks -/

theorem exists_mem_typed {objects : List ObjectId} {typed : List (ObjectId × ObjectId)}
    (h : w.withEmbedded objects = .ok typed) {o : ObjectId} (ho : o ∈ objects) :
    ∃ schema, (o, schema) ∈ typed ∧ w.embedded o = .ok schema := by
  obtain ⟨hfst, hall⟩ := withEmbedded_eq_ok h
  obtain ⟨x, hx, rfl⟩ := List.mem_map.1 (hfst ▸ ho)
  exact ⟨x.2, hx, hall x hx⟩

theorem mem_of_mem_typed {objects : List ObjectId} {typed : List (ObjectId × ObjectId)}
    (h : w.withEmbedded objects = .ok typed) {x : ObjectId × ObjectId} (hx : x ∈ typed) :
    x.1 ∈ objects ∧ w.embedded x.1 = .ok x.2 := by
  obtain ⟨hfst, hall⟩ := withEmbedded_eq_ok h
  exact ⟨hfst ▸ List.mem_map.2 ⟨x, hx, rfl⟩, hall x hx⟩

theorem has_schema {item : Item} (hs : u.schema = item) : u.Has (.schema item u.source) :=
  ⟨hs, rfl⟩

theorem has_object {o : ObjectId} {item : Item} (ho : o ∈ u.objects) (hs : u.schema = item) :
    u.Has (.object o item u.source) :=
  ⟨ho, hs, rfl⟩

/-- An object that a step passes over was done before. -/
theorem mem_fresh_or_marked (hseen : p.Seen done) (schema : Option ObjectId) {source : Source}
    {objects : List ObjectId} {o : ObjectId} (ho : o ∈ objects) :
    o ∈ p.fresh schema source objects ∨ Marked done (Visit.mark ⟨o, schema, source⟩) := by
  by_cases hv : ⟨o, schema, source⟩ ∈ p.visits
  · exact Or.inr ((hseen.visits _).1 hv).2
  · exact Or.inl (Progress.mem_fresh.2 ⟨ho, hv⟩)

/-- The marks of the tasks that follow from a step are led to by marks of its task. -/
theorem exists_leads_of_steps (h : w.Steps p u q tasks) {n : Mark} (hn : Marked tasks n) :
    ∃ m, u.Has m ∧ w.Leads m n := by
  cases h with
  | leaf =>
      obtain ⟨t, ht, -⟩ := hn
      cases ht
  | objects hs htyped =>
      obtain ⟨x, hx, hfollow, hn⟩ := marked_bySchema_iff.1 hn
      obtain ⟨ho, hemb⟩ := mem_of_mem_typed htyped hx
      have ho := (List.mem_filter.1 (Progress.mem_fresh.1 ho).1).1
      rcases hn with rfl | rfl
      · exact ⟨_, has_object ho hs, .embedded hemb hfollow⟩
      · exact ⟨_, has_object ho hs, .embeddedObject hemb hfollow⟩
  | known hs he hl _ _ htasks =>
      rcases htasks with rfl | ⟨rfl, -⟩
      · rcases exists_of_marked_childTasks he hl hn with ⟨item, hitem, rfl⟩ | ⟨o, ho, hlead⟩
        · exact ⟨_, has_schema hs, .declared he hl hitem⟩
        · exact ⟨_, has_object (Progress.mem_fresh.1 ho).1 hs, hlead⟩
      · obtain ⟨t, ht, -⟩ := hn
        cases ht
  | new hs he hl =>
      rcases exists_of_marked_childTasks he hl hn with ⟨item, hitem, rfl⟩ | ⟨o, ho, hlead⟩
      · exact ⟨_, has_schema hs, .declared he hl hitem⟩
      · exact ⟨_, has_object (Progress.mem_fresh.1 ho).1 hs, hlead⟩

theorem marked_of_declared {id : ObjectId} {source : Source} {layout : Layout} {n : Mark}
    (objects : List ObjectId) (hl : w.layout id source = .ok layout)
    (h : w.Leads (.schema (.objectId id) source) n) :
    Marked (w.childTasks source objects layout) n ∨ n.Idle := by
  cases h with
  | @declared _ _ layout' item _ hl' hitem =>
      obtain rfl := Except.ok.inj (hl.symm.trans hl')
      cases hn : isNoFollow item with
      | true => exact Or.inr hn
      | false => exact Or.inl (marked_childTasks_schema objects hitem hn)

/-- What an object typed `OBJECT` leads to has a task under the schema that it names. -/
theorem marked_bySchema_of_leads {typed : List (ObjectId × ObjectId)} {o schema : ObjectId}
    {source : Source} {n : Mark} (hx : (o, schema) ∈ typed) (hemb : w.embedded o = .ok schema)
    (hlead : w.Leads (.object o (.dtype .object) source) n) : Marked (bySchema typed) n := by
  refine marked_bySchema_iff.2 ⟨_, hx, ?_⟩
  cases hlead with
  | embedded hemb' hfollow =>
      obtain rfl := Except.ok.inj (hemb.symm.trans hemb')
      exact ⟨hfollow, Or.inl rfl⟩
  | embeddedObject hemb' hfollow =>
      obtain rfl := Except.ok.inj (hemb.symm.trans hemb')
      exact ⟨hfollow, Or.inr rfl⟩

/-- What the new marks of a task lead to has a task, unless nothing follows from it. -/
theorem marked_of_leads_of_steps (hseen : p.Seen done)
    (hplain : ∀ o ∈ u.objects, o.isSchema = false) (h : w.Steps p u q tasks) {m n : Mark}
    (hm : u.Has m) (hnew : ¬ Marked done m) (hlead : w.Leads m n) :
    Marked tasks n ∨ n.Idle := by
  cases h with
  | leaf hid hobject _ _ =>
      have hexplicit : ∀ id, u.schema = .objectId id → ¬ id.isExplicit = true :=
        fun id hs => not_isExplicit_of_isNoFollow (hid id hs)
      cases hlead with
      | declared he => exact absurd he (hexplicit _ hm.1)
      | embedded => exact absurd hm.2.1 hobject
      | embeddedObject => exact absurd hm.2.1 hobject
      | attr _ he => exact absurd he (hexplicit _ hm.2.1)
      | item _ he => exact absurd he (hexplicit _ hm.2.1)
      | key _ he => exact absurd he (hexplicit _ hm.2.1)
      | value _ he => exact absurd he (hexplicit _ hm.2.1)
  | objects hs htyped =>
      cases m with
      | schema item source =>
          obtain ⟨rfl, rfl⟩ := hm
          rw [hs] at hlead
          cases hlead
      | object o item source =>
          obtain ⟨ho, rfl, rfl⟩ := hm
          rw [hs] at hlead hnew
          have hplain : o ∈ u.objects.filter fun o => !o.isSchema :=
            List.mem_filter.2 ⟨ho, by simp [hplain o ho]⟩
          have hfresh := (mem_fresh_or_marked hseen none hplain).resolve_right hnew
          obtain ⟨schema, hx, hemb⟩ := exists_mem_typed htyped hfresh
          exact Or.inl (marked_bySchema_of_leads hx hemb hlead)
  | @known id layout r _ hs he hl hk _ htasks =>
      cases m with
      | schema item source =>
          -- A layout that was loaded is that of a schema done before.
          obtain ⟨rfl, rfl⟩ := hm
          rw [hs] at hnew
          exact absurd ((hseen.loaded _ _).1 hk).2 hnew
      | object o item source =>
          obtain ⟨ho, rfl, rfl⟩ := hm
          rw [hs] at hlead hnew
          have hfresh := (mem_fresh_or_marked hseen (some id) ho).resolve_right hnew
          rcases htasks with rfl | ⟨-, hnil⟩
          · exact Or.inl (marked_childTasks_object hl hfresh hlead)
          · rw [hnil] at hfresh
            cases hfresh
  | @new id layout r r' hs he hl =>
      cases m with
      | schema item source =>
          obtain ⟨rfl, rfl⟩ := hm
          rw [hs] at hlead
          exact marked_of_declared _ hl hlead
      | object o item source =>
          obtain ⟨ho, rfl, rfl⟩ := hm
          rw [hs] at hlead hnew
          have hfresh := (mem_fresh_or_marked hseen (some id) ho).resolve_right hnew
          exact Or.inl (marked_childTasks_object hl hfresh hlead)

end Walk

end ObjectGraph
