import ObjectGraph.Measure
import ObjectGraph.Store.Mention
import ObjectGraph.Walk.Basic

/-!
# What a walk can reach

All objects and schemas of the tasks of a walk are among the ids that its views
mention and the ids it starts from. `Within ids` says so of a task, and steps keep
it. Among finitely many ids there are finitely many visits to make and schemas to
copy; `left` counts those that are left, and a step that has tasks to follow makes
this number smaller.
-/

namespace ObjectGraph

/-- The objects and the schema of a task are among the given ids. -/
def Task.Within (ids : List ObjectId) (t : Task) : Prop :=
  t.objects ⊆ ids ∧ ∀ id, t.schema = .objectId id → id ∈ ids

namespace Walk

/-- The views of a walk mention only the given ids. -/
def Closed (w : Walk) (ids : List ObjectId) : Prop :=
  w.data.mentioned ⊆ ids ∧ ∀ v, w.schemas = some v → v.mentioned ⊆ ids

/-- All ids that a walk can meet when it starts from a task. -/
def reach (w : Walk) (t : Task) : List ObjectId :=
  t.objects ++ t.schema.objectId?.toList ++ w.data.mentioned ++
    (w.schemas.map View.mentioned).getD []

theorem closed_reach (w : Walk) (t : Task) : w.Closed (w.reach t) := by
  constructor
  · intro id h
    simp [reach, h]
  · intro v hv id h
    simp [reach, hv, h]

theorem within_reach (w : Walk) (t : Task) : t.Within (w.reach t) := by
  constructor
  · intro id h
    simp [reach, h]
  · intro id h
    simp [reach, h, Item.objectId?]

/-- Every visit among the given ids. -/
def allVisits (ids : List ObjectId) : List Visit :=
  ids.flatMap fun o => (none :: ids.map some).flatMap fun s =>
    [⟨o, s, .data⟩, ⟨o, s, .schema⟩]

/-- Every schema among the given ids, from either source. -/
def allSchemas (ids : List ObjectId) : List (ObjectId × Source) :=
  ids.flatMap fun id => [(id, .data), (id, .schema)]

theorem mem_allVisits {ids : List ObjectId} {v : Visit} (ho : v.object ∈ ids)
    (hs : ∀ id, v.schema = some id → id ∈ ids) : v ∈ allVisits ids := by
  obtain ⟨o, s, source⟩ := v
  refine List.mem_flatMap.2 ⟨o, ho, List.mem_flatMap.2 ⟨s, ?_, ?_⟩⟩
  · cases s with
    | none => exact List.mem_cons_self
    | some id => exact List.mem_cons_of_mem _ (List.mem_map.2 ⟨id, hs id rfl, rfl⟩)
  · cases source <;> simp

theorem mem_allSchemas {ids : List ObjectId} {id : ObjectId} {source : Source}
    (h : id ∈ ids) : (id, source) ∈ allSchemas ids := by
  refine List.mem_flatMap.2 ⟨id, h, ?_⟩
  cases source <;> simp

/-- The number of visits and schemas that are left among the given ids. -/
def left (ids : List ObjectId) (p : Progress) : Nat :=
  leftOver (allVisits ids) p.visits + leftOver (allSchemas ids) p.loaded

variable {w : Walk} {ids : List ObjectId}

theorem mentioned_schemaView (hw : w.Closed ids) (source : Source) :
    (w.schemaView source).mentioned ⊆ ids := by
  cases source with
  | data => exact hw.1
  | schema =>
    cases hs : w.schemas with
    | none => simpa [schemaView, hs] using hw.1
    | some v => simpa [schemaView, hs] using hw.2 v hs

/-- The schemas of a layout are among the ids. -/
theorem schemas_layout_mem (hw : w.Closed ids) {schema id : ObjectId} {source : Source}
    {layout : Layout} (h : w.layout schema source = .ok layout)
    (hid : .objectId id ∈ layout.schemas) : id ∈ ids := by
  have hmem := Layout.mem_attrs_of_mem_schemas h hid
  simp only [declared, View.attrEntries, List.map_map, List.mem_map] at hmem
  obtain ⟨name, -, hname⟩ := hmem
  exact mentioned_schemaView hw source (View.attr_mem_mentioned hname)

theorem within_childTask {objects : List ObjectId} {schema : Item} {source : Source}
    (ho : objects ⊆ ids) (hs : ∀ id, schema = .objectId id → id ∈ ids) :
    (w.childTask objects schema source).Within ids := by
  refine ⟨?_, hs⟩
  unfold childTask
  split
  · exact List.nil_subset _
  · exact ho

theorem within_childTasks (hw : w.Closed ids) {schema : ObjectId} {source : Source}
    {layout : Layout} (h : w.layout schema source = .ok layout) (objects : List ObjectId) :
    ∀ t ∈ w.childTasks source objects layout, t.Within ids := by
  have declares : ∀ item ∈ layout.schemas, ∀ id, item = .objectId id → id ∈ ids := by
    rintro item hitem id rfl
    exact schemas_layout_mem hw h hitem
  cases layout with
  | entity attrs =>
    intro t ht
    obtain ⟨a, ha, rfl⟩ := List.mem_map.1 ht
    have ha := (List.mem_filter.1 ha).1
    refine within_childTask ?_ (declares _ (List.mem_map.2 ⟨a, ha, rfl⟩))
    intro id hid
    obtain ⟨o, -, ho⟩ := List.mem_filterMap.1 hid
    exact hw.1 (View.attr_mem_mentioned (Item.child?_eq_some_iff.1 ho).1)
  | list items =>
    intro t ht
    obtain rfl := List.mem_singleton.1 ht
    refine within_childTask ?_ (declares _ (by simp [Layout.schemas]))
    intro id hid
    obtain ⟨item, hitem, hchild⟩ := List.mem_filterMap.1 hid
    obtain ⟨l, -, hl⟩ := List.mem_flatMap.1 hitem
    rw [(Item.child?_eq_some_iff.1 hchild).1] at hl
    exact hw.1 (View.list_mem_mentioned hl)
  | dict keys values =>
    intro t ht
    simp only [childTasks, List.mem_cons, List.not_mem_nil, or_false] at ht
    rcases ht with rfl | rfl
    · refine within_childTask ?_ (declares _ (by simp [Layout.schemas]))
      intro id hid
      obtain ⟨⟨k, v⟩, he, hchild⟩ := List.mem_filterMap.1 hid
      obtain ⟨d, -, hd⟩ := List.mem_flatMap.1 he
      obtain rfl := (Item.child?_eq_some_iff.1 hchild).1
      exact hw.1 (View.key_mem_mentioned hd)
    · refine within_childTask ?_ (declares _ (by simp [Layout.schemas]))
      intro id hid
      obtain ⟨⟨k, v⟩, he, hchild⟩ := List.mem_filterMap.1 hid
      obtain ⟨d, -, hd⟩ := List.mem_flatMap.1 he
      obtain rfl := (Item.child?_eq_some_iff.1 hchild).1
      exact hw.1 (View.value_mem_mentioned hd)

theorem embedded_mem (hw : w.Closed ids) {object schema : ObjectId}
    (h : w.embedded object = .ok schema) : schema ∈ ids := by
  unfold embedded at h
  split at h
  · rename_i id hid
    split at h
    · cases h
      exact hw.1 (View.attr_mem_mentioned (Item.objectId?_eq_some_iff.1 hid))
    · cases h
  · cases h

/-- Pairing keeps the objects, and their schemas are the ones they name. -/
theorem withEmbedded_eq_ok {objects : List ObjectId} {typed : List (ObjectId × ObjectId)}
    (h : w.withEmbedded objects = .ok typed) :
    typed.map Prod.fst = objects ∧ ∀ t ∈ typed, w.embedded t.1 = .ok t.2 := by
  induction objects generalizing typed with
  | nil =>
    cases h
    simp
  | cons object objects ih =>
    unfold withEmbedded at h
    cases he : w.embedded object with
    | error e => simp [he, bind, Except.bind] at h
    | ok schema =>
      cases hr : w.withEmbedded objects with
      | error e => simp [he, hr, bind, Except.bind] at h
      | ok rest =>
        simp only [he, hr, bind, Except.bind, pure, Except.pure, Except.ok.injEq] at h
        subst h
        obtain ⟨hfst, hall⟩ := ih hr
        refine ⟨by simp [hfst], ?_⟩
        intro t ht
        rcases List.mem_cons.1 ht with rfl | ht
        · exact he
        · exact hall t ht

theorem within_bySchema (hw : w.Closed ids) {objects : List ObjectId}
    {typed : List (ObjectId × ObjectId)} (h : w.withEmbedded objects = .ok typed)
    (ho : objects ⊆ ids) : ∀ t ∈ bySchema typed, t.Within ids := by
  obtain ⟨hfst, hall⟩ := withEmbedded_eq_ok h
  intro t ht
  obtain ⟨schema, hschema, rfl⟩ := List.mem_map.1 ht
  constructor
  · intro o hmem
    obtain ⟨pair, hpair, rfl⟩ := List.mem_map.1 hmem
    have hpair := (List.mem_filter.1 (List.mem_filter.1 hpair).1).1
    exact ho (hfst ▸ List.mem_map.2 ⟨pair, hpair, rfl⟩)
  · rintro id hid
    obtain rfl : schema = id := by simpa using hid
    obtain ⟨pair, hpair, rfl⟩ := List.mem_map.1 (List.mem_eraseDups.1 hschema)
    exact embedded_mem hw (hall pair (List.mem_filter.1 hpair).1)

/-- What a step leaves to do: its tasks stay among the ids, and there are none
unless a visit was made or a schema copied. -/
structure Advances (ids : List ObjectId) (p q : Progress) (tasks : List Task) : Prop where
  within : ∀ t ∈ tasks, t.Within ids
  left_le : left ids q ≤ left ids p
  left_lt : tasks ≠ [] → left ids q < left ids p

theorem advances_rfl (ids : List ObjectId) (p : Progress) : Advances ids p p [] :=
  ⟨by simp, Nat.le_refl _, by simp⟩

theorem left_visitsWith_le (p : Progress) (schema : Option ObjectId) (source : Source)
    (objects : List ObjectId) (result : Store) :
    left ids ⟨result, p.visitsWith schema source objects, p.loaded⟩ ≤ left ids p :=
  Nat.add_le_add_right (leftOver_le (p.visits_subset_visitsWith schema source objects)) _

/-- Visiting a fresh object leaves fewer visits. -/
theorem leftOver_visitsWith_lt {p : Progress} {schema : Option ObjectId} {source : Source}
    {objects : List ObjectId} {o : ObjectId} (h : o ∈ p.fresh schema source objects)
    (ho : objects ⊆ ids) (hs : ∀ id, schema = some id → id ∈ ids) :
    leftOver (allVisits ids) (p.visitsWith schema source (p.fresh schema source objects)) <
      leftOver (allVisits ids) p.visits := by
  obtain ⟨hmem, hnew⟩ := Progress.mem_fresh.1 h
  exact leftOver_lt (p.visits_subset_visitsWith schema source _)
    (mem_allVisits (ho hmem) hs) hnew (Progress.mem_visitsWith h)

theorem advances_stepObjects (hw : w.Closed ids) {p q : Progress} {objects : List ObjectId}
    {source : Source} {tasks : List Task} (ho : objects ⊆ ids)
    (h : w.stepObjects p objects source = .ok (q, tasks)) : Advances ids p q tasks := by
  unfold stepObjects at h
  simp only at h
  cases ht : w.withEmbedded (p.fresh none source (objects.filter fun o => !o.isSchema)) with
  | error e => simp [ht, bind, Except.bind] at h
  | ok typed =>
    simp only [ht, bind, Except.bind, pure, Except.pure, Except.ok.injEq, Prod.mk.injEq] at h
    obtain ⟨rfl, rfl⟩ := h
    have hsub : (objects.filter fun o => !o.isSchema) ⊆ ids := fun o hmem =>
      ho (List.mem_filter.1 hmem).1
    have hfresh : p.fresh none source (objects.filter fun o => !o.isSchema) ⊆ ids :=
      fun o hmem => hsub (Progress.mem_fresh.1 hmem).1
    refine ⟨within_bySchema hw ht hfresh, left_visitsWith_le p none source _ _, ?_⟩
    intro hne
    have hfst := (withEmbedded_eq_ok ht).1
    cases typed with
    | nil => simp [bySchema] at hne
    | cons pair typed =>
      have hmem : pair.1 ∈ p.fresh none source (objects.filter fun o => !o.isSchema) :=
        hfst ▸ List.mem_cons_self
      exact Nat.add_lt_add_right (leftOver_visitsWith_lt hmem hsub (by simp)) _

theorem advances_stepExplicit (hw : w.Closed ids) {p q : Progress} {schema : ObjectId}
    {objects : List ObjectId} {source : Source} {tasks : List Task} (ho : objects ⊆ ids)
    (hs : schema ∈ ids) (h : w.stepExplicit p schema objects source = .ok (q, tasks)) :
    Advances ids p q tasks := by
  unfold stepExplicit at h
  cases hl : w.layout schema source with
  | error e => simp [hl, bind, Except.bind] at h
  | ok layout =>
    have hchildren := within_childTasks hw hl (p.fresh (some schema) source objects)
    simp only [hl, bind, Except.bind, pure, Except.pure] at h
    split at h
    · split at h
      · cases h
        exact advances_rfl ids p
      · rename_i hfresh
        split at h
        · cases h
        · simp only [Except.ok.injEq, Prod.mk.injEq] at h
          obtain ⟨rfl, rfl⟩ := h
          obtain ⟨o, hmem⟩ := List.exists_mem_of_ne_nil _ (by simpa using hfresh)
          have hlt := leftOver_visitsWith_lt hmem ho (by simpa using hs)
          exact ⟨hchildren, left_visitsWith_le p _ source _ _,
            fun _ => Nat.add_lt_add_right hlt _⟩
    · rename_i hnew
      split at h
      · cases h
      · split at h
        · cases h
        · simp only [Except.ok.injEq, Prod.mk.injEq] at h
          obtain ⟨rfl, rfl⟩ := h
          have hle : leftOver (allVisits ids) (p.visitsWith (some schema) source
              (p.fresh (some schema) source objects)) ≤ leftOver (allVisits ids) p.visits :=
            leftOver_le (p.visits_subset_visitsWith (some schema) source _)
          have hlt := leftOver_lt (List.subset_cons_self (schema, source) p.loaded)
            (mem_allSchemas hs) hnew List.mem_cons_self
          have hleft := Nat.add_lt_add_of_le_of_lt hle hlt
          exact ⟨hchildren, Nat.le_of_lt hleft, fun _ => hleft⟩

/-- Every step stays among the ids and leaves less to do. -/
theorem advances_step (hw : w.Closed ids) {p q : Progress} {t : Task} {tasks : List Task}
    (ht : t.Within ids) (h : w.step p t = .ok (q, tasks)) : Advances ids p q tasks := by
  unfold step at h
  split at h
  · cases h
  · exact advances_stepObjects hw ht.1 h
  · cases h
    exact advances_rfl ids p
  · rename_i id hid
    split at h
    · cases h
      exact advances_rfl ids p
    · split at h
      · exact advances_stepExplicit hw ht.1 (ht.2 id hid) h
      · cases h
  · cases h

end Walk

end ObjectGraph
