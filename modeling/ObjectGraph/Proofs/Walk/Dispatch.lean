import ObjectGraph.Proofs.Buffer.Access
import ObjectGraph.Proofs.Store.Reading
import ObjectGraph.Walk.Basic

/-!
# Tasks by schema

Objects that name their schemas go on as one task for each schema. The tasks are collected
in buckets: an index says at which place the bucket of a schema is, and a schema that is not
in the index gets a bucket at the end. The index only ever names buckets that there are, and
the tasks are those of `bySchema`.
-/

namespace ObjectGraph.Walk

open Buffer

/-- Objects under their schemas, with the places of the schemas. -/
structure Buckets where
  groups : List (ObjectId × List ObjectId)
  index : List (ObjectId × Nat)

namespace Buckets

/-- The place of a schema, which is a new one if there is none. -/
def place (b : Buckets) (schema : ObjectId) : Buckets × Nat :=
  match b.index.lookup schema with
  | some i => (b, i)
  | none => (⟨b.groups ++ [(schema, [])], (schema, b.groups.length) :: b.index⟩, b.groups.length)

/-- Puts an object at a place. -/
def put (b : Buckets) (i : Nat) (object : ObjectId) : Checked Buckets := do
  let group ← read b.groups i
  let groups ← write b.groups i (group.1, group.2 ++ [object])
  return ⟨groups, b.index⟩

/-- Puts an object under its schema, unless it is a NoFollow schema. -/
def add (b : Buckets) (t : ObjectId × ObjectId) : Checked Buckets :=
  if t.2.isNoFollow then .ok b else (b.place t.2).1.put (b.place t.2).2 t.1

end Buckets

/-- `bySchema` on buckets. -/
def dispatch (typed : List (ObjectId × ObjectId)) : Checked (List Task) := do
  let b ← typed.foldlM Buckets.add ⟨[], []⟩
  return b.groups.map fun g => ⟨g.2, .objectId g.1, .data⟩

variable {typed : List (ObjectId × ObjectId)} {schemas : List ObjectId} {b : Buckets}
  {schema object : ObjectId} {i : Nat}

/-! ### Objects by schema -/

/-- The objects under a schema. -/
def objectsOf (typed : List (ObjectId × ObjectId)) (schema : ObjectId) : List ObjectId :=
  (typed.filter fun t => t.2 = schema).map Prod.fst

theorem objectsOf_concat (typed : List (ObjectId × ObjectId)) (object schema schema' : ObjectId) :
    objectsOf (typed ++ [(object, schema)]) schema' =
      objectsOf typed schema' ++ if schema = schema' then [object] else [] := by
  by_cases h : schema = schema' <;> simp [objectsOf, h]

theorem objectsOf_of_notMem (h : schema ∉ typed.map Prod.snd) : objectsOf typed schema = [] := by
  rw [objectsOf, List.map_eq_nil_iff, List.filter_eq_nil_iff]
  intro t ht heq
  rw [decide_eq_true_eq] at heq
  exact h (List.mem_map.2 ⟨t, ht, heq⟩)

/-- The schemas met so far, after one more. -/
def meet (schemas : List ObjectId) (schema : ObjectId) : List ObjectId :=
  if schema ∈ schemas then schemas else schemas ++ [schema]

theorem eraseDups_concat (schemas : List ObjectId) (schema : ObjectId) :
    (schemas ++ [schema]).eraseDups = meet schemas.eraseDups schema := by
  rw [eraseDups_append_singleton, meet]
  simp only [List.mem_eraseDups]

theorem getElem?_concat_eq_some {schema' : ObjectId} : (schemas ++ [schema])[i]? = some schema' ↔
    schemas[i]? = some schema' ∨ i = schemas.length ∧ schema = schema' := by
  rcases Nat.lt_trichotomy i schemas.length with hlt | rfl | hlt
  · simp [List.getElem?_append_left hlt, hlt.ne]
  · simp
  · have hle : (schemas ++ [schema]).length ≤ i := by
      rw [List.length_append]
      exact hlt
    rw [List.getElem?_eq_none hle, List.getElem?_eq_none hlt.le]
    simp [hlt.ne']

/-! ### Buckets in use -/

/-- Buckets for schemas, with the objects under them. -/
structure Bucketed (schemas : List ObjectId) (typed : List (ObjectId × ObjectId)) (b : Buckets) :
    Prop where
  groups : b.groups = schemas.map fun schema => (schema, objectsOf typed schema)
  index : ∀ (schema : ObjectId) (i : Nat),
    b.index.lookup schema = some i ↔ schemas[i]? = some schema

theorem bucketed_nil :
    Bucketed (([] : List (ObjectId × ObjectId)).map Prod.snd).eraseDups [] ⟨[], []⟩ where
  groups := by rw [List.map_nil, List.eraseDups_nil, List.map_nil]
  index := fun _ _ => by simp

/-- A schema gets a bucket where it has none, and its place is that of its bucket. -/
theorem Bucketed.place (h : Bucketed schemas typed b) (hschemas : typed.map Prod.snd ⊆ schemas)
    (schema : ObjectId) : Bucketed (meet schemas schema) typed (b.place schema).1 ∧
      (meet schemas schema)[(b.place schema).2]? = some schema := by
  rw [Buckets.place, meet]
  cases hlookup : b.index.lookup schema with
  | some i =>
      have hi := (h.index schema i).1 hlookup
      rw [if_pos (List.mem_of_getElem? hi)]
      exact ⟨h, hi⟩
  | none =>
      have hnew : schema ∉ schemas := by
        intro hmem
        obtain ⟨i, hi⟩ := List.mem_iff_getElem?.1 hmem
        rw [(h.index schema i).2 hi] at hlookup
        cases hlookup
      have hlength : b.groups.length = schemas.length := by rw [h.groups, List.length_map]
      rw [if_neg hnew, hlength]
      refine ⟨⟨?_, fun schema' i => ?_⟩, List.getElem?_concat_length⟩
      · rw [List.map_append, List.map_singleton,
          objectsOf_of_notMem fun hmem => hnew (hschemas hmem), ← h.groups]
      · rw [List.lookup_cons, getElem?_concat_eq_some, ← h.index]
        by_cases heq : schema' = schema
        · subst heq
          simp [hlookup, eq_comm]
        · simp [beq_eq_false_iff_ne.2 heq, Ne.symm heq]

/-- An object is put in range at the place of its schema. -/
theorem Bucketed.put (h : Bucketed schemas typed b) (hnodup : schemas.Nodup)
    (hi : schemas[i]? = some schema) (object : ObjectId) :
    ∃ b', b.put i object = .ok b' ∧ Bucketed schemas (typed ++ [(object, schema)]) b' := by
  have hread : read b.groups i = .ok (schema, objectsOf typed schema) := by
    rw [h.groups]
    exact read_of_getElem? (by rw [List.getElem?_map, hi]; rfl)
  have hlt : i < b.groups.length := by
    rw [h.groups, List.length_map]
    exact (List.getElem?_eq_some_iff.1 hi).1
  refine ⟨⟨b.groups.set i (schema, objectsOf typed schema ++ [object]), b.index⟩, ?_, ?_,
    h.index⟩
  · rw [Buckets.put, hread, ok_bind, write_of_lt hlt, ok_bind]
    rfl
  · refine List.ext_getElem? fun j => ?_
    rw [List.getElem?_set, h.groups, List.getElem?_map, List.getElem?_map]
    by_cases hij : i = j
    · subst hij
      rw [if_pos rfl, if_pos (h.groups ▸ hlt), hi, Option.map_some, objectsOf_concat, if_pos rfl]
    · rw [if_neg hij]
      cases hj : schemas[j]? with
      | none => rfl
      | some schema' =>
          have hne : schema ≠ schema' := by
            intro heq
            subst heq
            exact hij ((List.getElem?_inj (List.getElem?_eq_some_iff.1 hi).1 hnodup).1
              (hi.trans hj.symm))
          rw [Option.map_some, Option.map_some, objectsOf_concat, if_neg hne, List.append_nil]

/-- The tasks are collected without leaving the buckets. -/
theorem foldlM_add (h : Bucketed (typed.map Prod.snd).eraseDups typed b)
    (more : List (ObjectId × ObjectId)) : ∃ b', more.foldlM Buckets.add b = .ok b' ∧
      Bucketed ((typed ++ more.filter fun t => !t.2.isNoFollow).map Prod.snd).eraseDups
        (typed ++ more.filter fun t => !t.2.isNoFollow) b' := by
  induction more generalizing typed b with
  | nil => exact ⟨b, rfl, by rwa [List.filter_nil, List.append_nil]⟩
  | cons t more ih =>
      rw [List.foldlM_cons, Buckets.add]
      by_cases hno : t.2.isNoFollow
      · rw [if_pos hno, ok_bind, List.filter_cons_of_neg (by simpa using hno)]
        exact ih h
      · have hsubset : typed.map Prod.snd ⊆ (typed.map Prod.snd).eraseDups := fun schema =>
          List.mem_eraseDups.2
        obtain ⟨hplace, hi⟩ := h.place hsubset t.2
        have hnodup := nodup_eraseDups (typed.map Prod.snd ++ [t.2])
        rw [eraseDups_concat] at hnodup
        obtain ⟨b', hput, hb'⟩ := hplace.put hnodup hi t.1
        rw [← eraseDups_concat, ← List.map_singleton, ← List.map_append] at hb'
        obtain ⟨b'', hmore, hb''⟩ := ih hb'
        rw [if_neg hno, hput, ok_bind, List.filter_cons_of_pos (by simpa using hno),
          List.append_cons]
        exact ⟨b'', hmore, hb''⟩

/-- Objects are put under their schemas in range, and the tasks are one for each schema. -/
theorem dispatch_eq (typed : List (ObjectId × ObjectId)) :
    dispatch typed = .ok (bySchema typed) := by
  obtain ⟨b, hrun, hb⟩ := foldlM_add bucketed_nil typed
  rw [dispatch, hrun, ok_bind, hb.groups, List.map_map]
  rfl

end ObjectGraph.Walk
