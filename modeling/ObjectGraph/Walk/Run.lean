import ObjectGraph.Walk.Universe

/-!
# Runs of a walk

A run does the tasks of a queue in order and puts the tasks that follow from one
at the end. It stops at the first error. Each task either leaves fewer visits and
schemas to do or adds no task, so the pair of what is left and the length of the
queue descends, and the run ends on every graph.
-/

namespace ObjectGraph.Walk

/-- Does the tasks of a queue and all that follow from them. -/
def drain (w : Walk) (ids : List ObjectId) (hw : w.Closed ids) (p : Progress) :
    (queue : List Task) → (∀ t ∈ queue, t.Within ids) → Except Error Store
  | [], _ => .ok p.result
  | t :: queue, hq =>
    match hstep : w.step p t with
    | .error e => .error e
    | .ok (q, tasks) =>
      have hadv := advances_step hw (hq t List.mem_cons_self) hstep
      drain w ids hw q (queue ++ tasks) fun u hu =>
        (List.mem_append.1 hu).elim (fun h => hq u (List.mem_cons_of_mem t h)) (hadv.within u)
termination_by queue => (left ids p, queue.length)
decreasing_by
  by_cases hnil : tasks = []
  · subst hnil
    rw [List.append_nil]
    rcases Nat.lt_or_eq_of_le hadv.left_le with hlt | heq
    · exact Prod.Lex.left _ _ hlt
    · rw [heq]
      exact Prod.Lex.right _ (Nat.lt_succ_self _)
  · exact Prod.Lex.left _ _ (hadv.left_lt hnil)

/-- The store that a walk builds from a first task. -/
def runTask (w : Walk) (t : Task) : Except Error Store :=
  w.drain (w.reach t) (w.closed_reach t) .start [t] fun _ h =>
    List.mem_singleton.1 h ▸ w.within_reach t

/-- The first task of a walk from objects under a schema. The schema is read from
the schema view if there is one. -/
def firstTask (w : Walk) (objects : List ObjectId) (schema : Item) : Task :=
  ⟨objects, schema, if w.schemas.isSome then .schema else .data⟩

/-- The store that a walk builds from objects under a schema. -/
def run (w : Walk) (objects : List ObjectId) (schema : Item) : Except Error Store :=
  w.runTask (w.firstTask objects schema)

end ObjectGraph.Walk
