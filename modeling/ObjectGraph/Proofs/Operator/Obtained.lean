import ObjectGraph.Proofs.Operator.Valid
import ObjectGraph.Proofs.Walk.Dispatch

/-!
# Slices that can be obtained

A slice is obtained by a sequence of operations, each on slices that were obtained before and
on any workspace. Such a slice is valid, so no operation on such slices breaks: none reads or
writes beyond the end of a buffer, and none fails because of split points, edges or columns
that do not fit together, unless a column and a shape are given that do not fit.

A split point is a signed word. So a column that a slice is made from, and the sums of the
sizes that a shape is made from, have to stay below the first number that is too large.
-/

namespace ObjectGraph

/-- One way to obtain a slice. -/
inductive Operation where
  | ofItem (item schema : Item)
  | ofColumn (column : Column) (shape : Shape) (schema : Item)
  | flat (column : Column) (schema : Item)
  | withSchema (s : Slice) (schema : Item)
  | withBag (s : Slice) (bag : Option Handle)
  | noFollow (s : Slice)
  | followed (s : Slice)
  | schemaSlice (s : Slice)
  | extract (s schema : Slice)
  | shallowClone (s schema : Slice)
  | clone (s schema : Slice)
  | groupBy (sorted : Bool) (keys : List Slice)
  | unique (x flag : Slice)
  | call (config : Config) (name : String) (args : List Slice)

namespace Operation

/-- The slices that an operation works on. -/
def args : Operation → List Slice
  | ofItem _ _ | ofColumn _ _ _ | flat _ _ => []
  | withSchema s _ | withBag s _ | noFollow s | followed s | schemaSlice s => [s]
  | extract s schema | shallowClone s schema | clone s schema => [s, schema]
  | groupBy _ keys => keys
  | unique x flag => [x, flag]
  | call _ _ args => args

def run : Operation → Session Slice
  | ofItem item schema => pure (.ofItem item schema)
  | ofColumn column shape schema => Slice.ofColumn column shape schema
  | flat column schema => pure (.flat column schema)
  | withSchema s schema => pure (s.withSchema schema)
  | withBag s bag => pure (s.withBag bag)
  | noFollow s => s.noFollow
  | followed s => s.followed
  | schemaSlice s => pure s.schemaSlice
  | extract s schema => s.extract schema
  | shallowClone s schema => s.shallowClone schema
  | clone s schema => s.clone schema
  | groupBy sorted keys => ObjectGraph.groupBy sorted keys
  | unique x flag => ObjectGraph.unique x flag
  | call config name args => Operator.call config name args

/-- The sizes that an operation is given fit into split points. -/
def Fits : Operation → Prop
  | ofColumn _ shape _ => shape.Made
  | flat column _ => column.size < Edge.pointLimit
  | _ => True

/-- The misfits for which an operation may fail: a column that does not fill its shape, and
a number of arguments that an operator does not take. -/
def Refuses : Operation → Error → Prop
  | ofColumn column shape _, e =>
    shape.size ≠ column.size ∧ e = .shapeMismatch shape.size column.size
  | call _ name args, e => ∃ op, Operator.ofName? name = some op ∧
    op.takes args.length = false ∧ e = .arity op.name op.arity.1 op.arity.2 args.length
  | _, _ => False

open Session

variable {op : Operation} {w : Workspace}

/-- An operation that is not given a misfit gives a valid slice or fails for another reason. -/
theorem delivers_run (hargs : ∀ x ∈ op.args, x.Valid) (hfits : op.Fits)
    (haccepts : ∀ e, ¬ op.Refuses e) : op.run.Delivers Slice.Valid := by
  cases op with
  | ofItem item schema => exact delivers_pure (Slice.valid_ofItem item schema)
  | ofColumn column shape schema =>
      have hsize : shape.size = column.size := by
        by_contra hne
        exact haccepts _ ⟨hne, rfl⟩
      obtain ⟨s, hs, hvalid⟩ := Slice.valid_ofColumn (Shape.Made.valid hfits) hsize schema
      rw [run, hs]
      exact delivers_pure hvalid
  | flat column schema => exact delivers_pure (Slice.valid_flat hfits schema)
  | withSchema s schema => exact delivers_pure (hargs s List.mem_cons_self)
  | withBag s bag => exact delivers_pure (hargs s List.mem_cons_self)
  | noFollow s =>
      exact delivers_liftExcept (Slice.delivers_noFollow (hargs s List.mem_cons_self))
  | followed s =>
      exact delivers_liftExcept (Slice.delivers_followed (hargs s List.mem_cons_self))
  | schemaSlice s => exact delivers_pure (Slice.valid_ofItem s.schema (.dtype .schema))
  | extract s schema => exact Slice.delivers_extract (hargs s List.mem_cons_self) schema
  | shallowClone s schema => exact Slice.delivers_shallowClone (hargs s List.mem_cons_self) schema
  | clone s schema => exact Slice.delivers_clone (hargs s List.mem_cons_self) schema
  | groupBy sorted keys => exact delivers_liftExcept (delivers_groupBy sorted hargs)
  | unique x flag =>
      exact delivers_liftExcept (delivers_unique (hargs x List.mem_cons_self) flag)
  | call config name args =>
      refine Operator.delivers_call config (fun op hop => ?_) hargs
      by_contra htakes
      exact haccepts _ ⟨op, hop, eq_false_of_ne_true htakes, rfl⟩

theorem isMisfit_of_refuses {e : Error} (h : op.Refuses e) : e.IsMisfit := by
  cases op with
  | ofColumn column shape schema =>
      rw [h.2]
      trivial
  | call config name args =>
      obtain ⟨_, _, _, rfl⟩ := h
      trivial
  | _ => cases h

theorem fst_after_run_of_refuses {e : Error} (h : op.Refuses e) (w : Workspace) :
    (op.run.after w).1 = .error e := by
  cases op with
  | ofColumn column shape schema =>
      obtain ⟨hne, rfl⟩ := h
      rw [run, Slice.ofColumn, if_pos hne]
      rfl
  | call config name args =>
      obtain ⟨op, hop, htakes, rfl⟩ := h
      rw [run, Operator.call, hop]
      simp only [htakes]
      rfl
  | _ => cases h

theorem valid_of_run {s : Slice} (hargs : ∀ x ∈ op.args, x.Valid) (hfits : op.Fits)
    (h : (op.run.after w).1 = .ok s) : s.Valid := by
  by_cases hrefuses : ∃ e, op.Refuses e
  · obtain ⟨e, he⟩ := hrefuses
    rw [fst_after_run_of_refuses he w] at h
    cases h
  · have hdelivers := delivers_run hargs hfits (not_exists.1 hrefuses) w
    rwa [h] at hdelivers

/-- The only misfits for which an operation fails are those that it is given. -/
theorem refuses_iff (hargs : ∀ x ∈ op.args, x.Valid) (hfits : op.Fits) (w : Workspace)
    (e : Error) : op.Refuses e ↔ (op.run.after w).1 = .error e ∧ e.IsMisfit := by
  constructor
  · intro h
    exact ⟨fst_after_run_of_refuses h w, isMisfit_of_refuses h⟩
  · rintro ⟨h, hmisfit⟩
    by_contra hnot
    have haccepts : ∀ e', ¬ op.Refuses e' := by
      intro e' he'
      rw [fst_after_run_of_refuses he' w, Except.error.injEq] at h
      exact hnot (h ▸ he')
    have hdelivers := delivers_run hargs hfits haccepts w
    rw [h] at hdelivers
    exact hdelivers hmisfit

end Operation

/-! ### Obtained slices -/

/-- The number of entries that a column stores, if it stores any. -/
def Column.stored? : Column → Option Nat
  | .empty _ => none
  | .typed _ cells => some cells.length
  | .mixed items => some items.length

theorem Column.size_of_stored? (c : Column) : ∀ n ∈ c.stored?, c.size = n := by
  cases c with
  | empty n => exact nofun
  | typed t cells => exact fun n hn => Option.some.inj hn
  | mixed items => exact fun n hn => Option.some.inj hn

namespace Slice

/-- Slices that are the outcome of an operation on slices obtained before. -/
inductive Obtained : Slice → Prop
  | run {s : Slice} (op : Operation) (w : Workspace) (hargs : ∀ x ∈ op.args, Obtained x)
      (hfits : op.Fits) (h : (op.run.after w).1 = .ok s) : Obtained s

/-- A jagged shape with a content that fills it: an item where there are no dimensions, and
otherwise a column of its size that stores as many entries. -/
structure WellFormed (s : Slice) : Prop where
  shape : s.shape.Jagged
  content : match s.content with
    | .item _ => s.rank = 0
    | .column c => s.rank ≠ 0 ∧ c.size = s.size ∧ ∀ n ∈ c.stored?, n = s.size

variable {s : Slice}

theorem Obtained.valid (h : s.Obtained) : s.Valid := by
  induction h with
  | run op w _ hfits h ih => exact op.valid_of_run ih hfits h

theorem Valid.wellFormed (h : s.Valid) : s.WellFormed where
  shape := Shape.Valid.jagged h.1
  content := by
    have hcontent := h.2
    cases hs : s.content with
    | item item =>
        rw [hs] at hcontent
        rw [rank, show s.shape = .scalar from hcontent]
        rfl
    | column c =>
        rw [hs] at hcontent
        obtain ⟨hedges, hsize⟩ := hcontent
        refine ⟨List.length_eq_zero_iff.not.2 hedges, hsize, fun n hn => ?_⟩
        rw [← c.size_of_stored? n hn]
        exact hsize

end Slice

/-- Nothing that operations do with the given slices breaks. -/
structure Unbroken (args : List Slice) : Prop where
  /-- The slices are well-formed. -/
  given : ∀ x ∈ args, x.WellFormed
  /-- What an operation gives is well-formed. -/
  result : ∀ (op : Operation) (w : Workspace) (s : Slice), op.args = args → op.Fits →
    (op.run.after w).1 = .ok s → s.WellFormed
  /-- An operation fails for a misfit only if it is given one. -/
  misfit : ∀ (op : Operation) (w : Workspace) (e : Error), op.args = args → op.Fits →
    ((op.run.after w).1 = .error e ∧ e.IsMisfit ↔ op.Refuses e)
  /-- Grouping stays within its buffers. -/
  groups : ∀ sorted, (groupByBuffers sorted args).run = .ok (groupBy sorted args)
  /-- Finding distinct items stays within its buffers, and every column has storage. -/
  distinct : ∀ x ∈ args, ∀ flag, (uniqueBuffers x flag).run = .ok (unique x flag)
  /-- Grouping fails for its arguments only. -/
  ungrouped : ∀ sorted, (∃ e, groupBy sorted args = .error e) ↔ args = [] ∨ ∃ first,
    args.head? = some first ∧ (first.rank = 0 ∨ (∃ key ∈ args, key.shape ≠ first.shape) ∨
      sorted = true ∧ ∃ key ∈ args, ¬ key.column.Sortable)

/-- Operations on slices that were obtained do not break. Neither does the filling of columns
item by item, nor the collecting of objects by schema, whatever they are given. -/
theorem unbroken_of_obtained {args : List Slice} (hargs : ∀ x ∈ args, x.Obtained) :
    Unbroken args ∧ (∀ items, Buffer.fillColumn items = .ok (.ofItems items)) ∧
      ∀ typed, Walk.dispatch typed = .ok (Walk.bySchema typed) := by
  have hvalid : ∀ x ∈ args, x.Valid := fun x hx => (hargs x hx).valid
  refine ⟨?_, Buffer.fillColumn_eq, Walk.dispatch_eq⟩
  constructor
  case given => exact fun x hx => (hvalid x hx).wellFormed
  case result =>
    rintro op w s rfl hfits h
    exact (op.valid_of_run hvalid hfits h).wellFormed
  case misfit =>
    rintro op w e rfl hfits
    exact (op.refuses_iff hvalid hfits w e).symm
  case groups => exact fun sorted => groupByBuffers_eq sorted hvalid
  case distinct => exact fun x hx flag => uniqueBuffers_eq (hvalid x hx) flag
  case ungrouped => exact fun sorted => exists_groupBy_eq_error_iff hvalid

namespace TwoKeys

theorem obtained_keys : ∀ x ∈ [numbers, letters], x.Obtained := by
  have hshape : shape.Made := Shape.made_iff.2 valid_shape
  intro x hx
  simp only [List.mem_cons, List.not_mem_nil, or_false] at hx
  rcases hx with rfl | rfl
  · exact .run (.ofColumn numbers.column shape numbers.schema) .fresh (List.forall_mem_nil _)
      hshape rfl
  · exact .run (.ofColumn letters.column shape letters.schema) .fresh (List.forall_mem_nil _)
      hshape rfl

/-- The groups of a segment without any are well-formed as well. -/
theorem unbroken_numbers_letters : (∀ x ∈ [numbers, letters], x.Obtained) ∧
    Unbroken [numbers, letters] ∧ ∃ s, groupBy false [numbers, letters] = .ok s ∧
      s.shape = ⟨[⟨[2]⟩, ⟨[2, 0]⟩, ⟨[2, 1]⟩]⟩ ∧ s.WellFormed := by
  have hunbroken := (unbroken_of_obtained obtained_keys).1
  have hrun : groupBy false [numbers, letters] = .ok
      ⟨.column (.typed .int64 [some 0, some 2, some 1]), ⟨[⟨[2]⟩, ⟨[2, 0]⟩, ⟨[2, 1]⟩]⟩,
        .dtype .int64, none⟩ := by
    rfl
  refine ⟨obtained_keys, hunbroken, _, hrun, rfl, ?_⟩
  refine hunbroken.result (.groupBy false [numbers, letters]) .fresh _ rfl trivial ?_
  rw [Operation.run, Session.after_liftExcept, hrun]

end TwoKeys

/-- A column of too many missing items has a shape with a negative split point. -/
theorem not_wellFormed_flat :
    ((Operation.flat (.empty Edge.pointLimit) (.dtype .none)).run.after .fresh).1 =
        .ok (.flat (.empty Edge.pointLimit) (.dtype .none)) ∧
      (Slice.flat (.empty Edge.pointLimit) (.dtype .none)).shape.edges.map Edge.points =
        [[0, Int64.minValue]] ∧
      ¬ (Slice.flat (.empty Edge.pointLimit) (.dtype .none)).WellFormed := by
  refine ⟨rfl, by decide, fun h => ?_⟩
  have hpoints := (h.shape.points _ List.mem_cons_self).2
  have hnot : ¬ (Edge.uniform 1 Edge.pointLimit).points.Pairwise (· ≤ ·) := by decide
  exact hnot hpoints

end ObjectGraph
