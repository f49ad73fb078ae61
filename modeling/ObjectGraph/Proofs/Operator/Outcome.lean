import ObjectGraph.Operator.Copy
import ObjectGraph.Proofs.Operator.Session

/-!
# Outcomes

A computation delivers a property when what it gives has it and when it does not fail for
split points, edges or columns that do not fit together. Sequences deliver what their parts
deliver. A walk may fail, but never in that way: it does not work on shapes.
-/

namespace ObjectGraph

/-- The errors of split points, edges, columns and arguments that do not fit together. -/
def Error.IsMisfit : Error → Prop
  | .splitPointsEmpty | .splitPointsStart _ | .splitPointsUnsorted => True
  | .incompatibleEdge _ _ | .shapeMismatch _ _ => True
  | .arity _ _ _ _ => True
  | _ => False

variable {α β : Type} {P : α → Prop} {Q : β → Prop}

/-- A result with a property, or an error that is not a misfit. -/
def Delivers (P : α → Prop) : Except Error α → Prop
  | .ok a => P a
  | .error e => ¬ e.IsMisfit

theorem Delivers.bind {x : Except Error α} {f : α → Except Error β} (hx : Delivers P x)
    (hf : ∀ a, P a → Delivers Q (f a)) : Delivers Q (x >>= f) := by
  cases x with
  | error e => exact hx
  | ok a => exact hf a hx

theorem Delivers.map {x : Except Error α} {f : α → β} (hx : Delivers P x)
    (hf : ∀ a, P a → Q (f a)) : Delivers Q (x.map f) := by
  cases x with
  | error e => exact hx
  | ok a => exact hf a hx

theorem delivers_foldlM {f : α → β → Except Error α} (l : List β)
    (hf : ∀ a b, P a → Delivers P (f a b)) {a : α} (ha : P a) : Delivers P (l.foldlM f a) := by
  induction l generalizing a with
  | nil => exact ha
  | cons b l ih => exact (hf a b ha).bind fun a => ih

namespace Session

/-- What a session delivers on every workspace. -/
def Delivers (P : α → Prop) (s : Session α) : Prop :=
  ∀ w, ObjectGraph.Delivers P (s.after w).1

theorem Delivers.bind {s : Session α} {f : α → Session β} (hs : s.Delivers P)
    (hf : ∀ a, P a → (f a).Delivers Q) : Delivers Q (s >>= f) := by
  intro w
  have hw := hs w
  cases hrun : s.after w with
  | mk outcome w' =>
      rw [hrun] at hw
      cases outcome with
      | error e =>
          rw [after_bind_error hrun]
          exact hw
      | ok a =>
          rw [after_bind_ok hrun]
          exact hf a hw w'

theorem delivers_pure {a : α} (ha : P a) : Delivers P (pure a : Session α) :=
  fun _ => ha

theorem delivers_throw {e : Error} (he : ¬ e.IsMisfit) : Delivers P (throw e : Session α) :=
  fun _ => he

theorem delivers_liftExcept {x : Except Error α} (hx : ObjectGraph.Delivers P x) :
    Delivers P (liftM x : Session α) := by
  intro w
  rw [after_liftExcept]
  exact hx

theorem delivers_liftState (x : StateM Workspace α) :
    Delivers (fun _ => True) (liftM x : Session α) :=
  fun _ => trivial

end Session

/-! ### Schemas -/

theorem delivers_noFollow (item : Item) : Delivers (fun _ => True) (Schema.noFollow item) := by
  unfold Schema.noFollow
  split
  · trivial
  · exact not_false
  · split
    · exact not_false
    · split
      · exact not_false
      · trivial
  · exact not_false

theorem delivers_followed (item : Item) : Delivers (fun _ => True) (Schema.followed item) := by
  unfold Schema.followed
  split
  · split
    · trivial
    · split
      · trivial
      · exact not_false
  · exact not_false

theorem delivers_verify (item : Item) : Delivers (fun _ => True) (Schema.verify item) := by
  unfold Schema.verify
  split
  · trivial
  · exact not_false

theorem delivers_validateKey (item : Item) :
    Delivers (fun _ => True) (Schema.validateKey item) := by
  unfold Schema.validateKey
  split
  case h_6 =>
    split
    · exact not_false
    · trivial
  all_goals first | trivial | exact not_false

/-! ### Walks -/

theorem delivers_setList (s : Store) (id : ObjectId) (items : List Item) :
    Delivers (fun _ => True) (s.setList id items) := by
  unfold Store.setList
  split
  · trivial
  · exact not_false

theorem delivers_setInDict (s : Store) (id : ObjectId) (key value : Item) :
    Delivers (fun _ => True) (s.setInDict id key value) := by
  unfold Store.setInDict
  split
  · exact not_false
  · exact (delivers_validateKey key).bind fun _ _ => trivial

theorem delivers_ofAttrs (schema : ObjectId) (attrs : List (String × Item)) :
    Delivers (fun _ => True) (Layout.ofAttrs schema attrs) := by
  unfold Layout.ofAttrs
  split
  · split
    · trivial
    · exact not_false
  · split
    · trivial
    · split
      · trivial
      · exact not_false
    · exact not_false

namespace Walk

variable (w : Walk)

theorem delivers_withEmbedded (objects : List ObjectId) :
    Delivers (fun _ => True) (w.withEmbedded objects) := by
  induction objects with
  | nil => trivial
  | cons object objects ih =>
      refine Delivers.bind (P := fun _ => True) ?_ fun schema _ => ih.bind fun rest _ => trivial
      unfold embedded
      split
      · split
        · trivial
        · exact not_false
      · exact not_false

theorem delivers_declare (schema : ObjectId) (result : Store) (attrs : List (String × Item)) :
    Delivers (fun _ => True) (declare schema result attrs) := by
  induction attrs generalizing result with
  | nil => trivial
  | cons attr attrs ih =>
      rw [declare]
      split
      · exact not_false
      · exact ih _

theorem delivers_copyData (objects : List ObjectId) (result : Store) (layout : Layout) :
    Delivers (fun _ => True) (w.copyData objects result layout) := by
  cases layout with
  | entity attrs => trivial
  | list items =>
      refine delivers_foldlM _ (fun r l _ => ?_) trivial
      split
      · exact delivers_setList r (w.target l) _
      · trivial
  | dict keys values =>
      refine delivers_foldlM _ (fun r d _ => ?_) trivial
      exact delivers_foldlM _ (fun r e _ => delivers_setInDict r (w.target d) e.1 e.2) trivial

theorem delivers_stepExplicit (p : Progress) (schema : ObjectId) (objects : List ObjectId)
    (source : Source) : Delivers (fun _ => True) (w.stepExplicit p schema objects source) := by
  unfold stepExplicit
  refine (delivers_ofAttrs schema _).bind fun layout _ => ?_
  simp only
  split
  · split
    · trivial
    · exact (delivers_copyData w _ _ layout).bind fun result _ => trivial
  · exact (delivers_declare schema _ _).bind fun result _ =>
      (delivers_copyData w _ result layout).bind fun result _ => trivial

theorem delivers_step (p : Progress) (t : Task) : Delivers (fun _ => True) (w.step p t) := by
  unfold step
  split
  · exact not_false
  · exact (delivers_withEmbedded w _).bind fun typed _ => trivial
  · trivial
  · split
    · trivial
    · split
      · exact delivers_stepExplicit w p _ t.objects t.source
      · exact not_false
  · exact not_false

theorem delivers_drain {ids : List ObjectId} (hids : w.Closed ids) (p : Progress)
    (queue : List Task) (hq : ∀ t ∈ queue, t.Within ids) :
    Delivers (fun _ => True) (w.drain ids hids p queue hq) := by
  fun_induction drain w ids hids p queue hq with
  | case1 => trivial
  | case2 p t queue hq e hstep =>
      have herror := delivers_step w p t
      rwa [hstep] at herror
  | case3 _ _ _ _ _ _ _ _ _ ih => exact ih

/-- A walk does not fail for a misfit. -/
theorem delivers_run (objects : List ObjectId) (schema : Item) :
    Delivers (fun _ => True) (w.run objects schema) :=
  delivers_drain w _ _ _ _

end Walk

end ObjectGraph
