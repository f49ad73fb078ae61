import ObjectGraph.Operator.Copy
import ObjectGraph.Proofs.Operator.Session
import ObjectGraph.Proofs.Store.WellKinded
import ObjectGraph.Proofs.Walk.Trace

/-!
# Stores that can be reached

A store is reached from the empty one by writes, accepted or not, and by copies: every
store that extraction, a shallow clone or a clone puts into a bag. Copies build their
stores by writes too, whatever they read, so every store that is reached is one that
writes build.
-/

namespace ObjectGraph

namespace Walk

variable {w : Walk} {t : Task} {p : Progress} {done queue : List Task} {r : Store}

theorem Trace.written (h : w.Trace t p done queue) : p.result.Written := by
  induction h with
  | start => exact .empty
  | step _ hstep ih => exact written_of_steps ih (steps_of_step hstep)

/-- A walk builds its store by writes, from whatever views it reads. -/
theorem written_of_run {objects : List ObjectId} {schema : Item}
    (h : w.run objects schema = .ok r) : r.Written := by
  obtain ⟨q, done, htrace, rfl⟩ := exists_trace_of_drain_eq_ok h .start
  exact htrace.written

end Walk

theorem written_of_shallowClone {data : View} {schemas : Option View} {objects column : Column}
    {schema item : Item} {a : Allocator} {r : Store}
    (h : (shallowClone data schemas objects schema a).1 = .ok (r, column, item)) : r.Written := by
  rw [shallowClone] at h
  simp only at h
  cases hrun : (Walk.firstLevel data schemas (Renaming.ofColumn objects a).1).run objects.roots
      schema with
  | error e => rw [hrun] at h; cases h
  | ok store =>
      rw [hrun] at h
      obtain ⟨rfl, -, -⟩ := Prod.mk.injEq _ _ _ _ ▸ Except.ok.inj h
      exact Walk.written_of_run hrun

/-! ### What sessions keep -/

/-- Every bag holds a store that writes build. -/
def Bags.Written (bags : Bags) : Prop :=
  ∀ bag ∈ bags.made, bag.store.Written

theorem Bags.Written.add {bags : Bags} (h : bags.Written) {bag : Bag}
    (hbag : bag.store.Written) : (bags.add bag).2.Written := by
  intro other hother
  rcases List.mem_append.1 hother with hother | hother
  · exact h other hother
  · exact List.mem_singleton.1 hother ▸ hbag

namespace Session

variable {α β : Type} {P : α → Prop} {Q : β → Prop}

/-- On bags with written stores a session leaves such bags, also when it fails, and a
result with a property. -/
def Builds (P : α → Prop) (s : Session α) : Prop :=
  ∀ w : Workspace, w.bags.Written →
    (s.after w).2.bags.Written ∧ ∀ a, (s.after w).1 = .ok a → P a

theorem Builds.bind {s : Session α} {f : α → Session β} (hs : s.Builds P)
    (hf : ∀ a, P a → (f a).Builds Q) : Builds Q (s >>= f) := by
  intro w hw
  obtain ⟨hbags, hresult⟩ := hs w hw
  cases hrun : s.after w with
  | mk outcome w' =>
      rw [hrun] at hbags hresult
      cases outcome with
      | error e =>
          rw [after_bind_error hrun]
          exact ⟨hbags, fun a h => by cases h⟩
      | ok a =>
          rw [after_bind_ok hrun]
          exact hf a (hresult a rfl) w' hbags

theorem builds_pure {a : α} (ha : P a) : Builds P (pure a : Session α) :=
  fun _ hw => ⟨hw, fun _ h => Except.ok.inj h ▸ ha⟩

theorem builds_throw (e : Error) : Builds P (throw e : Session α) :=
  fun _ hw => ⟨hw, fun _ h => by cases h⟩

theorem builds_liftExcept {x : Except Error α} (hx : ∀ a, x = .ok a → P a) :
    Builds P (liftM x : Session α) := by
  intro w hw
  rw [after_liftExcept]
  exact ⟨hw, hx⟩

theorem builds_newBag {store : Store} (h : store.Written) :
    Builds (fun _ => True) (liftM (Workspace.newBag store) : Session Handle) :=
  fun _ hw => ⟨hw.add h, fun _ _ => trivial⟩

theorem builds_combine (fallbacks : List (Option Handle)) :
    Builds (fun _ => True) (liftM (Workspace.combine fallbacks) : Session Handle) :=
  fun _ hw => ⟨hw.add .empty, fun _ _ => trivial⟩

end Session

namespace Slice

open Session

theorem builds_copySource (use : BagUse) (s schema : Slice) :
    Builds (fun _ => True) (copySource use s schema) := by
  unfold copySource
  split
  · split
    · refine (builds_liftExcept (P := fun _ => True) fun _ _ => trivial).bind fun _ _ => ?_
      refine Builds.bind (P := fun _ => True) (fun w hw => ⟨hw, fun _ _ => trivial⟩) fun w _ => ?_
      exact builds_pure trivial
    · exact builds_throw _
  · exact builds_throw _

theorem builds_extract (s schema : Slice) : Builds (fun _ => True) (s.extract schema) := by
  unfold extract
  refine (builds_copySource .extract s schema).bind fun source _ => ?_
  refine (builds_liftExcept fun store => Walk.written_of_run).bind fun store hstore => ?_
  exact (builds_newBag hstore).bind fun bag _ => builds_pure trivial

theorem builds_shallowClone (s schema : Slice) :
    Builds (fun _ => True) (s.shallowClone schema) := by
  unfold shallowClone
  refine (builds_copySource .clone s schema).bind fun source _ => ?_
  refine Builds.bind (P := fun outcome => ∀ r, outcome = .ok r → r.1.Written)
    (fun w hw => ⟨hw, ?_⟩) fun outcome houtcome => ?_
  · rintro outcome houtcome ⟨store, column, item⟩ h
    rw [after_modifyGet] at houtcome
    obtain rfl := Except.ok.inj houtcome
    exact written_of_shallowClone h
  · refine (builds_liftExcept houtcome).bind fun r hstore => ?_
    obtain ⟨store, column, item⟩ := r
    have hbag : ∀ cloned : Slice, True → Builds (fun _ => True) (do
        let bag ← Workspace.newBag store
        pure (cloned.withBag (some bag))) := fun cloned _ =>
      (builds_newBag hstore).bind fun bag _ => builds_pure trivial
    simp only
    split
    · exact (builds_pure trivial).bind hbag
    · exact Builds.bind (builds_liftExcept fun _ _ => trivial) hbag

theorem builds_clone (s schema : Slice) : Builds (fun _ => True) (s.clone schema) := by
  unfold clone
  split
  · refine (builds_shallowClone s schema).bind fun cloned _ => ?_
    exact (builds_combine _).bind fun combined _ => builds_extract _ _
  · exact builds_throw _

end Slice

/-! ### Reached stores -/

/-- A copy of a slice. -/
inductive CopyOf (s schema : Slice) : Session Slice → Prop
  | extract : CopyOf s schema (s.extract schema)
  | shallowClone : CopyOf s schema (s.shallowClone schema)
  | clone : CopyOf s schema (s.clone schema)

namespace Store

/-- The stores that are reached from the empty one by writes, with any stores as fallbacks,
and by copies of slices whose bags hold reached stores. -/
inductive Reached : Store → Prop
  | empty : Reached ∅
  | write {s : Store} (w : Write) : s.Reached → Reached (s.perform w).2
  | copy {s schema : Slice} {run : Session Slice} {w : Workspace} {bag : Bag} :
      CopyOf s schema run → (∀ bag ∈ w.bags.made, Reached bag.store) →
      bag ∈ (run.after w).2.bags.made → Reached bag.store

theorem Reached.written {s : Store} (h : s.Reached) : s.Written := by
  induction h with
  | empty => exact .empty
  | write w _ ih => exact written_perform ih w
  | copy hcopy _ hbag ih =>
      cases hcopy with
      | extract => exact (Slice.builds_extract _ _ _ ih).1 _ hbag
      | shallowClone => exact (Slice.builds_shallowClone _ _ _ ih).1 _ hbag
      | clone => exact (Slice.builds_clone _ _ _ ih).1 _ hbag

/-- Every store that is reached is well-kinded, and a walk over such stores that keeps the
kinds of the objects never fails on the data that it copies. -/
theorem wellKinded_of_reached :
    (∀ s : Store, s.Reached → s.WellKinded) ∧
    (∀ w : Walk, (∀ s ∈ w.data.layers, s.Reached) → (∀ o, (w.target o).kind = o.kind) →
      ∀ (objects : List ObjectId) (t : Store) (layout : Layout),
        ∃ r, w.copyData objects t layout = .ok r) := by
  constructor
  · intro s hs
    exact hs.written.wellKinded
  · intro w hlayers hkind objects t layout
    have hwritten : w.data.Written := fun s hs => (hlayers s hs).written
    exact Walk.exists_copyData hkind hwritten.validKeys objects t layout

namespace Tombstone

def prices : ObjectId :=
  ⟨1, 0, .dict⟩

/-- A tombstone is entered, and an entry without a key is rejected. -/
def store : Store :=
  (((∅ : Store).perform (.setInDict prices (.text "oak") .missing)).2.perform
    (.setInDict prices .missing (.int32 5))).2

/-- A dict that holds nothing but a tombstone counts. -/
theorem wellKinded_store : store.Reached ∧ store.WellKinded ∧ store.isEmpty = false := by
  have hreached : store.Reached := .write _ (.write _ .empty)
  have hkinded := wellKinded_of_reached.1 store hreached
  refine ⟨hreached, hkinded, Bool.eq_false_iff.2 fun hempty => ?_⟩
  have hcount := (hkinded.isEmpty_iff.1 hempty).2.2
  exact absurd hcount (by decide)

end Tombstone

end Store

end ObjectGraph
