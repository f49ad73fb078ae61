import ObjectGraph.Workspace

/-!
# Running sessions

`after` is what a session does to a workspace: its outcome and the workspace that it
leaves. A sequence of sessions is run one after another, up to the first failure.
-/

namespace ObjectGraph.Session

/-- The outcome of a session and the workspace that it leaves. -/
def after {α : Type} (s : Session α) (w : Workspace) : Except Error α × Workspace :=
  s.run.run w

variable {α β : Type} {w w' : Workspace}

@[simp] theorem after_pure (a : α) (w : Workspace) : (pure a : Session α).after w = (.ok a, w) :=
  rfl

@[simp] theorem after_get (w : Workspace) : (get : Session Workspace).after w = (.ok w, w) :=
  rfl

@[simp] theorem after_modifyGet (f : Workspace → α × Workspace) (w : Workspace) :
    (modifyGetThe Workspace f : Session α).after w = (.ok (f w).1, (f w).2) :=
  rfl

@[simp] theorem after_liftExcept (x : Except Error α) (w : Workspace) :
    (liftM x : Session α).after w = (x, w) := by
  cases x <;> rfl

@[simp] theorem after_liftState (x : StateM Workspace α) (w : Workspace) :
    (liftM x : Session α).after w = (.ok (x.run w).1, (x.run w).2) :=
  rfl

theorem after_bind_ok {s : Session α} {f : α → Session β} {a : α}
    (h : s.after w = (.ok a, w')) : (s >>= f).after w = (f a).after w' := by
  rw [after] at h
  rw [after, ExceptT.run_bind, StateT.run_bind, h]
  rfl

theorem after_bind_error {s : Session α} {f : α → Session β} {e : Error}
    (h : s.after w = (.error e, w')) : (s >>= f).after w = (.error e, w') := by
  rw [after] at h
  rw [after, ExceptT.run_bind, StateT.run_bind, h]
  rfl

end ObjectGraph.Session
