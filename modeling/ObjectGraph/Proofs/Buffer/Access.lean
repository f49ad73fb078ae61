import Mathlib.Data.List.Basic
import ObjectGraph.Error

/-!
# Checked access to buffers

A buffer is a list that is read and written by index. Here every access says whether it is
in range: a computation on buffers ends in a fault or in a result, and one that may also
fail with an error of its own is of type `ExceptT Error Checked`. The lemmas are about
buffers whose entries before and after the one in question are known.
-/

namespace ObjectGraph.Buffer

/-- What must not happen to a buffer. -/
inductive Fault where
  /-- An entry or a part beyond the end. -/
  | outOfRange
  /-- A column in none of the representations. -/
  | noStorage
deriving DecidableEq

/-- A computation on buffers. -/
abbrev Checked := Except Fault

variable {α : Type}

def read (xs : List α) (i : Nat) : Checked α :=
  match xs[i]? with
  | some a => .ok a
  | none => .error .outOfRange

def write (xs : List α) (i : Nat) (a : α) : Checked (List α) :=
  if i < xs.length then .ok (xs.set i a) else .error .outOfRange

/-- The part of a buffer from `first` up to, but without, `last`. -/
def window (xs : List α) (first last : Nat) : Checked (List α) :=
  if first ≤ last ∧ last ≤ xs.length then .ok ((xs.take last).drop first)
  else .error .outOfRange

@[simp] theorem ok_bind {β : Type} (a : α) (f : α → Checked β) : (Except.ok a >>= f) = f a :=
  rfl

@[simp] theorem map_ok {β : Type} (f : α → β) (a : α) :
    (f <$> Except.ok a : Checked β) = .ok (f a) :=
  rfl

@[simp] theorem run_liftM (x : Except Error α) :
    (liftM x : ExceptT Error Checked α).run = .ok x := by
  cases x <;> rfl

variable {xs : List α} {a : α} {i : Nat}

theorem read_of_getElem? (h : xs[i]? = some a) : read xs i = .ok a := by
  rw [read, h]

theorem write_of_lt (h : i < xs.length) (a : α) : write xs i a = .ok (xs.set i a) :=
  if_pos h

/-- The entry after the first ones. -/
theorem read_append (before after : List α) (a : α) :
    read (before ++ a :: after) before.length = .ok a :=
  read_of_getElem? (by simp)

theorem write_append (before after : List α) (a b : α) :
    write (before ++ a :: after) before.length b = .ok (before ++ b :: after) := by
  rw [write_of_lt (by simp), List.set_append_right _ _ (Nat.le_refl _), Nat.sub_self,
    List.set_cons_zero]

theorem window_append (before segment after : List α) :
    window (before ++ (segment ++ after)) before.length (before.length + segment.length) =
      .ok segment := by
  have hle : before.length + segment.length ≤ (before ++ (segment ++ after)).length := by
    simp only [List.length_append]
    omega
  rw [window, if_pos ⟨Nat.le_add_right _ _, hle⟩, ← List.append_assoc,
    List.take_left' List.length_append, List.drop_left]

theorem read_map {β : Type} (f : α → β) (xs : List α) (i : Nat) :
    read (xs.map f) i = f <$> read xs i := by
  rw [read, read, List.getElem?_map]
  cases xs[i]? <;> rfl

/-- A loop goes in step with another one when each of its rounds does. -/
theorem foldlM_hom {β σ τ : Type} (f : σ → τ) {step : σ → β → Checked σ}
    {step' : τ → β → Checked τ} (h : ∀ s b, step' (f s) b = f <$> step s b) (l : List β) (s : σ) :
    l.foldlM step' (f s) = f <$> l.foldlM step s := by
  induction l generalizing s with
  | nil => rfl
  | cons b l ih =>
      rw [List.foldlM_cons, List.foldlM_cons, h, bind_map_left, map_bind]
      exact bind_congr fun s => ih s

theorem mapM_hom {β γ : Type} (f : β → γ) {g : α → Checked β} {g' : α → Checked γ}
    (h : ∀ a, g' a = f <$> g a) (l : List α) : l.mapM g' = List.map f <$> l.mapM g := by
  induction l with
  | nil => rfl
  | cons a l ih =>
      simp only [List.mapM_cons, h, ih, bind_map_left, map_bind]
      rfl

theorem mapM_eq_ok {β γ : Type} {f : β → Checked γ} {g : β → γ} {l : List β}
    (h : ∀ b ∈ l, f b = .ok (g b)) : l.mapM f = .ok (l.map g) := by
  induction l with
  | nil => rfl
  | cons b l ih =>
      have hrest := ih fun c hc => h c (List.mem_cons_of_mem b hc)
      rw [List.mapM_cons, h b List.mem_cons_self, hrest]
      rfl

/-! ### Entries of a function -/

section Entries

variable {f : Nat → α} (f' : Nat → α) {j k : Nat}

/-- One entry of a buffer that lists a function is changed with the function. -/
theorem set_map_range (hf : ∀ i, i ≠ j → f i = f' i) :
    ((List.range k).map f).set j (f' j) = (List.range k).map f' := by
  refine List.ext_getElem? fun i => ?_
  rw [List.getElem?_set]
  by_cases hij : j = i
  · subst hij
    by_cases hj : j < k <;> simp [hj]
  · rw [if_neg hij, List.getElem?_map, List.getElem?_map]
    cases hi : (List.range k)[i]? with
    | none => rfl
    | some a =>
        obtain ⟨hik, rfl⟩ := List.getElem?_eq_some_iff.1 hi
        rw [List.getElem_range, Option.map_some, Option.map_some, hf i (Ne.symm hij)]

variable {used rest : List α}

theorem read_map_range (hj : j < k) :
    read (used ++ ((List.range k).map f ++ rest)) (used.length + j) = .ok (f j) := by
  refine read_of_getElem? ?_
  rw [List.getElem?_append_right (Nat.le_add_right _ _), Nat.add_sub_cancel_left,
    List.getElem?_append_left (by simpa using hj)]
  simp [hj]

theorem write_map_range (hj : j < k) (hf : ∀ i, i ≠ j → f i = f' i) :
    write (used ++ ((List.range k).map f ++ rest)) (used.length + j) (f' j) =
      .ok (used ++ ((List.range k).map f' ++ rest)) := by
  have hlt : used.length + j < (used ++ ((List.range k).map f ++ rest)).length := by
    simp only [List.length_append, List.length_map, List.length_range]
    omega
  rw [write_of_lt hlt, List.set_append_right _ _ (Nat.le_add_right _ _), Nat.add_sub_cancel_left,
    List.set_append_left _ _ (by simpa using hj), set_map_range f' hf]

end Entries

end ObjectGraph.Buffer
