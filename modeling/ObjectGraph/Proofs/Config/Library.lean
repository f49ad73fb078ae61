import ObjectGraph.Config.Load
import ObjectGraph.Proofs.Config.Json

/-!
# What a configuration relies on

The library that reads settings is known by what is documented of it: it merges deeply, the
name of a variable is the path of a field in capital letters, and the variables are put
over each other one after another. The library of the engine is one that does so.
-/

namespace ObjectGraph

open Config

namespace Config.Field

/-- The path under which a field is set. -/
def path (f : Field) : List String :=
  [f.parent.name, f.name]

/-- The name of the variable that sets a field, in capital letters. -/
def variableName (f : Field) : String :=
  variableStart ++ f.parent.name.toUpper ++ variableSeparator ++ f.name.toUpper

end Config.Field

namespace Figment

/-- What stands under a name when later settings are put over earlier ones: two tables are
merged, and otherwise the later value stands. -/
def stacked (F : Figment) : Option Setting → Option Setting → Option Setting
  | some (.table later), some (.table earlier) => some (.table (F.merge later earlier))
  | later, earlier => later.or earlier

/-- Merging goes into tables, and what comes later wins. -/
def MergesDeeply (F : Figment) : Prop :=
  ∀ (later earlier : Settings) (name : String),
    (F.merge later earlier).lookup name = F.stacked (later.lookup name) (earlier.lookup name)

/-- Puts the setting of a variable over the settings so far. -/
def put? (F : Figment) (all : Settings) (v : String × String) : Option Settings :=
  match F.path? variableStart variableSeparator v.1 with
  | none => some all
  | some path => do
    match Setting.nest path (← F.value? v.2) with
    | .table entries => return F.merge entries all
    | _ => return all

/-- What the documentation of the library says of the names that the engine uses. -/
structure Documented (F : Figment) : Prop where
  /-- Merging goes into tables, and what comes later wins. -/
  mergesDeeply : F.MergesDeeply
  /-- The name of a variable in capital letters is the path of its field. -/
  path?_variableName : ∀ f : Field,
    F.path? variableStart variableSeparator f.variableName = some f.path
  /-- The settings of the variables are those of one after another. -/
  variables?_eq : ∀ environment,
    F.variables? variableStart variableSeparator environment = environment.foldlM F.put? []

end Figment

/-! ### The library of the engine -/

namespace Setting

theorem lookup_cons_ite {α : Type} (key name : String) (value : α) (entries : List (String × α)) :
    ((key, value) :: entries).lookup name =
      if name = key then some value else entries.lookup name := by
  by_cases h : name = key
  · rw [if_pos h, h, List.lookup_cons_self]
  · rw [if_neg h, List.lookup_cons, beq_false_of_ne h]

theorem lookup_put {α : Type} (key : String) (value : α) (entries : List (String × α))
    (name : String) : (put key value entries).lookup name =
      if name = key then some value else entries.lookup name := by
  induction entries with
  | nil => exact lookup_cons_ite key name value []
  | cons e entries ih =>
      obtain ⟨other, old⟩ := e
      rw [put, lookup_cons_ite other name old]
      by_cases hother : other = key
      · subst hother
        rw [if_pos rfl, lookup_cons_ite]
        split <;> rfl
      · rw [if_neg hother, lookup_cons_ite, ih]
        by_cases hname : name = key
        · subst hname
          rw [if_neg (Ne.symm hother), if_pos rfl, if_pos rfl]
        · rw [if_neg hname, if_neg hname]

end Setting

namespace Figment

theorem mergesDeeply_standard : standard.MergesDeeply := by
  intro later earlier name
  change (Setting.overlayTable later earlier).lookup name = _
  induction later with
  | nil =>
      rw [Setting.overlayTable.eq_1, List.lookup_nil]
      cases earlier.lookup name <;> rfl
  | cons e later ih =>
      obtain ⟨key, value⟩ := e
      rw [Setting.overlayTable.eq_2, Setting.lookup_put, Setting.lookup_cons_ite]
      by_cases hname : name = key
      · subst hname
        rw [if_pos rfl, if_pos rfl]
        cases earlier.lookup name with
        | none => cases value <;> rfl
        | some old => cases value <;> cases old <;> simp [Setting.overlay, stacked, standard]
      · rw [if_neg hname, if_neg hname]
        exact ih

/-- The library of the engine is as documented. -/
theorem documented_standard : standard.Documented where
  mergesDeeply := mergesDeeply_standard
  path?_variableName := fun f => by cases f <;> decide +kernel
  variables?_eq := fun _ => rfl

end Figment

end ObjectGraph
