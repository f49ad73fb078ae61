import ObjectGraph.Proofs.Config.Layers

/-!
# Files and variables

A file that is read is a layer of settings, and so are the variables together, in which
each is put over the ones before it. The variables are the last layer of a configuration.
A name that is no section and no field does no harm.

What is said here holds for every library that is as documented, `Figment.Documented`, and
for files and variables that it reads. The library of the engine is one of these, and it
does not read every variable.
-/

namespace ObjectGraph

open Config

namespace Config

open Setting (at? lookup_cons_ite)

/-- A path that is not a section, and not a field or below one. -/
structure Foreign (path : List String) : Prop where
  ne_nil : path ≠ []
  ne_section : ∀ sec : Section, path ≠ [sec.name]
  not_below : ∀ f : Field, ¬ f.path <+: path

/-- Setting a path puts no other value than a table under a section, and nothing under a
field but a value of its type. -/
structure Settable (path : List String) (v : Setting) : Prop where
  ne_nil : path ≠ []
  ne_section : ∀ sec : Section, path ≠ [sec.name]
  field : ∀ f : Field, f.path <+: path → path = f.path ∧ (f.read? v).isSome = true

variable {path : List String} {key : String} {v : Setting}

theorem Foreign.settable (h : Foreign path) (v : Setting) : Settable path v where
  ne_nil := h.ne_nil
  ne_section := h.ne_section
  field := fun f hbelow => absurd hbelow (h.not_below f)

theorem Field.settable_path {f : Field} (h : (f.read? v).isSome = true) :
    Settable f.path v where
  ne_nil := List.cons_ne_nil _ _
  ne_section := fun sec heq => by cases congrArg List.length heq
  field := by
    intro g hbelow
    obtain rfl := Field.path_injective (hbelow.eq_of_length rfl)
    exact ⟨rfl, h⟩

/-- The settings of one path give a value to the field that has this path. -/
theorem Settable.at?_nest (h : Settable (key :: path) v) (f : Field) :
    at? f.path (.table [(key, Setting.nest path v)]) =
      if key :: path = f.path then some v else none := by
  rw [Field.path, at?, lookup_cons_ite, List.lookup_nil]
  by_cases hkey : f.parent.name = key
  · subst hkey
    rw [if_pos rfl, Option.bind_some]
    cases path with
    | nil => exact absurd rfl (h.ne_section f.parent)
    | cons name path =>
        rw [Setting.nest, at?, lookup_cons_ite, List.lookup_nil]
        by_cases hname : f.name = name
        · subst hname
          -- the path goes on below a field only if it ends there
          have hpath : f.parent.name :: f.name :: path = [f.parent.name, f.name] :=
            (h.field f ⟨path, rfl⟩).1
          rw [if_pos rfl, Option.bind_some, at?, if_pos hpath]
          cases path with
          | nil => rfl
          | cons _ _ => cases congrArg List.length hpath
        · rw [if_neg hname, Option.bind_none, if_neg]
          intro hpath
          exact hname (List.cons.inj (List.cons.inj hpath).2).1.symm
  · rw [if_neg hkey, Option.bind_none, if_neg]
    intro hpath
    exact hkey (List.cons.inj hpath).1.symm

theorem Settable.wellTyped_nest (h : Settable (key :: path) v) :
    WellTyped [(key, Setting.nest path v)] where
  sections := by
    intro sec w hw
    rw [lookup_cons_ite, List.lookup_nil] at hw
    split at hw
    · next hkey =>
        obtain rfl := Option.some.inj hw
        cases path with
        | nil => exact absurd (by rw [hkey]) (h.ne_section sec)
        | cons name path => rfl
    · cases hw
  fields := by
    intro f w hw
    rw [h.at?_nest] at hw
    split at hw
    · next hpath =>
        obtain rfl := Option.some.inj hw
        exact (h.field f (hpath ▸ List.prefix_rfl)).2
    · cases hw

theorem Settable.given?_nest (h : Settable (key :: path) v) (f : Field) :
    given? [(key, Setting.nest path v)] f = if key :: path = f.path then f.read? v else none := by
  rw [given?, h.at?_nest]
  split <;> rfl

end Config

namespace Figment

variable {F : Figment}

/-- A file that is not there, or that is read and is well-typed. -/
def FileFits (F : Figment) (file : Option String) : Prop :=
  ∀ text, file = some text → ∃ s, F.file? text = some s ∧ WellTyped s

/-- The value that a file gives to a field. -/
def fileValue? (F : Figment) (file : Option String) (f : Field) : Option f.Value :=
  (F.fileSettings? file).bind fun s => given? s f

/-- A variable that does no harm, and whose text is read if it is one of the engine's. -/
inductive VariableFits (F : Figment) : String × String → Prop
  /-- A field is set to a value of its type. -/
  | field (f : Field) {text : String} {v : Setting} : F.value? text = some v →
      (f.read? v).isSome = true → VariableFits F (f.variableName, text)
  /-- A path is set that is not known. -/
  | foreign {name text : String} {path : List String} {v : Setting} :
      F.path? variableStart variableSeparator name = some path → Foreign path →
      F.value? text = some v → VariableFits F (name, text)
  /-- The variable is of something else. -/
  | other {name : String} (text : String) :
      F.path? variableStart variableSeparator name = none → VariableFits F (name, text)

/-- The value that one variable gives to a field. -/
def ownValue? (F : Figment) (v : String × String) (f : Field) : Option f.Value :=
  if v.1 = f.variableName then (F.value? v.2).bind f.read? else none

/-- The value that variables give to a field, the last of them that sets it. -/
def variableValue? (F : Figment) (environment : List (String × String)) (f : Field) :
    Option f.Value :=
  environment.reverse.findSome? fun v => F.ownValue? v f

theorem variableValue?_concat (environment : List (String × String)) (v : String × String)
    (f : Field) : F.variableValue? (environment ++ [v]) f =
      (F.ownValue? v f).or (F.variableValue? environment f) := by
  rw [variableValue?, List.reverse_concat, List.findSome?_cons, variableValue?]
  cases F.ownValue? v f <;> rfl

section Files

variable {text : String} {s : Settings}

theorem fileFits_of_file? (h : F.file? text = some s) (hs : WellTyped s) :
    F.FileFits (some text) := by
  intro other hother
  cases hother
  exact ⟨s, h, hs⟩

theorem fileValue?_of_file? (h : F.file? text = some s) (f : Field) :
    F.fileValue? (some text) f = given? s f := by
  rw [fileValue?, fileSettings?, h, Option.bind_some]

end Files

theorem FileFits.exists_fileSettings? {file : Option String} (h : F.FileFits file) :
    ∃ s, F.fileSettings? file = some s ∧ WellTyped s ∧
      ∀ f, F.fileValue? file f = given? s f := by
  cases file with
  | none => exact ⟨[], rfl, wellTyped_nil, fun f => rfl⟩
  | some text =>
      obtain ⟨s, hs, hwell⟩ := h text rfl
      exact ⟨s, hs, hwell, fileValue?_of_file? hs⟩

/-- Fitting files make layers that give a field what the files do. -/
theorem exists_mapM_fileSettings? {files : List (Option String)}
    (h : ∀ file ∈ files, F.FileFits file) :
    ∃ layers, files.mapM F.fileSettings? = some layers ∧ (∀ s ∈ layers, WellTyped s) ∧
      ∀ f, (layers.reverse.findSome? fun s => given? s f) =
        files.reverse.findSome? fun file => F.fileValue? file f := by
  induction files with
  | nil => exact ⟨[], rfl, List.forall_mem_nil _, fun f => rfl⟩
  | cons file files ih =>
      obtain ⟨hfile, hfiles⟩ := List.forall_mem_cons.1 h
      obtain ⟨s, hs, hwell, hvalue⟩ := hfile.exists_fileSettings?
      obtain ⟨layers, hread, hlayers, hvalues⟩ := ih hfiles
      refine ⟨s :: layers, ?_, List.forall_mem_cons.2 ⟨hwell, hlayers⟩, fun f => ?_⟩
      · rw [List.mapM_cons, hs, hread]
        rfl
      · rw [List.reverse_cons, List.reverse_cons, List.findSome?_append, List.findSome?_append,
          hvalues, List.findSome?_singleton, List.findSome?_singleton, hvalue]

namespace Documented

variable {all : Settings} {v : String × String}

theorem variableName_eq_iff (hF : F.Documented) {f g : Field} :
    f.variableName = g.variableName ↔ f = g := by
  refine ⟨fun h => Field.path_injective (Option.some.inj ?_), fun h => h ▸ rfl⟩
  rw [← hF.path?_variableName f, ← hF.path?_variableName g, h]

theorem ownValue?_of_path?_ne (hF : F.Documented) {name text : String} {f : Field}
    (h : F.path? variableStart variableSeparator name ≠ some f.path) :
    F.ownValue? (name, text) f = none := by
  rw [ownValue?, if_neg]
  rintro rfl
  exact h (hF.path?_variableName f)

/-- The setting of one path over the settings so far. -/
theorem put?_of_settable (hF : F.Documented) {name text : String} {path : List String}
    {x : Setting} (hpath : F.path? variableStart variableSeparator name = some path)
    (hx : F.value? text = some x) (hset : Settable path x) (hall : WellTyped all) :
    ∃ all', F.put? all (name, text) = some all' ∧ WellTyped all' ∧
      ∀ f : Field,
        given? all' f = (if path = f.path then f.read? x else none).or (given? all f) := by
  obtain ⟨key, path, rfl⟩ := List.exists_cons_of_ne_nil hset.ne_nil
  refine ⟨F.merge [(key, Setting.nest path x)] all, ?_,
    hF.mergesDeeply.wellTyped_merge hset.wellTyped_nest hall, fun f => ?_⟩
  · simp only [put?, hpath, hx, Option.bind_eq_bind, Option.bind_some, Setting.nest]
    rfl
  · rw [hF.mergesDeeply.given?_merge hset.wellTyped_nest hall, hset.given?_nest]

/-- A fitting variable gives its value to its field, and changes no other one. -/
theorem put?_of_fits (hF : F.Documented) (h : F.VariableFits v) (hall : WellTyped all) :
    ∃ all', F.put? all v = some all' ∧ WellTyped all' ∧
      ∀ f, given? all' f = (F.ownValue? v f).or (given? all f) := by
  cases h with
  | field g hx hread =>
      obtain ⟨all', hput, hwell, hgiven⟩ :=
        hF.put?_of_settable (hF.path?_variableName g) hx (Field.settable_path hread) hall
      refine ⟨all', hput, hwell, fun f => ?_⟩
      have hiff : g.path = f.path ↔ g.variableName = f.variableName :=
        ⟨fun heq => Field.path_injective heq ▸ rfl,
          fun heq => hF.variableName_eq_iff.1 heq ▸ rfl⟩
      simp only [hgiven, ownValue?, hx, Option.bind_some, hiff]
  | foreign hpath hforeign hx =>
      obtain ⟨all', hput, hwell, hgiven⟩ :=
        hF.put?_of_settable hpath hx (hforeign.settable _) hall
      refine ⟨all', hput, hwell, fun f => ?_⟩
      have hne : _ ≠ f.path := fun heq => hforeign.not_below f (heq ▸ List.prefix_rfl)
      rw [hgiven, if_neg hne, hF.ownValue?_of_path?_ne]
      rw [hpath]
      exact fun heq => hne (Option.some.inj heq)
  | other text hpath =>
      refine ⟨all, by rw [put?, hpath], hall, fun f => ?_⟩
      rw [hF.ownValue?_of_path?_ne (by rw [hpath]; exact nofun), Option.none_or]

/-- Fitting variables are read, and a field has the value of its last variable. -/
theorem exists_variables? (hF : F.Documented) {environment : List (String × String)}
    (h : ∀ v ∈ environment, F.VariableFits v) :
    ∃ all, F.variables? variableStart variableSeparator environment = some all ∧ WellTyped all ∧
      ∀ f, given? all f = F.variableValue? environment f := by
  rw [hF.variables?_eq]
  induction environment using List.reverseRecOn with
  | nil => exact ⟨[], rfl, wellTyped_nil, fun f => rfl⟩
  | append_singleton environment v ih =>
      obtain ⟨all, hall, hwell, hgiven⟩ := ih fun v hv => h v (List.mem_append_left _ hv)
      obtain ⟨all', hput, hwell', hgiven'⟩ :=
        hF.put?_of_fits (h v (List.mem_append_right _ (List.mem_singleton_self v))) hwell
      refine ⟨all', ?_, hwell', fun f => ?_⟩
      · rw [List.foldlM_append, hall]
        simp [hput]
      · rw [hgiven', hgiven, variableValue?_concat]

/-- Fitting sources are loaded, and each field on its own has the value of the variables, else
of the last file that sets it, else its default. -/
theorem exists_ofSources (hF : F.Documented) {files : List (Option String)}
    {environment : List (String × String)} (hfiles : ∀ file ∈ files, F.FileFits file)
    (hvariables : ∀ v ∈ environment, F.VariableFits v) :
    ∃ c, F.ofSources files environment = .ok c ∧ ∀ f : Field, f.get c =
      ((F.variableValue? environment f).or
        (files.reverse.findSome? fun file => F.fileValue? file f)).getD f.default := by
  obtain ⟨layers, hread, hlayers, hfile⟩ := exists_mapM_fileSettings? hfiles
  obtain ⟨last, hlast, hwell, hvariable⟩ := hF.exists_variables? hvariables
  have hall : ∀ s ∈ layers ++ [last], WellTyped s := by
    simpa [or_imp, forall_and] using ⟨hlayers, hwell⟩
  obtain ⟨hcombined, hgiven⟩ := hF.mergesDeeply.given?_combine hall
  obtain ⟨c, hc, hget⟩ := hcombined.exists_ofSettings?
  refine ⟨c, ?_, fun f => ?_⟩
  · simp only [ofSources, hlast, ofLayers?, hread, Option.bind_eq_bind, Option.bind_some, hc]
  · rw [hget, hgiven, List.reverse_concat, List.findSome?_cons, hfile, hvariable]
    cases F.variableValue? environment f <;> rfl

end Documented

/-- The configuration of the default files and the variables, and that of one file and the
variables. Each field on its own has the value of the last source that sets it: of the
variables, else of the file, the local one before the other, else its default. Names that
are no section and no field do no harm. -/
theorem load_eq_layers (F : Figment) (hF : F.Documented) :
    (∀ (directory : String → Option String) (environment : List (String × String)),
      F.FileFits (directory "databag.toml") → F.FileFits (directory "databag.local.toml") →
      (∀ v ∈ environment, F.VariableFits v) →
      ∃ c, F.load directory environment = .ok c ∧ ∀ f : Field, f.get c =
        ((F.variableValue? environment f).or
          ((F.fileValue? (directory "databag.local.toml") f).or
            (F.fileValue? (directory "databag.toml") f))).getD f.default) ∧
    (∀ (directory : String → Option String) (file : String)
        (environment : List (String × String)),
      F.FileFits (directory file) → (∀ v ∈ environment, F.VariableFits v) →
      ∃ c, F.loadFile directory file environment = .ok c ∧ ∀ f : Field, f.get c =
        ((F.variableValue? environment f).or (F.fileValue? (directory file) f)).getD
          f.default) := by
  constructor
  · intro directory environment hmain hlocal hvariables
    have hfiles : ∀ file ∈ defaultFiles.map directory, F.FileFits file := by
      simpa [defaultFiles] using ⟨hmain, hlocal⟩
    obtain ⟨c, hload, hget⟩ := hF.exists_ofSources hfiles hvariables
    refine ⟨c, hload, fun f => ?_⟩
    rw [hget]
    simp only [defaultFiles, List.map_cons, List.map_nil, List.reverse_cons, List.reverse_nil,
      List.nil_append, List.cons_append, List.findSome?_cons, List.findSome?_nil]
    cases F.fileValue? (directory "databag.local.toml") f <;>
      cases F.fileValue? (directory "databag.toml") f <;> rfl
  · intro directory file environment hfile hvariables
    obtain ⟨c, hload, hget⟩ :=
      hF.exists_ofSources (List.forall_mem_singleton.2 hfile) hvariables
    refine ⟨c, hload, fun f => ?_⟩
    rw [hget, List.reverse_singleton, List.findSome?_singleton]

namespace Layered

/-- A main file. -/
def main : String :=
  "[logging]\nlevel = \"warn\"\n[store]\ninitial_capacity = 64\n"

/-- A local file that sets one field of a section again and the other one anew. -/
def overriding : String :=
  "[logging]\nlevel = \"debug\"\nformat = \"json\"\n"

def directory : String → Option String
  | "databag.toml" => some main
  | "databag.local.toml" => some overriding
  | _ => none

/-- A field, a path that is not known and a variable of something else. -/
def environment : List (String × String) :=
  [("DATABAG_GROUP_BY__DEFAULT_SORT", "true"), ("DATABAG_X__Y", "1"), ("HOME", "/root")]

def mainSettings : Settings :=
  [("logging", .table [("level", .text "warn")]),
    ("store", .table [("initial_capacity", .number 64)])]

def overridingSettings : Settings :=
  [("logging", .table [("level", .text "debug"), ("format", .text "json")])]

set_option maxRecDepth 20000 in
theorem run?_main : Toml.Reading.start.run? (Toml.joinLineBreaks (Toml.dropMark main.toList)) =
    some ⟨⟨.header, [("logging", .table .header [("level", .value (.text "warn"))]),
      ("store", .table .header [("initial_capacity", .value (.number 64))])]⟩, ["store"]⟩ := by
  with_unfolding_all rfl

set_option maxRecDepth 20000 in
theorem run?_overriding :
    Toml.Reading.start.run? (Toml.joinLineBreaks (Toml.dropMark overriding.toList)) =
      some ⟨⟨.header, [("logging", .table .header [("level", .value (.text "debug")),
        ("format", .value (.text "json"))])]⟩, ["logging"]⟩ := by
  with_unfolding_all rfl

theorem file?_main : standard.file? main = some mainSettings := by
  change Toml.parse? main = _
  rw [Toml.parse?, run?_main]
  rfl

theorem file?_overriding : standard.file? overriding = some overridingSettings := by
  change Toml.parse? overriding = _
  rw [Toml.parse?, run?_overriding]
  rfl

theorem wellTyped_main : WellTyped mainSettings where
  sections := fun sec _ h => by cases sec <;> cases h <;> rfl
  fields := fun f _ h => by cases f <;> cases h <;> rfl

theorem wellTyped_overriding : WellTyped overridingSettings where
  sections := fun sec _ h => by cases sec <;> cases h; rfl
  fields := fun f _ h => by cases f <;> cases h <;> rfl

theorem variableName_defaultSort :
    Field.defaultSort.variableName = "DATABAG_GROUP_BY__DEFAULT_SORT" := by
  decide +kernel

theorem value?_true : standard.value? "true" = some (.flag true) := by
  rfl

theorem variableFits_environment : ∀ v ∈ environment, standard.VariableFits v := by
  have hforeign : Foreign ["x", "y"] := by
    refine ⟨List.cons_ne_nil _ _, fun sec => ?_, fun f => ?_⟩
    · cases sec <;> decide
    · cases f <;> decide
  simp only [environment, List.forall_mem_cons]
  refine ⟨?_, ?_, ?_, List.forall_mem_nil _⟩
  · rw [← variableName_defaultSort]
    exact .field .defaultSort value?_true rfl
  · have hpath : standard.path? variableStart variableSeparator "DATABAG_X__Y" =
        some ["x", "y"] := by decide
    have hvalue : standard.value? "1" = some (.number 1) := by rfl
    exact .foreign hpath hforeign hvalue
  · exact .other _ (by decide)

theorem fileFits_main : standard.FileFits (directory "databag.toml") :=
  fileFits_of_file? file?_main wellTyped_main

theorem fileFits_overriding : standard.FileFits (directory "databag.local.toml") :=
  fileFits_of_file? file?_overriding wellTyped_overriding

theorem fileValue?_main (f : Field) :
    standard.fileValue? (directory "databag.toml") f = given? mainSettings f :=
  fileValue?_of_file? file?_main f

theorem fileValue?_overriding (f : Field) :
    standard.fileValue? (directory "databag.local.toml") f = given? overridingSettings f :=
  fileValue?_of_file? file?_overriding f

theorem variableValue?_environment (f : Field) : standard.variableValue? environment f =
    if Field.defaultSort = f then f.read? (.flag true) else none := by
  have hunknown : standard.path? variableStart variableSeparator "DATABAG_X__Y" ≠ some f.path := by
    cases f <;> decide
  have hother : standard.path? variableStart variableSeparator "HOME" ≠ some f.path := by
    cases f <;> decide
  have hsort : standard.ownValue? ("DATABAG_GROUP_BY__DEFAULT_SORT", "true") f =
      if Field.defaultSort = f then f.read? (.flag true) else none := by
    rw [ownValue?, value?_true, ← variableName_defaultSort]
    simp only [documented_standard.variableName_eq_iff, Option.bind_some]
  simp only [variableValue?, environment, List.reverse_cons, List.reverse_nil, List.nil_append,
    List.cons_append, List.findSome?_cons, List.findSome?_nil, hsort,
    documented_standard.ownValue?_of_path?_ne hunknown,
    documented_standard.ownValue?_of_path?_ne hother]
  split <;> simp_all

/-- The level and the format come from the local file, the capacity from the main file, and the
order of groups from a variable. -/
theorem load_overriding :
    Config.load directory environment =
        .ok { level := "debug", format := .json, initialCapacity := 64, defaultSort := true } ∧
      Config.loadFile directory "databag.toml" environment =
        .ok { level := "warn", format := .text, initialCapacity := 64, defaultSort := true } := by
  obtain ⟨hboth, hone⟩ := load_eq_layers standard documented_standard
  obtain ⟨c, hc, hget⟩ := hboth directory environment fileFits_main fileFits_overriding
    variableFits_environment
  obtain ⟨d, hd, hown⟩ := hone directory "databag.toml" environment fileFits_main
    variableFits_environment
  simp only [fileValue?_main, fileValue?_overriding, variableValue?_environment] at hget hown
  rw [Config.load, Config.loadFile, hc, hd]
  refine ⟨congrArg Except.ok (Field.ext_get fun f => ?_),
    congrArg Except.ok (Field.ext_get fun f => ?_)⟩
  · rw [hget]
    cases f <;> rfl
  · rw [hown]
    cases f <;> rfl

end Layered

namespace Cut

/-- A path that is not known, and a string with an escape after one character of two bytes. -/
def broken : String × String :=
  ("DATABAG_X", "\"é\\n\"")

/-- A variable with a path that is not known is not read for a string in it, so that there is no
configuration. -/
theorem loadFile_cut :
    standard.path? variableStart variableSeparator broken.1 = some ["x"] ∧ Foreign ["x"] ∧
      standard.FileFits (some "") ∧
      Config.loadFile (fun _ => some "") "custom.toml" [broken] = .error .brokenCharacter := by
  have hempty : standard.file? "" = some [] := by with_unfolding_all rfl
  have hcut : standard.variables? variableStart variableSeparator [broken] = none := by
    decide +kernel
  refine ⟨by decide, ⟨List.cons_ne_nil _ _, fun sec => ?_, fun f => ?_⟩,
    fileFits_of_file? hempty wellTyped_nil, ?_⟩
  · cases sec <;> decide
  · cases f <;> decide
  · rw [Config.loadFile, loadFile, ofSources, hcut]

end Cut

end Figment

end ObjectGraph
