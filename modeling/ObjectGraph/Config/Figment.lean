import ObjectGraph.Config.Basic
import ObjectGraph.Config.Setting

/-!
# Loading a configuration

Settings of files and variables are put over each other, the variables last, and the
configuration is read from the result. A setting has the type of its field; what is not
set keeps its default, and names that are not fields do no harm. A file that is not there
sets nothing.

How the text of a file or of a variable is read and how settings are put over each other
is left to a library, `Figment`, so that `Figment.load` is what the engine does with any.
-/

namespace ObjectGraph

/-- A library that reads settings and puts them over each other. -/
structure Figment where
  /-- The settings of the text of a file, none if it is not well formed. -/
  file? : (text : String) → Option Settings
  /-- The path that the name of a variable sets. The name begins with `start`, and `separator`
  stands between the parts of the path. Other variables set nothing. -/
  path? : (start separator name : String) → Option (List String)
  /-- The setting that the text of a variable stands for, none if it cannot be read. -/
  value? : (text : String) → Option Setting
  /-- The settings of all variables, none if the text of one of them cannot be read. -/
  variables? : (start separator : String) → (environment : List (String × String)) →
    Option Settings
  /-- Settings put over earlier ones. -/
  merge : (later earlier : Settings) → Settings

namespace Config

/-- Why there is no configuration. -/
inductive LoadError where
  /-- A file is not well formed or a setting does not have the type of its field. -/
  | malformed
  /-- A variable has a string that is cut inside a character. -/
  | brokenCharacter
deriving DecidableEq

/-- The values of the fields of a section, all absent if it is not set. -/
def section? (names : List String) : Option Setting → Option (List (Option Setting))
  | none => some (names.map fun _ => none)
  | some s => s.fields? names

/-- The value of a field, the default if it is not set. -/
def field? {α : Type} (default : α) (read : Setting → Option α) : Option Setting → Option α
  | none => some default
  | some s => read s

def readText? : Setting → Option String
  | .text s => some s
  | _ => none

def readFormat? (s : Setting) : Option LogFormat :=
  (readText? s).bind LogFormat.ofName?

def readCapacity? : Setting → Option UInt64
  | .number n => if 0 ≤ n ∧ n < UInt64.size then some (.ofInt n) else none
  | _ => none

def readFlag? : Setting → Option Bool
  | .flag b => some b
  | _ => none

/-- The configuration with the given settings. -/
def ofSettings? (settings : Settings) : Option Config := do
  let default : Config := {}
  let [level, format] ← section? ["level", "format"] (settings.lookup "logging") | none
  let [initialCapacity] ← section? ["initial_capacity"] (settings.lookup "store") | none
  let [defaultSort] ← section? ["default_sort"] (settings.lookup "group_by") | none
  return {
    level := ← field? default.level readText? level
    format := ← field? default.format readFormat? format
    initialCapacity := ← field? default.initialCapacity readCapacity? initialCapacity
    defaultSort := ← field? default.defaultSort readFlag? defaultSort }

/-- What the names of all variables of the engine begin with. -/
def variableStart : String := "DATABAG_"

/-- What separates a section from a field in the name of a variable. -/
def variableSeparator : String := "__"

/-- The files of the default configuration, in ascending priority. -/
def defaultFiles : List String :=
  ["databag.toml", "databag.local.toml"]

end Config

namespace Figment

open Config

variable (F : Figment)

/-- The settings of a file, none if it is not there. -/
def fileSettings? : Option String → Option Settings
  | none => some []
  | some text => F.file? text

/-- Puts layers over each other, the later over the earlier. -/
def combine (layers : List Settings) : Settings :=
  layers.foldl (fun all layer => F.merge layer all) []

/-- The configuration of files, in ascending priority, and of the settings of
variables. -/
def ofLayers? (files : List (Option String)) (last : Settings) : Option Config := do
  let layers ← files.mapM F.fileSettings?
  ofSettings? (F.combine (layers ++ [last]))

/-- The configuration of files, in ascending priority, and variables. -/
def ofSources (files : List (Option String)) (environment : List (String × String)) :
    Except LoadError Config :=
  match F.variables? variableStart variableSeparator environment with
  | none => .error .brokenCharacter
  | some last =>
    match F.ofLayers? files last with
    | none => .error .malformed
    | some c => .ok c

/-- Loads the default configuration from a directory. -/
def load (directory : String → Option String) (environment : List (String × String)) :
    Except LoadError Config :=
  F.ofSources (defaultFiles.map directory) environment

/-- Loads the configuration of one file. -/
def loadFile (directory : String → Option String) (file : String)
    (environment : List (String × String)) : Except LoadError Config :=
  F.ofSources [directory file] environment

end Figment

end ObjectGraph
