import ObjectGraph.Config.Figment
import ObjectGraph.Config.Toml.Document
import ObjectGraph.Config.Variable

/-!
# The library that the engine loads with

Files are in TOML, variables are read by the rules of `Variable`, and merging is deep: a
table over a table is put over it name by name, so that it hides no more than the names
it sets.
-/

namespace ObjectGraph

/-- The readers of files and variables, with deep merging. -/
def Figment.standard : Figment where
  file? := Toml.parse?
  path? := Variable.path?
  value? := Variable.setting?
  variables? := Variable.settings?
  merge := Setting.overlayTable

namespace Config

/-- Loads the default configuration from a directory. -/
def load : (directory : String → Option String) → (environment : List (String × String)) →
    Except LoadError Config :=
  Figment.standard.load

/-- Loads the configuration of one file. -/
def loadFile : (directory : String → Option String) → (file : String) →
    (environment : List (String × String)) → Except LoadError Config :=
  Figment.standard.loadFile

end Config

end ObjectGraph
