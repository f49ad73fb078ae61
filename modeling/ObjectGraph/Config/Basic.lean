/-!
# Configurations

The settings of the engine, each with a default, and the section and name under
which a setting is written.
-/

namespace ObjectGraph

/-- How log lines are written. -/
inductive LogFormat where
  | text
  | json
deriving DecidableEq

namespace LogFormat

def name : LogFormat → String
  | text => "text"
  | json => "json"

/-- The format with the given name, which is written in lower case. -/
def ofName? (s : String) : Option LogFormat :=
  [text, json].find? fun f => f.name == s

theorem ofName?_name (f : LogFormat) : ofName? f.name = some f := by
  cases f <;> rfl

end LogFormat

/-- The settings of the engine. -/
structure Config where
  /-- The level or the filter of log lines. -/
  level : String := "info"
  format : LogFormat := .text
  /-- The capacity that the tables of new bags start with. -/
  initialCapacity : UInt64 := 0
  /-- Whether distinct values are sorted when the caller does not say. -/
  defaultSort : Bool := false
deriving DecidableEq

end ObjectGraph
