/-!
# Trees of settings

Settings come in layers: files and variables, each of which sets some names. A
layer is a table of named values, in which a section is a table of its own.
-/

namespace ObjectGraph

/-- A value in a layer. -/
inductive Setting where
  | flag (value : Bool)
  | number (value : Int)
  /-- A number with a fractional part or an exponent. -/
  | real
  | text (value : String)
  | list (items : List Setting)
  | table (entries : List (String × Setting))

/-- Named values. -/
abbrev Settings := List (String × Setting)

namespace Setting

/-- Changes the value of a name in place, or adds it at the end. -/
def put {α : Type} (key : String) (value : α) : List (String × α) → List (String × α)
  | [] => [(key, value)]
  | e :: entries => if e.1 = key then (key, value) :: entries else e :: put key value entries

/-- The value that has the given path in a table. -/
def nest : List String → Setting → Setting
  | [], value => value
  | key :: path, value => .table [(key, nest path value)]

/-- The value at a path. -/
def at? : List String → Setting → Option Setting
  | [], s => some s
  | key :: path, .table entries => (entries.lookup key).bind (at? path)
  | _ :: _, _ => none

def isTable : Setting → Bool
  | table _ => true
  | _ => false

/-- The values of the fields of a section, which is a table of them or a list of them
in order. What else is there does no harm. -/
def fields? (names : List String) : Setting → Option (List (Option Setting))
  | table entries => some (names.map fun name => entries.lookup name)
  | list items => some ((List.range names.length).map fun i => items[i]?)
  | _ => none

end Setting

end ObjectGraph
