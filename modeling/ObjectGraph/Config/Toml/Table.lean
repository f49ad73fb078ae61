import ObjectGraph.Config.Setting

/-!
# Tables of a TOML file

A table comes up in one of three ways: it has a header or braces of its own, it is a
part of the path of a longer header, or it is a part of a dotted key. No table has two
headers, a header may add to a table that only longer headers have made, and a dotted
key to tables that do not have a header. Values in brackets or braces are complete and
take nothing more. Headers in two brackets make the tables of a list, and a path that
leads to the list means its last table.

In every table but the one of the whole file two names are reserved. A table that has an
entry under `valueKey` is only the wrapping of the value there, and none may have an
entry under `tagKey`.

`Table.within` changes the table at the end of a path. The path is taken part by part,
and the tables that are not there come up on the way.
-/

namespace ObjectGraph.Toml

/-- A table is named by its path. -/
abbrev Path := List String

/-- How a table came up. -/
inductive Origin where
  /-- By a longer header. -/
  | path
  /-- By a header or braces of its own, or as the whole file. -/
  | header
  /-- By a dotted key. -/
  | key
deriving DecidableEq

/-- What a name stands for. -/
inductive Node where
  | value (value : Setting)
  | table (origin : Origin) (entries : List (String × Node))
  /-- A list of tables, the last one first. -/
  | tables (items : List (List (String × Node)))

/-- A table that is not complete yet. -/
structure Table where
  origin : Origin
  entries : List (String × Node)

/-- The name under which a table holds the value that it stands for. -/
def valueKey : String := "___figment_value_value"

/-- The name that is kept for tags, which a file cannot write. -/
def tagKey : String := "___figment_value_id"

/-- What a table with the given entries stands for, unless it has a tag. -/
def unwrap? (entries : Settings) : Option Setting :=
  if (entries.lookup tagKey).isSome then none
  else some ((entries.lookup valueKey).getD (.table entries))

namespace Node

mutual

/-- The setting that a name stands for when the file has been read. -/
def setting? : Node → Option Setting
  | value v => some v
  | table _ entries => (settings? entries).bind unwrap?
  | tables items => (rows? items).map fun rows => .list rows.reverse

def settings? : List (String × Node) → Option Settings
  | [] => some []
  | (key, node) :: entries => do
    let v ← node.setting?
    return (key, v) :: (← settings? entries)

def rows? : List (List (String × Node)) → Option (List Setting)
  | [] => some []
  | entries :: items => do
    let v ← (settings? entries).bind unwrap?
    return v :: (← rows? items)

end

end Node

namespace Table

def empty : Table :=
  ⟨.header, []⟩

/-- The entries as settings. -/
def settings? (t : Table) : Option Settings :=
  Node.settings? t.entries

def node (t : Table) : Node :=
  .table t.origin t.entries

def put (t : Table) (key : String) (node : Node) : Table :=
  { t with entries := Setting.put key node t.entries }

/-- Changes the table below `t` that the parts of a header or of a dotted key lead to. -/
def within (dotted : Bool) (change : Table → Option Table) : Path → Table → Option Table
  | [], t => change t
  | key :: path, t =>
    let next (sub : Table) := within dotted change path sub
    match t.entries.lookup key with
    | none => (next ⟨if dotted then .key else .path, []⟩).map fun sub => t.put key sub.node
    | some (.table origin entries) =>
      if dotted ∧ origin = .header then none
      else (next ⟨origin, entries⟩).map fun sub => t.put key sub.node
    | some (.tables (last :: before)) =>
      (next ⟨.header, last⟩).map fun sub => t.put key (.tables (sub.entries :: before))
    | some _ => none

/-- Adds an entry under a name that is free. -/
def add? (t : Table) (key : String) (node : Node) : Option Table :=
  if (t.entries.lookup key).isNone then some (t.put key node) else none

/-- Sets a key. Of a dotted one the last table must have come up by dotted keys too. -/
def insert? (t : Table) (path : Path) (value : Setting) : Option Table := do
  let last ← path.getLast?
  let isDotted := path.length ≠ 1
  t.within true (fun sub =>
    if isDotted ∧ sub.origin ≠ .key then none else sub.add? last (.value value)) path.dropLast

/-- Opens a table by a header. -/
def openTable? (t : Table) (path : Path) : Option Table := do
  let last ← path.getLast?
  t.within false (fun sub =>
    match sub.entries.lookup last with
    | none => some (sub.put last (.table .header []))
    | some (.table .path entries) => some (sub.put last (.table .header entries))
    | some _ => none) path.dropLast

/-- Opens one more table of a list. -/
def openRow? (t : Table) (path : Path) : Option Table := do
  let last ← path.getLast?
  t.within false (fun sub =>
    match sub.entries.lookup last with
    | none => some (sub.put last (.tables [[]]))
    | some (.tables items) => some (sub.put last (.tables ([] :: items)))
    | some _ => none) path.dropLast

end Table

end ObjectGraph.Toml
