import ObjectGraph.Config.Toml.Value

/-!
# TOML files

A TOML file is a sequence of statements, each of which ends its line: a header opens a
table, or one more table of a list, and a pair sets a key of the table that was opened
last. `parse?` gives the settings of a file.
-/

namespace ObjectGraph.Toml

/-- What stands on a line that is not blank. -/
inductive Statement where
  | table (path : Path)
  | row (path : Path)
  | pair (path : Path) (value : Setting)

/-- The statement at the start of a text, and what follows it. -/
def statement? : List Char → Option (Statement × List Char)
  | '[' :: '[' :: rest =>
    match path? rest with
    | some (path, ']' :: ']' :: rest) => some (.row path, rest)
    | _ => none
  | '[' :: rest =>
    match path? rest with
    | some (path, ']' :: rest) => some (.table path, rest)
    | _ => none
  | cs =>
    match path? cs with
    | some (path, '=' :: rest) =>
      (value? maxDepth (skipBlank rest)).map fun (v, rest) => (.pair path v, rest)
    | _ => none

/-- What follows the end of a line. Blanks and a comment may stand before it. -/
def afterLine? (cs : List Char) : Option (List Char) :=
  match skipBlank cs with
  | [] => some []
  | '\n' :: rest => some rest
  | '#' :: rest => skipGap? true rest
  | _ => none

/-- What the statements so far have set. -/
structure Reading where
  root : Table
  /-- The table that pairs go to. -/
  current : Path

namespace Reading

def start : Reading :=
  ⟨.empty, []⟩

/-- Takes up one statement. -/
def take? (r : Reading) : Statement → Option Reading
  | .table path => (r.root.openTable? path).map fun root => ⟨root, path⟩
  | .row path => (r.root.openRow? path).map fun root => ⟨root, path⟩
  | .pair path value =>
    (r.root.within false (fun t => t.insert? path value) r.current).map fun root =>
      ⟨root, r.current⟩

/-- Takes up all statements of a text. -/
def run? (r : Reading) (cs : List Char) : Option Reading :=
  match skipGap? false cs with
  | none => none
  | some [] => some r
  | some start =>
    match statement? start with
    | none => none
    | some (s, rest) =>
      match r.take? s, afterLine? rest with
      | some r, some more => if _ : more.length < cs.length then run? r more else none
      | _, _ => none
termination_by cs.length

end Reading

/-- The text without a byte order mark in front. -/
def dropMark : List Char → List Char
  | '\ufeff' :: rest => rest
  | cs => cs

/-- The text with every line break as one character. -/
def joinLineBreaks : List Char → List Char
  | '\r' :: '\n' :: rest => '\n' :: joinLineBreaks rest
  | c :: rest => c :: joinLineBreaks rest
  | [] => []

/-- The settings of a file. -/
def parse? (text : String) : Option Settings :=
  (Reading.start.run? (joinLineBreaks (dropMark text.toList))).bind fun r => r.root.settings?

end ObjectGraph.Toml
