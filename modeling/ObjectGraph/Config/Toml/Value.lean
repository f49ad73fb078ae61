import ObjectGraph.Config.Toml.Moment
import ObjectGraph.Config.Toml.Number
import ObjectGraph.Config.Toml.Table
import ObjectGraph.Config.Toml.Text

/-!
# Keys and values in TOML

Every reader takes the text from some place on and returns what it has read together
with the text behind it. A value is a string, a word (a truth value, a number or a
moment), a list in brackets, which may span several lines, or a table in braces, which
may not. How deep lists and tables are nested and how many parts a key has is limited.
-/

namespace ObjectGraph.Toml

/-- What follows blanks, line breaks and comments. -/
def skipGap? (inComment : Bool) : List Char → Option (List Char)
  | [] => some []
  | c :: rest =>
    if c == '\n' then skipGap? false rest
    else if inComment then if Quoted.isControl c then none else skipGap? true rest
    else if isBlank c then skipGap? false rest
    else if c == '#' then skipGap? true rest
    else some (c :: rest)

def isBareKeyChar (c : Char) : Bool :=
  c.isAlphanum || c == '_' || c == '-'

/-- One part of a key. -/
def keyPart? : List Char → Option (List Char × List Char)
  | '"' :: rest => Quoted.read? rest
  | '\'' :: rest => literal? rest
  | cs =>
    match cs.takeWhile isBareKeyChar with
    | [] => none
    | part => some (part, cs.dropWhile isBareKeyChar)

/-- A key of parts joined by dots, with blanks around it. -/
def key? (cs : List Char) : Option (Path × List Char) :=
  match keyPart? (skipBlank cs) with
  | none => none
  | some (part, rest) =>
    match skipBlank rest with
    | '.' :: more =>
      if _ : more.length < cs.length then
        (key? more).map fun (path, rest) => (String.ofList part :: path, rest)
      else none
    | rest => some ([String.ofList part], rest)
termination_by cs.length

/-- The most parts of a key, and the most lists and tables inside each other. -/
def maxDepth : Nat := 79

/-- A key that does not have too many parts. -/
def path? (cs : List Char) : Option (Path × List Char) :=
  (key? cs).filter fun read => read.1.length ≤ maxDepth

/-- The value of a word. A moment counts as a section that sets nothing. -/
def word? (cs : List Char) : Option Setting :=
  if cs = "true".toList then some (.flag true)
  else if cs = "false".toList then some (.flag false)
  else if isMoment cs then some (.table [])
  else
    match integer? cs with
    | some n => some (.number n)
    | none => if isReal cs then some .real else none

/-- The characters of a word. -/
def isWordChar (c : Char) : Bool :=
  !(isBlank c || c == '\n' || c == '#' || c == ',' || c == ']' || c == '\x7d')

/-- What follows the time of day behind a date and a blank. -/
def afterTimeOfDay (cs : List Char) : List Char :=
  match cs with
  | ' ' :: more =>
    if isTimeWithOffset (more.takeWhile isWordChar) then more.dropWhile isWordChar else cs
  | _ => cs

/-- A value that is not a list or a table. -/
def single? (cs : List Char) : Option (Setting × List Char) :=
  match text? cs with
  | some (s, rest) => some (.text (String.ofList s), rest)
  | none =>
    let word := cs.takeWhile isWordChar
    let rest := cs.dropWhile isWordChar
    (word? word).map fun v => (v, if isDate word then afterTimeOfDay rest else rest)

/-- A reader of values. -/
abbrev Reader := List Char → Option (Setting × List Char)

/-- The items of a list up to its end. A comma may stand after the last one. -/
def items? (read : Reader) (cs : List Char) : Option (List Setting × List Char) :=
  match skipGap? false cs with
  | none => none
  | some (']' :: rest) => some ([], rest)
  | some start =>
    match read start with
    | none => none
    | some (v, rest) =>
      match skipGap? false rest with
      | some (',' :: more) =>
        if _ : more.length < cs.length then
          (items? read more).map fun (vs, rest) => (v :: vs, rest)
        else none
      | some (']' :: more) => some ([v], more)
      | _ => none
termination_by cs.length

/-- The entries of a table in braces up to its end. No comma may stand after the last
one. -/
def entries? (read : Reader) (t : Table) (cs : List Char) : Option (Table × List Char) :=
  match path? cs with
  | some (path, '=' :: rest) =>
    match read (skipBlank rest) with
    | none => none
    | some (v, rest) =>
      match t.insert? path v with
      | none => none
      | some t =>
        match skipBlank rest with
        | ',' :: more => if _ : more.length < cs.length then entries? read t more else none
        | '\x7d' :: more => some (t, more)
        | _ => none
  | _ => none
termination_by cs.length

/-- A table in braces up to its end. -/
def braces? (read : Reader) (cs : List Char) : Option (Setting × List Char) :=
  match skipBlank cs with
  | '\x7d' :: rest => some (.table [], rest)
  | _ => do
    let (t, rest) ← entries? read .empty cs
    return (← t.node.setting?, rest)

/-- A value in which lists and tables are nested up to a depth. -/
def value? : Nat → Reader
  | depth + 1, '[' :: rest =>
    (items? (value? depth) rest).map fun (values, rest) => (.list values, rest)
  | depth + 1, '\x7b' :: rest => braces? (value? depth) rest
  | _, cs => single? cs

end ObjectGraph.Toml
