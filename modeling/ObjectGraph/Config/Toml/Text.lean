import ObjectGraph.Config.Quoted

/-!
# Strings in TOML

Strings in double quotes have escapes, and strings in single quotes have none. Between
three quotes of either kind a string may span several lines. Up to two more quotes
before the closing ones belong to the string, and a line break right after the opening
ones does not. Between three double quotes a backslash at the end of a line takes away
the line break and the blanks and line breaks after it.
-/

namespace ObjectGraph.Toml

def isBlank (c : Char) : Bool :=
  c == ' ' || c == '\t'

def skipBlank (cs : List Char) : List Char :=
  cs.dropWhile isBlank

/-- The rest of a string after its opening single quote, and what follows it. -/
def literal? (cs : List Char) : Option (List Char × List Char) :=
  let s := cs.takeWhile (· != '\'')
  match cs.drop s.length with
  | _ :: rest => if s.any Quoted.isControl then none else some (s, rest)
  | [] => none

/-- The quotes that still belong to a long string where three quotes or more end it,
and what follows it. -/
def closing? (quote : Char) (cs : List Char) : Option (List Char × List Char) :=
  let count := min 5 (cs.takeWhile (· == quote)).length
  if 3 ≤ count then some (List.replicate (count - 3) quote, cs.drop count) else none

/-- What stands before the closing quotes, and what follows them. -/
def longBody? (quote : Char) (escapes : Bool) : List Char → Option (List Char × List Char)
  | [] | [_] => none
  | c :: d :: rest =>
    if escapes && c == '\\' then
      (longBody? quote escapes rest).map fun (body, rest) => (c :: d :: body, rest)
    else
      match closing? quote (c :: d :: rest) with
      | some closed => some closed
      | none => (longBody? quote escapes (d :: rest)).map fun (body, rest) => (c :: body, rest)

/-- The text without a line break in front. -/
def dropLineBreak : List Char → List Char
  | '\n' :: rest => rest
  | rest => rest

/-- The rest of a string after three single quotes, and what follows it. -/
def longLiteral? (cs : List Char) : Option (List Char × List Char) := do
  let (s, rest) ← longBody? '\'' false (dropLineBreak cs)
  if s.any fun c => Quoted.isControl c && c != '\n' then none else some (s, rest)

/-- What a backslash at the end of a line has done so far. -/
inductive Joining where
  /-- There is none. -/
  | idle
  /-- The line break is still to come. -/
  | begun
  /-- Blanks and line breaks are left out. -/
  | joined

/-- Carries out the backslashes at line ends. The other line breaks become escapes. -/
def joinLines? : Joining → List Char → Option (List Char)
  | .begun, [] => none
  | _, [] => some []
  | .begun, c :: cs =>
    if isBlank c then joinLines? .begun cs
    else if c == '\n' then joinLines? .joined cs
    else none
  | .idle, '\n' :: cs => (joinLines? .idle cs).map fun s => '\\' :: 'n' :: s
  | _, '\\' :: c :: cs =>
    if isBlank c then joinLines? .begun cs
    else if c == '\n' then joinLines? .joined cs
    else (joinLines? .idle cs).map fun s => '\\' :: c :: s
  | .idle, c :: cs => (joinLines? .idle cs).map (c :: ·)
  | .joined, c :: cs =>
    if isBlank c || c == '\n' then joinLines? .joined cs
    else (joinLines? .idle cs).map (c :: ·)

/-- The rest of a string after three double quotes, and what follows it. -/
def longQuoted? (cs : List Char) : Option (List Char × List Char) := do
  let (body, rest) ← longBody? '"' true (dropLineBreak cs)
  return (← Quoted.unescape? (← joinLines? .idle body), rest)

/-- A string, and what follows it. -/
def text? : List Char → Option (List Char × List Char)
  | '"' :: '"' :: '"' :: rest => longQuoted? rest
  | '"' :: rest => Quoted.read? rest
  | '\'' :: '\'' :: '\'' :: rest => longLiteral? rest
  | '\'' :: rest => literal? rest
  | _ => none

end ObjectGraph.Toml
