import ObjectGraph.Config.Overlay
import ObjectGraph.Config.Quoted

/-!
# Variables

A variable sets one path: its own name, without what the names of all variables begin
with and in lower case, cut where a dot or a given separator stands.
Its text is read as a value: a truth value, a number, a quoted string or character,
a list in brackets or a table in braces. A text that is not the form of one value
as a whole stands for itself, and so does any other text, without the blanks around
it.

A quoted string is kept up to its first escape by counting: as many bytes are kept
as there are characters. Beyond ASCII that is less than all of them, and there is no
value if the count ends inside a character.
-/

namespace ObjectGraph.Variable

/-- The characters that count as blank. -/
def isBlank (c : Char) : Bool :=
  let n := c.toNat
  (9 ≤ n && n ≤ 13) || n == 0x20 || n == 0x85 || n == 0xa0 || n == 0x1680 ||
    (0x2000 ≤ n && n ≤ 0x200a) || n == 0x2028 || n == 0x2029 || n == 0x202f ||
    n == 0x205f || n == 0x3000

def trim (cs : List Char) : List Char :=
  ((cs.dropWhile isBlank).reverse.dropWhile isBlank).reverse

/-- Cuts a name at dots and separators. The part read so far is carried in reverse, with the
number of characters that are left of a separator. -/
def splitName (separator : List Char) : Nat → (part : List Char) → List Char → List String
  | _, part, [] => [String.ofList part.reverse]
  | rest + 1, part, _ :: cs => splitName separator rest part cs
  | 0, part, c :: cs =>
    if c = '.' then String.ofList part.reverse :: splitName separator 0 [] cs
    else if separator.isPrefixOf (c :: cs) then
      String.ofList part.reverse :: splitName separator (separator.length - 1) [] cs
    else splitName separator 0 (c :: part) cs

/-- The path a variable sets, if its name begins with `start`. No part of a path is empty. -/
def path? (start separator name : String) : Option (List String) :=
  let start := start.toList.map Char.toLower
  let name := trim (name.toList.map Char.toLower)
  let path := splitName separator.toList 0 [] (trim (name.drop start.length))
  if start.isPrefixOf name && path.all (· != "") then some path else none

/-- Why a text is not read as a value. -/
inductive Misread where
  /-- It does not have the form of a value. -/
  | malformed
  /-- What is kept of a string ends inside a character. -/
  | brokenCharacter
deriving DecidableEq

/-- The characters that fill the first `count` bytes of a text, if they end there. -/
def keepBytes? : Nat → List Char → Option (List Char)
  | 0, _ => some []
  | _, [] => some []
  | count, c :: cs =>
    if c.utf8Size ≤ count then (keepBytes? (count - c.utf8Size) cs).map (c :: ·) else none

/-- What a body stands for in which the first escape comes after `before`. -/
def unescape (before escaped : List Char) : Except Misread (List Char) :=
  if before.any Quoted.isControl then .error .malformed
  else if escaped.isEmpty then .ok before
  else
    match keepBytes? before.length before, Quoted.unescape? escaped with
    | none, _ => .error .brokenCharacter
    | some _, none => .error .malformed
    | some kept, some s => .ok (kept ++ s)

/-- The string after an opening quote, and what follows it. -/
def quoted (cs : List Char) : Except Misread (String × List Char) :=
  match Quoted.body? cs with
  | none => .error .malformed
  | some (body, rest) => do
    let s ← unescape (body.takeWhile (· != '\\')) (body.dropWhile (· != '\\'))
    return (String.ofList s, rest)

/-- The blanks that may stand around a value. -/
def isSpace (c : Char) : Bool :=
  c == ' ' || c == '\t' || c == '\n' || c == '\x0c' || c == '\r'

def skipSpace (cs : List Char) : List Char :=
  cs.dropWhile isSpace

def isDigits (cs : List Char) : Bool :=
  !cs.isEmpty && cs.all Char.isDigit

def dropSign : List Char → List Char
  | '-' :: rest => rest
  | '+' :: rest => rest
  | rest => rest

/-- Whether a text with a point in it is a number. -/
def isReal (cs : List Char) : Bool :=
  let isExponent (c : Char) : Bool := c == 'e' || c == 'E'
  let number := dropSign cs
  let mantissa := number.takeWhile fun c => !isExponent c
  let exponentOk :=
    match number.drop mantissa.length with
    | [] => true
    | _ :: exponent => isDigits (dropSign exponent)
  (mantissa.filter (· == '.')).length ≤ 1 && isDigits (mantissa.filter (· != '.')) && exponentOk

/-- An integer of 64 bits, with or without a sign. -/
def integer? (cs : List Char) : Option Int :=
  if isDigits (dropSign cs) then
    let magnitude := (dropSign cs).foldl (fun n c => n * 10 + (c.toNat - '0'.toNat)) 0
    let n : Int := if cs.head? = some '-' then -magnitude else magnitude
    if Int64.minValue.toInt ≤ n ∧ n < UInt64.size then some n else none
  else none

/-- A text without quotes is a number if it looks like one. -/
def word (cs : List Char) : Setting :=
  if cs.contains '.' && isReal cs then .real
  else
    match integer? cs with
    | some n => .number n
    | none => .text (String.ofList cs)

/-- The characters that end a text without quotes. -/
def isSeparator (c : Char) : Bool :=
  c == ',' || c == '\x7b' || c == '\x7d' || c == '[' || c == ']'

def isKeyChar (c : Char) : Bool :=
  c.isAlphanum || c == '_' || c == '-'

/-- The key of an entry of a table, and what follows it. -/
def key : List Char → Except Misread (String × List Char)
  | '"' :: rest => quoted rest
  | cs =>
    match cs.takeWhile isKeyChar with
    | [] => .error .malformed
    | key => .ok (String.ofList key, cs.dropWhile isKeyChar)

mutual

/-- A value with the blanks around it, and what follows. -/
def value : Nat → List Char → Except Misread (Setting × List Char)
  | 0, _ => .error .malformed
  | depth + 1, cs =>
    let read : Except Misread (Setting × List Char) :=
      match skipSpace cs with
      | 't' :: 'r' :: 'u' :: 'e' :: rest => .ok (.flag true, rest)
      | 'f' :: 'a' :: 'l' :: 's' :: 'e' :: rest => .ok (.flag false, rest)
      | '"' :: rest => (quoted rest).map fun (s, rest) => (.text s, rest)
      | '\'' :: c :: '\'' :: rest => .ok (.text (String.singleton c), rest)
      | '\'' :: _ => .error .malformed
      | '[' :: rest => (items depth rest).map fun (values, rest) => (.list values, rest)
      | '\x7b' :: rest => (entries depth rest).map fun (pairs, rest) =>
        (.table (pairs.foldl (fun t e => Setting.put e.1 e.2 t) []), rest)
      | cs =>
        .ok (word (trim (cs.takeWhile fun c => !isSeparator c)),
          cs.dropWhile fun c => !isSeparator c)
    read.map fun (v, rest) => (v, skipSpace rest)

/-- The items of a list up to its end, and what follows it. A comma may stand after
the last one. -/
def items : Nat → List Char → Except Misread (List Setting × List Char)
  | 0, _ => .error .malformed
  | _ + 1, ']' :: rest => .ok ([], rest)
  | depth + 1, cs => do
    let (v, rest) ← value depth cs
    match rest with
    | ',' :: rest => do
      let (vs, rest) ← items depth rest
      return (v :: vs, rest)
    | ']' :: rest => return ([v], rest)
    | _ => .error .malformed

/-- The entries of a table up to its end, and what follows it. A comma may stand after
the last one. -/
def entries : Nat → List Char → Except Misread (Settings × List Char)
  | 0, _ => .error .malformed
  | _ + 1, '\x7d' :: rest => .ok ([], rest)
  | depth + 1, cs => do
    let (k, rest) ← key (skipSpace cs)
    match skipSpace rest with
    | '=' :: rest => do
      let (v, rest) ← value depth rest
      match rest with
      | ',' :: rest => do
        let (es, rest) ← entries depth rest
        return ((k, v) :: es, rest)
      | '\x7d' :: rest => return ([(k, v)], rest)
      | _ => .error .malformed
    | _ => .error .malformed

end

/-- The value of a text, unless a string in it ends inside a character. The bound is
enough, because every two calls take up a character. -/
def setting? (s : String) : Option Setting :=
  match value (2 * s.length + 2) s.toList with
  | .ok (v, []) => some v
  | .error .brokenCharacter => none
  | _ => some (.text s)

/-- Puts the setting of a variable over the settings so far. -/
def put? (start separator : String) (all : Settings) (v : String × String) : Option Settings :=
  match path? start separator v.1 with
  | none => some all
  | some path => do
    match Setting.nest path (← setting? v.2) with
    | .table entries => return Setting.overlayTable entries all
    | _ => return all

/-- The settings of the variables, later ones over earlier ones. -/
def settings? (start separator : String) (environment : List (String × String)) :
    Option Settings :=
  environment.foldlM (put? start separator) []

end ObjectGraph.Variable
