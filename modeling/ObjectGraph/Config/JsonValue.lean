/-!
# JSON

JSON values, their compact text and the reader of JSON texts. A number is kept as
it is written, so that no digit is lost. A string may hold half of a surrogate
pair, which is not a character; such a string is well formed, but its value is
unknown.

The reader is a recursive descent over the characters. Its first argument bounds the
depth of the recursion and is chosen from the length of the text, which is enough
because every two calls take up a character.
-/

namespace ObjectGraph

/-- The value of a JSON string, unknown if half of a surrogate pair is in it. -/
abbrev JsonText := Option String

/-- A JSON value. -/
inductive JsonValue where
  | null
  | bool (value : Bool)
  | number (literal : String)
  | text (value : JsonText)
  | array (items : List JsonValue)
  | object (members : List (JsonText × JsonValue))

namespace JsonValue

/-- The four digits of an escaped code unit. -/
def unitDigits (n : Nat) : List Char :=
  [Nat.digitChar (n / 4096 % 16), Nat.digitChar (n / 256 % 16), Nat.digitChar (n / 16 % 16),
    Nat.digitChar (n % 16)]

/-- The form of a character in a string. Quotes, backslashes and control characters
are escaped. -/
def escapeChar (c : Char) : List Char :=
  if c = '"' then ['\\', '"']
  else if c = '\\' then ['\\', '\\']
  else if c = '\x08' then ['\\', 'b']
  else if c = '\x0c' then ['\\', 'f']
  else if c = '\n' then ['\\', 'n']
  else if c = '\r' then ['\\', 'r']
  else if c = '\t' then ['\\', 't']
  else if c < ' ' then '\\' :: 'u' :: unitDigits c.toNat
  else [c]

/-- A string in quotes. Half of a pair stands for an unknown string. -/
def renderText : JsonText → List Char
  | some s => '"' :: s.toList.flatMap escapeChar ++ ['"']
  | none => "\"\\ud800\"".toList

mutual

/-- The compact text of a value. -/
def renderChars : JsonValue → List Char
  | null => "null".toList
  | bool b => if b then "true".toList else "false".toList
  | number literal => literal.toList
  | text s => renderText s
  | array [] => ['[', ']']
  | array (item :: items) => '[' :: renderChars item ++ renderItems items
  | object [] => ['\x7b', '\x7d']
  | object ((key, value) :: members) =>
    '\x7b' :: renderText key ++ ':' :: renderChars value ++ renderMembers members

/-- The items after the first one, and the end of the array. -/
def renderItems : List JsonValue → List Char
  | [] => [']']
  | item :: items => ',' :: renderChars item ++ renderItems items

/-- The members after the first one, and the end of the object. -/
def renderMembers : List (JsonText × JsonValue) → List Char
  | [] => ['\x7d']
  | (key, value) :: members =>
    ',' :: renderText key ++ ':' :: renderChars value ++ renderMembers members

end

/-- The compact text of a value. -/
def render (v : JsonValue) : String :=
  String.ofList v.renderChars

def isBlank (c : Char) : Bool :=
  c == ' ' || c == '\t' || c == '\n' || c == '\r'

def skipBlank (cs : List Char) : List Char :=
  cs.dropWhile isBlank

/-- The value of a hexadecimal digit in either case. -/
def hexDigit? (c : Char) : Option Nat :=
  if '0' ≤ c ∧ c ≤ '9' then some (c.toNat - '0'.toNat)
  else if 'a' ≤ c ∧ c ≤ 'f' then some (c.toNat - 'a'.toNat + 10)
  else if 'A' ≤ c ∧ c ≤ 'F' then some (c.toNat - 'A'.toNat + 10)
  else none

/-- The code unit of four digits. -/
def unit? (a b c d : Char) : Option Nat := do
  return (((← hexDigit? a) * 16 + (← hexDigit? b)) * 16 + (← hexDigit? c)) * 16 + (← hexDigit? d)

/-- The character of a short escape. -/
def unescape? : Char → Option Char
  | '"' => some '"'
  | '\\' => some '\\'
  | '/' => some '/'
  | 'b' => some '\x08'
  | 'f' => some '\x0c'
  | 'n' => some '\n'
  | 'r' => some '\r'
  | 't' => some '\t'
  | _ => none

/-- What reading a string gives: its characters, unless half of a surrogate pair is
among them, and what follows the string. -/
abbrev ReadText := Option (Option (List Char) × List Char)

/-- Puts a character in front of a string that was read. -/
def consChar (c : Option Char) (read : ReadText) : ReadText :=
  read.map fun (s, rest) => (c.bind fun c => s.map (c :: ·), rest)

/-- The rest of a string after its opening quote. -/
def textBody : List Char → ReadText
  | [] => none
  | '"' :: rest => some (some [], rest)
  | '\\' :: 'u' :: a :: b :: c :: d :: rest =>
    match unit? a b c d with
    | none => none
    | some high =>
      if 0xd800 ≤ high ∧ high < 0xdc00 then
        match rest with
        | '\\' :: 'u' :: e :: f :: g :: h :: rest' =>
          match unit? e f g h with
          | none => none
          | some low =>
            if 0xdc00 ≤ low ∧ low < 0xe000 then
              consChar (some (Char.ofNat (0x10000 + (high - 0xd800) * 0x400 + (low - 0xdc00))))
                (textBody rest')
            else consChar none (textBody rest')
        | rest => consChar none (textBody rest)
      else if 0xdc00 ≤ high ∧ high < 0xe000 then consChar none (textBody rest)
      else consChar (some (Char.ofNat high)) (textBody rest)
  | '\\' :: c :: rest =>
    match unescape? c with
    | some c => consChar (some c) (textBody rest)
    | none => none
  | c :: rest => if c < ' ' then none else consChar (some c) (textBody rest)

/-- The digits at the start of a text, at least one, and what follows them. -/
def digitRun? (cs : List Char) : Option (List Char × List Char) :=
  match cs.takeWhile Char.isDigit with
  | [] => none
  | run => some (run, cs.dropWhile Char.isDigit)

/-- The whole part of a number, which has no needless zero in front. -/
def wholePart? (cs : List Char) : Option (List Char × List Char) := do
  let (run, rest) ← digitRun? cs
  match run with
  | '0' :: _ :: _ => none
  | run => return (run, rest)

/-- The fractional part of a number, empty without a point. -/
def fractionPart? : List Char → Option (List Char × List Char)
  | '.' :: cs => (digitRun? cs).map fun (run, rest) => ('.' :: run, rest)
  | cs => some ([], cs)

/-- The exponent of a number, empty if there is none. -/
def exponentPart? : List Char → Option (List Char × List Char)
  | [] => some ([], [])
  | e :: cs =>
    if e == 'e' || e == 'E' then
      match cs with
      | s :: more =>
        if s == '+' || s == '-' then
          (digitRun? more).map fun (run, rest) => (e :: s :: run, rest)
        else (digitRun? cs).map fun (run, rest) => (e :: run, rest)
      | [] => none
    else some ([], e :: cs)

/-- A number, as it is written, and what follows it. -/
def number? (cs : List Char) : Option (List Char × List Char) := do
  let (start, cs) :=
    match cs with
    | '-' :: rest => (['-'], rest)
    | cs => ([], cs)
  let (whole, cs) ← wholePart? cs
  let (fraction, cs) ← fractionPart? cs
  let (exponent, cs) ← exponentPart? cs
  return (start ++ whole ++ fraction ++ exponent, cs)

mutual

/-- A value, and what follows it. -/
def value? : Nat → List Char → Option (JsonValue × List Char)
  | 0, _ => none
  | depth + 1, cs =>
    match skipBlank cs with
    | 'n' :: 'u' :: 'l' :: 'l' :: rest => some (null, rest)
    | 't' :: 'r' :: 'u' :: 'e' :: rest => some (bool true, rest)
    | 'f' :: 'a' :: 'l' :: 's' :: 'e' :: rest => some (bool false, rest)
    | '"' :: rest =>
      (textBody rest).map fun (s, rest) => (text (s.map String.ofList), rest)
    | '[' :: rest =>
      match skipBlank rest with
      | ']' :: rest => some (array [], rest)
      | rest => (items? depth rest).map fun (items, rest) => (array items, rest)
    | '\x7b' :: rest =>
      match skipBlank rest with
      | '\x7d' :: rest => some (object [], rest)
      | rest => (members? depth rest).map fun (members, rest) => (object members, rest)
    | rest => (number? rest).map fun (literal, rest) => (number (String.ofList literal), rest)

/-- The items of an array up to its end, and what follows it. -/
def items? : Nat → List Char → Option (List JsonValue × List Char)
  | 0, _ => none
  | depth + 1, cs =>
    match value? depth cs with
    | none => none
    | some (item, rest) =>
      match skipBlank rest with
      | ',' :: rest => (items? depth rest).map fun (items, rest) => (item :: items, rest)
      | ']' :: rest => some ([item], rest)
      | _ => none

/-- The members of an object up to its end, and what follows it. -/
def members? : Nat → List Char → Option (List (JsonText × JsonValue) × List Char)
  | 0, _ => none
  | depth + 1, cs =>
    match skipBlank cs with
    | '"' :: rest =>
      match textBody rest with
      | some (key, rest) =>
        match skipBlank rest with
        | ':' :: rest =>
          match value? depth rest with
          | none => none
          | some (value, rest) =>
            match skipBlank rest with
            | ',' :: rest =>
              (members? depth rest).map fun (members, rest) =>
                ((key.map String.ofList, value) :: members, rest)
            | '\x7d' :: rest => some ([(key.map String.ofList, value)], rest)
            | _ => none
        | _ => none
      | _ => none
    | _ => none

end

/-- Reads a JSON text. -/
def parse? (s : String) : Option JsonValue :=
  let cs := s.toList
  match value? (2 * cs.length + 2) cs with
  | some (v, rest) => if (skipBlank rest).isEmpty then some v else none
  | none => none

end JsonValue

end ObjectGraph
