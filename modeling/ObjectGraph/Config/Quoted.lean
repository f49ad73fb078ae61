import ObjectGraph.Value.Text

/-!
# Strings in double quotes

A quoted string is read in two steps. `body?` finds the closing quote, which is the
first one that does not follow a backslash, and returns what stands before it as it
is written. `unescape?` replaces the escapes in that: a backslash is followed by a
letter, or by `u` or `U` and the number of a character in hexadecimal. Control
characters other than the tab have to be escaped.
-/

namespace ObjectGraph.Quoted

/-- Control characters other than the tab. -/
def isControl (c : Char) : Bool :=
  (c < ' ' && c != '\t') || c == '\x7f'

/-- The number written with hexadecimal digits in either case. -/
def hexNumber? (cs : List Char) : Option Nat :=
  ObjectId.number? 16 (cs.map Char.toLower)

/-- The character with a number, which must not be half of a surrogate pair. -/
def charOf? (n : Nat) : Option Char :=
  if n.isValidChar then some (Char.ofNat n) else none

/-- The character of a short escape. -/
def escape? : Char → Option Char
  | 'b' => some '\x08'
  | 't' => some '\t'
  | 'n' => some '\n'
  | 'f' => some '\x0c'
  | 'r' => some '\r'
  | '"' => some '"'
  | '\\' => some '\\'
  | _ => none

/-- What stands between an opening quote and its closing one, as it is written, and
what follows. -/
def body? : List Char → Option (List Char × List Char)
  | [] => none
  | '"' :: rest => some ([], rest)
  | '\\' :: c :: rest => (body? rest).map fun (body, rest) => ('\\' :: c :: body, rest)
  | c :: rest => (body? rest).map fun (body, rest) => (c :: body, rest)

/-- The characters that a body stands for. -/
def unescape? : List Char → Option (List Char)
  | [] => some []
  | '\\' :: 'U' :: a :: b :: c :: d :: e :: f :: g :: h :: rest => do
    let char ← (hexNumber? [a, b, c, d, e, f, g, h]).bind charOf?
    return char :: (← unescape? rest)
  | '\\' :: 'u' :: a :: b :: c :: d :: rest => do
    let char ← (hexNumber? [a, b, c, d]).bind charOf?
    return char :: (← unescape? rest)
  | '\\' :: c :: rest => do return (← escape? c) :: (← unescape? rest)
  | c :: rest => if isControl c then none else do return c :: (← unescape? rest)

/-- The string after an opening quote, and what follows it. -/
def read? (cs : List Char) : Option (List Char × List Char) := do
  let (body, rest) ← body? cs
  return (← unescape? body, rest)

end ObjectGraph.Quoted
