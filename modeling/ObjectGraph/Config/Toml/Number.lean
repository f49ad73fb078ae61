import ObjectGraph.Binary.Overflow
import ObjectGraph.Value.Text

/-!
# Numbers in TOML

Integers are decimal, or of another base behind `0x`, `0o` or `0b`, and have 64 bits.
A real has a fraction or an exponent or both. Underscores may separate digits. What a
real is does not matter to any field, so only its form is read, and that it is not too
large for a floating-point number of 64 bits.
-/

namespace ObjectGraph.Toml

/-- The digits without the underscores between them. An underscore has a digit on
either side. -/
def plainDigits? (cs : List Char) : Option (List Char) :=
  let groups := cs.splitOn '_'
  if groups.all fun g => !g.isEmpty then some groups.flatten else none

/-- The number written with digits of a base. -/
def digits? (base : Nat) (cs : List Char) : Option Nat := do
  ObjectId.number? base ((← plainDigits? cs).map Char.toLower)

/-- The decimal digits of a whole number without needless zeros in front. -/
def wholeDigits? (cs : List Char) : Option (List Char) :=
  match cs with
  | '0' :: _ :: _ => none
  | cs => if (digits? 10 cs).isSome then plainDigits? cs else none

/-- A decimal number without needless zeros in front. -/
def decimal? (cs : List Char) : Option Nat := do
  digits? 10 (← wholeDigits? cs)

/-- A sign, and what follows it. -/
def sign : List Char → Int × List Char
  | '-' :: rest => (-1, rest)
  | '+' :: rest => (1, rest)
  | rest => (1, rest)

/-- An integer of 64 bits. -/
def integer? (cs : List Char) : Option Int := do
  let n ← match cs with
    | '0' :: 'x' :: rest => (digits? 16 rest).map Int.ofNat
    | '0' :: 'o' :: rest => (digits? 8 rest).map Int.ofNat
    | '0' :: 'b' :: rest => (digits? 2 rest).map Int.ofNat
    | cs =>
      let (s, rest) := sign cs
      (decimal? rest).map fun n => s * (n : Int)
  if Int64.minValue.toInt ≤ n ∧ n ≤ Int64.maxValue.toInt then some n else none

def isExponentMark (c : Char) : Bool :=
  c == 'e' || c == 'E'

/-- The number behind the mark of an exponent, zero where there is no mark. -/
def exponent? : List Char → Option Int
  | [] => some 0
  | _ :: cs => do
    let (s, rest) := sign cs
    return s * (← digits? 10 rest : Nat)

/-- The digits behind a point, none where there is no point. -/
def fraction? : List Char → Option (List Char)
  | [] => some []
  | _ :: cs => if (digits? 10 cs).isSome then plainDigits? cs else none

/-- The decimal of a real without its sign. -/
def magnitude? (cs : List Char) : Option Binary.Decimal := do
  let mantissa := cs.takeWhile fun c => !isExponentMark c
  let whole := mantissa.takeWhile (· != '.')
  if whole.length = cs.length then none
  else
    let wholeDigits ← wholeDigits? whole
    let fraction ← fraction? (mantissa.drop whole.length)
    let exponent ← exponent? (cs.drop mantissa.length)
    return ⟨← digits? 10 (wholeDigits ++ fraction), exponent - (fraction.length : Int)⟩

/-- Whether the text is a real. Only a positive one can be too large. -/
def isReal (cs : List Char) : Bool :=
  let (s, rest) := sign cs
  if rest == "inf".toList || rest == "nan".toList then true
  else
    match magnitude? rest with
    | some d => s < 0 || !d.overflows .double
    | none => false

end ObjectGraph.Toml
