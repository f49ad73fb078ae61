import ObjectGraph.Binary.Decimal
import ObjectGraph.Value.Item

/-!
# Printed values

The text of ids and items, as error messages and slices show it, and the reader
of printed ids. An id is written as a mark for its tag, the allocation number in
hexadecimal, a colon and the offset in decimal.
-/

namespace ObjectGraph

/-- A byte as two lower-case hexadecimal digits. -/
def hexByte (b : UInt8) : List Char :=
  [Nat.digitChar (b.toNat / 16), Nat.digitChar (b.toNat % 16)]

namespace ObjectId

/-- What stands before the allocation number. -/
def mark : Tag → String
  | .entity => "$"
  | .list => "$l"
  | .dict => "$d"
  | .schema => "$s"
  | .nofollow => "$nf"

def text (id : ObjectId) : String :=
  mark id.tag ++ String.ofList (Nat.toDigits 16 id.allocation.toNat) ++ ":" ++
    toString id.offset.toNat

/-- The value of a digit in the given base. -/
def digitValue? (base : Nat) (c : Char) : Option Nat :=
  let value :=
    if '0' ≤ c ∧ c ≤ '9' then some (c.toNat - '0'.toNat)
    else if 'a' ≤ c ∧ c ≤ 'f' then some (c.toNat - 'a'.toNat + 10)
    else none
  value.filter (· < base)

/-- The number written with the given digits, of which there is at least one. -/
def number? (base : Nat) : List Char → Option Nat
  | [] => none
  | cs => cs.foldlM (fun n c => (digitValue? base c).map (n * base + ·)) 0

/-- The tag of a printed id and the digits after its mark. The mark `$d` is the
one for dicts, unless the digit `d` is all there is of an allocation number. -/
def splitMark? : List Char → Option (Tag × List Char)
  | '$' :: 'n' :: 'f' :: digits => some (.nofollow, digits)
  | '$' :: 'l' :: digits => some (.list, digits)
  | '$' :: 's' :: digits => some (.schema, digits)
  | ['$', 'd'] => some (.entity, ['d'])
  | '$' :: 'd' :: digits => some (.dict, digits)
  | '$' :: digits => some (.entity, digits)
  | _ => none

/-- Reads a printed id. -/
def ofText? (s : String) : Option ObjectId := do
  let cs := s.toList
  let (tag, digits) ← splitMark? (cs.takeWhile (· != ':'))
  let allocation ← number? 16 digits
  let offset ← number? 10 ((cs.dropWhile (· != ':')).drop 1)
  if allocation < UInt64.size ∧ offset < UInt32.size then
    some ⟨.ofNat allocation, .ofNat offset, tag⟩
  else none

end ObjectId

namespace Item

/-- A byte of a printed byte string: visible ASCII characters and the space
stand for themselves. -/
def byteText (b : UInt8) : List Char :=
  if 0x20 ≤ b ∧ b ≤ 0x7e then [Char.ofNat b.toNat] else '\\' :: 'x' :: hexByte b

def render : Item → String
  | missing => "None"
  | bool b => if b then "True" else "False"
  | int32 v => toString v.toInt
  | int64 v => toString v.toInt
  | float32 v => v.text
  | float64 v => v.text
  | text s => "'" ++ s ++ "'"
  | bytes b => "b'" ++ String.ofList (b.flatMap byteText) ++ "'"
  | objectId id => id.text
  | dtype d => d.name
  | expr e => "ExprQuote('" ++ e.source ++ "')"

end Item

end ObjectGraph
