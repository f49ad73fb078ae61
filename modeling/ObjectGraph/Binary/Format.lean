/-!
# Binary floating-point formats

A floating-point value is carried as its IEEE 754 bit pattern, never as a
machine number: two values are equal exactly when their patterns are, so
negative zero and every NaN payload stay apart. `Format` gives the widths of the
fields and every function is stated once for all formats.

The three parts of a pattern are read by arithmetic on its natural number:
`magnitude` drops the sign, `exponentField` and `fraction` split the magnitude.
-/

namespace ObjectGraph.Binary

/-- The widths of the exponent field and of the stored fraction. -/
structure Format where
  exponentBits : Nat
  fractionBits : Nat
deriving DecidableEq

namespace Format

/-- The 32-bit format. -/
abbrev single : Format := ⟨8, 23⟩

/-- The 64-bit format. -/
abbrev double : Format := ⟨11, 52⟩

/-- Sign, exponent field and fraction together. -/
abbrev width (f : Format) : Nat :=
  1 + f.exponentBits + f.fractionBits

/-- The first magnitude that does not fit below the sign bit. -/
def magnitudeLimit (f : Format) : Nat :=
  1 <<< (f.exponentBits + f.fractionBits)

/-- The amount by which the exponent field exceeds the exponent. -/
def bias (f : Format) : Nat :=
  (1 <<< (f.exponentBits - 1)) - 1

/-- The exponent field of infinities and NaNs. -/
def maxExponentField (f : Format) : Nat :=
  (1 <<< f.exponentBits) - 1

end Format

/-- A floating-point value of format `f`, given by its bit pattern. -/
structure Pattern (f : Format) where
  bits : BitVec f.width
deriving DecidableEq

namespace Pattern

variable {f : Format}

/-- The pattern without its sign bit. -/
def magnitude (v : Pattern f) : Nat :=
  v.bits.toNat % f.magnitudeLimit

/-- Whether the sign bit is set. -/
def isNegative (v : Pattern f) : Bool :=
  f.magnitudeLimit ≤ v.bits.toNat

def exponentField (v : Pattern f) : Nat :=
  v.magnitude >>> f.fractionBits

def fraction (v : Pattern f) : Nat :=
  v.magnitude % (1 <<< f.fractionBits)

/-- Both zeros, and nothing else. -/
def isZero (v : Pattern f) : Bool :=
  v.magnitude == 0

def isNaN (v : Pattern f) : Bool :=
  v.exponentField == f.maxExponentField && v.fraction != 0

def isInfinite (v : Pattern f) : Bool :=
  v.exponentField == f.maxExponentField && v.fraction == 0

/-- The sum with positive zero, which is the value itself except that negative
zero becomes positive zero and a signaling NaN becomes the quiet NaN with the
same sign and payload. Values with one such sum count as one grouping key. -/
def plusZero (v : Pattern f) : Pattern f :=
  if v.isZero then ⟨0⟩
  else if v.isNaN then ⟨v.bits ||| 1#f.width <<< (f.fractionBits - 1)⟩
  else v

/-- The place of a value in the total order of its format: negative values
descend with their magnitude and all stand below the positive ones, so that
`-0.0` stands directly below `0.0` and the NaNs stand at the two ends. -/
def place (v : Pattern f) : Int :=
  if v.isNegative then -(v.magnitude : Int) - 1 else v.magnitude

/-- The total order of the patterns of one format. -/
def totalOrder (a b : Pattern f) : Ordering :=
  compare a.place b.place

end Pattern

end ObjectGraph.Binary
