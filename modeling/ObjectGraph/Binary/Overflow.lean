import ObjectGraph.Binary.Decimal

/-!
# Decimals beyond a format

Reading a decimal rounds it to the nearest value of a format, and a decimal that is
half a step or more above the largest finite value is rounded to infinity. The step
is the one between the largest values, so the bound is a natural number.

A decimal with a different number of places before its point than the bound is
compared by this number alone. So no power of ten is ever much larger than the
bound or the digits, however large the exponent is.
-/

namespace ObjectGraph.Binary

namespace Format

/-- The least number that is rounded to infinity. -/
def infinityBound (f : Format) : Nat :=
  (1 <<< (f.bias + 1)) - (1 <<< (f.bias - f.fractionBits - 1))

end Format

namespace Decimal

/-- The least `k` with the decimal below `10 ^ k`, unless it is zero. -/
def places (d : Decimal) : Int :=
  Span.digitCount d.digits + d.exponent

/-- Whether the decimal is rounded to infinity. -/
def overflows (d : Decimal) (f : Format) : Bool :=
  let bound := f.infinityBound
  let boundPlaces : Int := Span.digitCount bound
  if d.digits = 0 ∨ d.places < boundPlaces then false
  else if boundPlaces < d.places then true
  else bound * Nat.pow 10 (-d.exponent).toNat ≤ d.digits * Nat.pow 10 d.exponent.toNat

end Decimal

end ObjectGraph.Binary
