import ObjectGraph.Binary.Format

/-!
# Shortest decimal text

A finite floating-point value is printed with the fewest digits that read back
as the same value. The reals that round to a value form an interval around it:
it reaches half way to each neighbour, and its ends belong to it exactly when
the fraction is even. For each number of digits only two decimals can be nearest
to the value, the one below it and the one above it on that decimal grid. The
first grid with a hit fixes the number of digits; of two hits the nearer one is
taken, and the one above if both are equally near.

All arithmetic is on natural numbers. `Span` carries the value and the ends of
its interval over one common denominator, so a point `d * 10 ^ p` is compared
with them after multiplying out. The text is always positional.
-/

namespace ObjectGraph.Binary

/-- A value `value / unit` and the ends `low / unit` and `high / unit` of the
interval of reals that round to it. -/
structure Span where
  low : Nat
  value : Nat
  high : Nat
  unit : Nat
  closed : Bool
deriving DecidableEq

/-- The decimal `digits * 10 ^ exponent`. -/
structure Decimal where
  digits : Nat
  exponent : Int
deriving DecidableEq

namespace Pattern

variable {f : Format}

/-- The interval of a finite, non-zero magnitude. It is scaled by four, so that
half the distance to a neighbour is a whole number also where the exponent
changes and the lower neighbour is twice as near. -/
def span (v : Pattern f) : Span :=
  let normal := v.exponentField != 0
  let significand := if normal then (1 <<< f.fractionBits) + v.fraction else v.fraction
  let lowGap := if v.fraction == 0 && 1 < v.exponentField then 1 else 2
  let scale : Int := max v.exponentField 1 - f.bias - f.fractionBits - 2
  let factor := 1 <<< scale.toNat
  ⟨(4 * significand - lowGap) * factor, 4 * significand * factor,
    (4 * significand + 2) * factor, 1 <<< (-scale).toNat, v.fraction % 2 == 0⟩

end Pattern

namespace Span

/-- The number of decimal digits of a natural number, zero having none. -/
def digitCount (n : Nat) : Nat :=
  if n = 0 then 0 else (Nat.toDigits 10 n).length

/-- The least `k` with the value below `10 ^ k`. -/
def decimalExponent (s : Span) : Int :=
  if s.unit ≤ s.value then digitCount (s.value / s.unit)
  else 1 - (digitCount ((s.unit + s.value - 1) / s.value - 1) : Int)

/-- Whether the real `numerator / unit` rounds to the value. -/
def holds (s : Span) (numerator : Nat) : Bool :=
  if s.closed then s.low ≤ numerator && numerator ≤ s.high
  else s.low < numerator && numerator < s.high

/-- The span with all numbers multiplied out, so that the multiples of
`10 ^ p` become the multiples of a natural number, which is returned too. -/
def onGrid (s : Span) (p : Int) : Span × Nat :=
  let up := Nat.pow 10 (-p).toNat
  (⟨s.low * up, s.value * up, s.high * up, s.unit, s.closed⟩, s.unit * Nat.pow 10 p.toNat)

/-- The nearest decimal `d * 10 ^ p` in the interval, if there is one. -/
def hit? (s : Span) (p : Int) : Option Decimal :=
  let (t, step) := s.onGrid p
  let below := t.value / step
  let above := below + 1
  match t.holds (below * step), t.holds (above * step) with
  | true, true =>
    if t.value - below * step < above * step - t.value then some ⟨below, p⟩
    else some ⟨above, p⟩
  | true, false => some ⟨below, p⟩
  | false, true => some ⟨above, p⟩
  | false, false => none

/-- The shortest decimal in the interval among those with at most `limit`
digits. -/
def shortest? (s : Span) (limit : Nat) : Option Decimal :=
  (List.range limit).findSome? fun (n : Nat) => s.hit? (s.decimalExponent - (n + 1))

end Span

namespace Decimal

/-- The decimal without trailing zero digits. -/
def trim (d : Decimal) : Decimal :=
  let digits := Nat.toDigits 10 d.digits
  let zeros := (digits.reverse.takeWhile (· == '0')).length
  ⟨d.digits / Nat.pow 10 zeros, d.exponent + zeros⟩

/-- The digits with the point at its place and no exponent. -/
def positional (d : Decimal) : String :=
  let digits := Nat.toDigits 10 d.digits
  if 0 ≤ d.exponent then
    String.ofList (digits ++ List.replicate d.exponent.toNat '0')
  else
    let places := (-d.exponent).toNat
    let padded := List.replicate (places + 1 - digits.length) '0' ++ digits
    let whole := padded.length - places
    String.ofList (padded.take whole ++ '.' :: padded.drop whole)

end Decimal

namespace Format

/-- A number of digits that is enough to tell any two values of the format
apart. -/
def enoughDigits (f : Format) : Nat :=
  (f.fractionBits + 1) * 30103 / 100000 + 2

end Format

namespace Pattern

variable {f : Format}

/-- The text of a value: the shortest digits that read back, with `.0` after a
whole number, and the words `NaN` and `inf`. -/
def text (v : Pattern f) : String :=
  if v.isNaN then "NaN"
  else
    let sign := if v.isNegative then "-" else ""
    if v.isInfinite then sign ++ "inf"
    else if v.isZero then sign ++ "0.0"
    else
      match v.span.shortest? f.enoughDigits with
      | none => sign
      | some d =>
        let digits := d.trim.positional
        sign ++ if digits.contains '.' then digits else digits ++ ".0"

end Pattern

end ObjectGraph.Binary
