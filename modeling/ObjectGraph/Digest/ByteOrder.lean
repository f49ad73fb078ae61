/-!
# Numbers as bytes

A number of fixed width is a list of bytes, with the least or the most
significant byte first. The list has the given length whatever the number is: a
number that does not fit loses its upper bytes.
-/

namespace ObjectGraph.Digest

/-- The lowest `count` bytes of a number, least significant first. -/
def littleEndian : Nat → Nat → List UInt8
  | 0, _ => []
  | count + 1, n => UInt8.ofNat n :: littleEndian count (n / 256)

@[simp] theorem length_littleEndian (count n : Nat) :
    (littleEndian count n).length = count := by
  induction count generalizing n with
  | zero => rfl
  | succ count ih => simp [littleEndian, ih]

/-- The lowest `count` bytes of a number, most significant first. -/
def bigEndian (count n : Nat) : List UInt8 :=
  (littleEndian count n).reverse

@[simp] theorem length_bigEndian (count n : Nat) : (bigEndian count n).length = count := by
  simp [bigEndian]

end ObjectGraph.Digest
