import Mathlib.Algebra.Order.Field.Power
import Mathlib.Algebra.Order.Field.Rat
import Mathlib.Tactic.Ring
import ObjectGraph.Proofs.Value.Order

/-!
# The total order of floating-point values

The total order compares two patterns as signed numbers, once the bits below a set sign
are turned over. Read through the classes of values this is the order from the NaNs with a
set sign over the infinities, the numbers by their value and the two zeros to the other
NaNs, and NaNs are ordered by their payloads.
-/

namespace ObjectGraph

namespace Binary.Pattern

variable {f : Format} {v w : Pattern f}

/-- The bits as a signed number after all bits below a set sign are turned over: the sign is
shifted over the whole width and cleared from the sign's own bit, which makes it a mask. -/
def orderKey (v : Pattern f) : Int :=
  (v.bits ^^^ (v.bits.sshiftRight (f.width - 1) >>> 1)).toInt

theorem magnitudeLimit_eq (f : Format) : f.magnitudeLimit = 2 ^ (f.width - 1) := by
  rw [Format.magnitudeLimit, Nat.one_shiftLeft]
  congr 1
  simp only [Format.width]
  omega

theorem msb_bits (v : Pattern f) : v.bits.msb = v.isNegative := by
  rw [BitVec.msb_eq_decide, isNegative, magnitudeLimit_eq]

/-- The mask has the sign in every bit but its own. -/
theorem getLsbD_signMask (v : Pattern f) (k : Nat) :
    (v.bits.sshiftRight (f.width - 1) >>> 1).getLsbD k =
      (decide (k < f.width - 1) && v.isNegative) := by
  rw [BitVec.getLsbD_ushiftRight, BitVec.getLsbD_sshiftRight, msb_bits, if_neg (by omega),
    ← decide_not]
  congr 2
  apply propext
  omega

/-- A number without the sign bit and its complement are one less than opposite. -/
theorem toInt_not_ofNat {n m : Nat} (h : 2 * m + 1 < 2 ^ n) :
    (~~~(BitVec.ofNat n m)).toInt = -(m : Int) - 1 := by
  have hm : (BitVec.ofNat n m).toNat = m := by
    rw [BitVec.toNat_ofNat, Nat.mod_eq_of_lt (by omega)]
  rw [BitVec.toInt_eq_toNat_cond, BitVec.toNat_not, hm]
  split <;> omega

theorem orderKey_eq_place (v : Pattern f) : v.orderKey = v.place := by
  have hwidth : 0 < f.width := by simp only [Format.width]; omega
  cases hsign : v.isNegative with
  | false =>
      have hbits : v.bits ^^^ (v.bits.sshiftRight (f.width - 1) >>> 1) = v.bits := by
        refine BitVec.eq_of_getLsbD_eq fun k _ => ?_
        rw [BitVec.getLsbD_xor, getLsbD_signMask, hsign, Bool.and_false, Bool.xor_false]
      rw [orderKey, hbits, BitVec.toInt_eq_toNat_of_msb (v.msb_bits.trans hsign), toNat_bits,
        place, hsign]
      simp
  | true =>
      -- only the bits below the sign are turned over, and the sign counts against them
      have hbits : v.bits ^^^ (v.bits.sshiftRight (f.width - 1) >>> 1) =
          ~~~(BitVec.ofNat f.width v.magnitude) := by
        refine BitVec.eq_of_getLsbD_eq fun k hk => ?_
        rw [BitVec.getLsbD_xor, getLsbD_signMask, hsign, BitVec.getLsbD_not, BitVec.getLsbD_ofNat,
          magnitude, magnitudeLimit_eq, Nat.testBit_mod_two_pow, BitVec.testBit_toNat]
        by_cases hlast : k = f.width - 1
        · have htop : v.bits.getLsbD k = true := by
            rw [hlast, ← BitVec.msb_eq_getLsbD_last, msb_bits, hsign]
          simp [hlast, hwidth, hlast ▸ htop]
        · simp [hk, show k < f.width - 1 by omega]
      have hmagnitude : v.magnitude < 2 ^ (f.width - 1) :=
        magnitudeLimit_eq f ▸ Nat.mod_lt _ (magnitudeLimit_pos f)
      have hpow : 2 * 2 ^ (f.width - 1) = 2 ^ f.width := mul_pow_sub_one hwidth.ne' 2
      rw [orderKey, hbits, toInt_not_ofNat (by omega), place, hsign, if_pos rfl]

/-! ### Classes and numbers -/

/-- The magnitude of infinity: NaNs are above it, and all other values below. -/
def infinityMagnitude (f : Format) : Nat :=
  f.maxExponentField * 2 ^ f.fractionBits

theorem fraction_lt (v : Pattern f) : v.fraction < 2 ^ f.fractionBits := by
  rw [fraction, Nat.one_shiftLeft]
  exact Nat.mod_lt _ (Nat.two_pow_pos _)

theorem magnitude_eq (v : Pattern f) :
    v.magnitude = v.exponentField * 2 ^ f.fractionBits + v.fraction := by
  rw [exponentField, fraction, Nat.one_shiftLeft, Nat.shiftRight_eq_div_pow,
    Nat.div_add_mod']

theorem exponentField_le (v : Pattern f) : v.exponentField ≤ f.maxExponentField := by
  have hmagnitude : v.magnitude < 2 ^ f.exponentBits * 2 ^ f.fractionBits := by
    rw [← Nat.pow_add, ← Nat.one_shiftLeft]
    exact Nat.mod_lt _ (magnitudeLimit_pos f)
  rw [exponentField, Nat.shiftRight_eq_div_pow, Format.maxExponentField, Nat.one_shiftLeft]
  exact Nat.le_sub_one_of_lt (Nat.div_lt_of_lt_mul (Nat.mul_comm _ _ ▸ hmagnitude))

theorem magnitude_lt_infinityMagnitude (h : v.exponentField ≠ f.maxExponentField) :
    v.magnitude < infinityMagnitude f := by
  have hlt : v.exponentField < f.maxExponentField := Nat.lt_of_le_of_ne v.exponentField_le h
  have hnext := Nat.mul_le_mul_right (2 ^ f.fractionBits) (Nat.succ_le_of_lt hlt)
  have hfraction := v.fraction_lt
  rw [Nat.succ_mul] at hnext
  rw [magnitude_eq, infinityMagnitude]
  omega

theorem isNaN_iff : v.isNaN = true ↔ infinityMagnitude f < v.magnitude := by
  rw [isNaN, Bool.and_eq_true, beq_iff_eq, bne_iff_ne]
  by_cases hmax : v.exponentField = f.maxExponentField
  · rw [magnitude_eq, infinityMagnitude, hmax]
    omega
  · have := magnitude_lt_infinityMagnitude hmax
    omega

theorem isInfinite_iff : v.isInfinite = true ↔ v.magnitude = infinityMagnitude f := by
  rw [isInfinite, Bool.and_eq_true, beq_iff_eq, beq_iff_eq]
  by_cases hmax : v.exponentField = f.maxExponentField
  · rw [magnitude_eq, infinityMagnitude, hmax]
    omega
  · have := magnitude_lt_infinityMagnitude hmax
    omega

theorem isZero_iff : v.isZero = true ↔ v.magnitude = 0 :=
  beq_iff_eq

/-- The place of a value's class: NaNs with the sign set stand lowest, then negative
infinity, the negative numbers, `-0.0`, `0.0`, the positive numbers, infinity and the
other NaNs. -/
def rank (v : Pattern f) : Int :=
  let size : Int := if v.isNaN then 3 else if v.isInfinite then 2 else if v.isZero then 0 else 1
  if v.isNegative then -size - 1 else size

theorem totalOrder_eq_lt_iff : v.totalOrder w = .lt ↔ v.place < w.place :=
  Int.compare_eq_lt

theorem totalOrder_of_rank_lt (h : v.rank < w.rank) : v.totalOrder w = .lt := by
  rw [totalOrder_eq_lt_iff]
  simp only [rank, isNaN_iff, isInfinite_iff, isZero_iff] at h
  unfold place
  split_ifs at h ⊢ <;> omega

/-- NaNs of one sign are ordered by their payloads. -/
theorem totalOrder_of_isNaN (hv : v.isNaN = true) (hw : w.isNaN = true)
    (hsign : v.isNegative = w.isNegative) : v.totalOrder w = .lt ↔
      if v.isNegative then w.fraction < v.fraction else v.fraction < w.fraction := by
  rw [isNaN, Bool.and_eq_true, beq_iff_eq] at hv hw
  rw [totalOrder_eq_lt_iff, place, place, ← hsign, magnitude_eq, magnitude_eq, hv.1, hw.1]
  split <;> omega

/-- The digits before the exponent, with the leading one of a normal number. -/
def significand (v : Pattern f) : Nat :=
  if v.exponentField = 0 then v.fraction else 2 ^ f.fractionBits + v.fraction

/-- The number a finite pattern stands for. -/
def value (v : Pattern f) : Rat :=
  (if v.isNegative then -1 else 1) * v.significand *
    2 ^ ((max v.exponentField 1 : Nat) - f.bias - f.fractionBits : Int)

/-- The absolute value as a multiple of the least positive number of the format. -/
def multiple (v : Pattern f) : Nat :=
  v.significand * 2 ^ (v.exponentField - 1)

theorem value_eq (v : Pattern f) : v.value =
    ((if v.isNegative then -(v.multiple : Int) else v.multiple : Int) : Rat) *
      2 ^ (1 - f.bias - f.fractionBits : Int) := by
  have hexponent : ((max v.exponentField 1 : Nat) - f.bias - f.fractionBits : Int) =
      (v.exponentField - 1 : Nat) + (1 - f.bias - f.fractionBits) := by
    omega
  rw [value, multiple, hexponent, zpow_add₀ two_ne_zero, zpow_natCast]
  split <;> push_cast <;> ring

/-- All multiples of one exponent field are below those of the next. -/
theorem multiple_lt_two_pow (v : Pattern f) :
    v.multiple < 2 ^ f.fractionBits * 2 ^ v.exponentField := by
  have hfraction := v.fraction_lt
  rw [multiple, significand]
  split
  · next hzero => simpa [hzero] using hfraction
  · next hzero =>
      rw [← mul_pow_sub_one hzero 2, ← Nat.mul_assoc, Nat.mul_comm _ 2]
      exact Nat.mul_lt_mul_of_pos_right (by omega) (Nat.two_pow_pos _)

theorem two_pow_le_multiple (h : v.exponentField ≠ 0) :
    2 ^ f.fractionBits * 2 ^ (v.exponentField - 1) ≤ v.multiple := by
  rw [multiple, significand, if_neg h]
  exact Nat.mul_le_mul_right _ (Nat.le_add_right _ _)

theorem multiple_lt (h : v.magnitude < w.magnitude) : v.multiple < w.multiple := by
  have hv := v.fraction_lt
  have hw := w.fraction_lt
  rw [magnitude_eq, magnitude_eq] at h
  rcases Nat.lt_trichotomy v.exponentField w.exponentField with hlt | heq | hgt
  · calc v.multiple < 2 ^ f.fractionBits * 2 ^ v.exponentField := v.multiple_lt_two_pow
      _ ≤ 2 ^ f.fractionBits * 2 ^ (w.exponentField - 1) :=
          Nat.mul_le_mul_left _ (Nat.pow_le_pow_right two_pos (Nat.le_sub_one_of_lt hlt))
      _ ≤ w.multiple := two_pow_le_multiple (Nat.ne_of_gt (Nat.zero_lt_of_lt hlt))
  · rw [multiple, multiple, significand, significand, ← heq]
    rw [← heq] at h
    refine Nat.mul_lt_mul_of_pos_right ?_ (Nat.two_pow_pos _)
    split <;> omega
  · have hnext := Nat.mul_le_mul_right (2 ^ f.fractionBits) (Nat.succ_le_of_lt hgt)
    rw [Nat.succ_mul] at hnext
    omega

theorem multiple_congr (h : v.magnitude = w.magnitude) : v.multiple = w.multiple := by
  rw [multiple, multiple, significand, significand, exponentField, exponentField, fraction,
    fraction, h]

theorem multiple_lt_iff : v.multiple < w.multiple ↔ v.magnitude < w.magnitude := by
  refine ⟨fun h => ?_, multiple_lt⟩
  rcases Nat.lt_trichotomy v.magnitude w.magnitude with hlt | heq | hgt
  · exact hlt
  · exact absurd (multiple_congr heq) (Nat.ne_of_lt h)
  · exact absurd (multiple_lt hgt) (Nat.lt_asymm h)

theorem multiple_eq_zero_iff : v.multiple = 0 ↔ v.magnitude = 0 := by
  have hunit := Nat.two_pow_pos f.fractionBits
  rw [multiple, Nat.mul_eq_zero, or_iff_left (Nat.two_pow_pos _).ne', significand, magnitude_eq]
  split
  · next hfield => rw [hfield, Nat.zero_mul, Nat.zero_add]
  · next hfield =>
      have := Nat.mul_pos (Nat.pos_of_ne_zero hfield) hunit
      omega

/-- Numbers are ordered by their values; of the zeros, `-0.0` is the lower one. -/
theorem totalOrder_eq_lt_iff_value_lt (hzero : v.isZero = false ∨ w.isZero = false) :
    v.totalOrder w = .lt ↔ v.value < w.value := by
  have hunit : (0 : Rat) < 2 ^ (1 - f.bias - f.fractionBits : Int) := zpow_pos two_pos _
  rw [totalOrder_eq_lt_iff, value_eq, value_eq, mul_lt_mul_iff_left₀ hunit, Int.cast_lt]
  simp only [← Bool.not_eq_true, isZero_iff] at hzero
  have hvw := multiple_lt_iff (v := v) (w := w)
  have hwv := multiple_lt_iff (v := w) (w := v)
  have hv := multiple_eq_zero_iff (v := v)
  have hw := multiple_eq_zero_iff (v := w)
  unfold place
  split <;> split <;> omega

end Binary.Pattern
end ObjectGraph
