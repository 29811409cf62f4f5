import AmdgpuPro.Dc.FixedPoint

set_option autoImplicit false

/-!
# Register values of a color matrix

The coefficients of a color space conversion are written to registers of 16 bits: a sign, two
integer and 13 fractional bits. `conversion.c` clamps a coefficient to the range of the register and
converts it. The sign of a negative number gets lost in a cast to an unsigned type on the way, and
comes back with the bits of the two's complement.

## Main definitions

* `Dc.s2d13` — the register value that a number should have.

## Main results

* `Dc.convertFloatMatrix_eq` — every buffer is converted to the right register values.
-/

namespace Dc

open Fixed31_32

/-- `fixed_point_to_int_frac` -/
def fixedPointToIntFrac (arg : Fixed31_32) (integerBits fractionalBits : ℕ) :
    Except Fault (BitVec 16) := do
  let divisor := 1#32 <<< fractionalBits
  let d : BitVec 16 := (floor (abs arg)).setWidth 16
  -- `(uint16_t)(1 << integer_bits) - (1 / (uint16_t)divisor)`, in integers of 32 bits
  if divisor.setWidth 16 = 0 then throw .divideByZero
  let limit : BitVec 32 := ((1#32 <<< integerBits).setWidth 16).setWidth 32 -
    1#32 / (divisor.setWidth 16).setWidth 32
  let numerator : BitVec 32 ←
    if (d.setWidth 32).sle limit then
      pure (((floor (mulInt arg divisor)).setWidth 16).setWidth 32)
    else do
      let unit ← recip (fromInt (divisor.signExtend 64))
      pure (floor (sub (fromInt (1#64 <<< integerBits)) unit))
  let result : BitVec 16 :=
    if (0#32).sle numerator then numerator.setWidth 16
    else (1#32 <<< (integerBits + fractionalBits + 1) + numerator).setWidth 16
  pure (if result ≠ 0 ∧ lt arg zero then result ||| 1#16 <<< (integerBits + fractionalBits)
    else result)

/-- `convert_float_matrix`, with `S2D13_MIN`, `S2D13_MAX` and `DIVIDER` -/
def convertFloatMatrix (flt : List Fixed31_32) : Except Fault (List (BitVec 16)) := do
  let min213 ← fromFraction (-3 * 10000) 10000
  let max213 ← fromFraction (3 * 10000) 10000
  flt.mapM fun x => fixedPointToIntFrac (clamp x min213 max213) 2 13

/-- The register value of a number, in units of the last place: clamped to the interval from -3 to
3, cut off after 13 fractional bits, in the two's complement. -/
def s2d13 (x : ℤ) : BitVec 16 :=
  BitVec.ofInt 16 ((max (-3 * 2 ^ 32) (min (3 * 2 ^ 32) x) * 2 ^ 13).tdiv (2 ^ 32))

/-- The highest bit of a negative register value is set. -/
theorem or_sign_bit {w : BitVec 16} (h : 2 ^ 15 ≤ w.toNat) : w ||| 1#16 <<< 15 = w := by
  have hlt := w.isLt
  have hor := Nat.two_pow_add_eq_or_of_lt (show w.toNat - 2 ^ 15 < 2 ^ 15 by omega) 1
  rw [Nat.mul_one, Nat.add_sub_cancel' h] at hor
  apply BitVec.eq_of_toNat_eq
  rw [BitVec.toNat_or, hor]
  change (2 ^ 15 ||| (w.toNat - 2 ^ 15)) ||| 2 ^ 15 = _
  rw [Nat.or_comm, ← Nat.or_assoc, Nat.or_self]

theorem setWidth_ofInt (z : ℤ) : (BitVec.ofInt 32 z).setWidth 16 = BitVec.ofInt 16 z := by
  apply BitVec.eq_of_toNat_eq
  rw [BitVec.toNat_setWidth, BitVec.toNat_ofInt, BitVec.toNat_ofInt]
  omega

theorem toInt_setWidth_word (w : BitVec 16) : (w.setWidth 32).toInt = w.toNat := by
  have hlt := w.isLt
  have hnat : (w.setWidth 32).toNat = w.toNat := by
    rw [BitVec.toNat_setWidth]
    omega
  rw [BitVec.toInt_eq_toNat_of_lt (by omega), hnat]

/-- **One number in the range of the register.** The integer part is at most three, so that the
number is converted and not replaced by the largest one. The cast to 16 bits makes the two's
complement, whose highest bit is set for a negative number. -/
theorem fixedPointToIntFrac_s2d13 {x : Fixed31_32} (h : |x.toInt| ≤ 3 * 2 ^ 32) :
    fixedPointToIntFrac x 2 13 = .ok (BitVec.ofInt 16 ((x.toInt * 2 ^ 13).tdiv (2 ^ 32))) := by
  have hbounds := abs_le.mp h
  have hmul : (mulInt x (1#32 <<< 13)).toInt = x.toInt * 2 ^ 13 := by
    apply toInt_mulInt
    change Fits (x.toInt * 2 ^ 13)
    constructor <;> omega
  have hsmall : (((floor (abs x)).setWidth 16).setWidth 32).sle (4 : BitVec 32) = true := by
    have hle : |x.toInt|.tdiv (2 ^ 32) ≤ 3 := by
      rw [Int.tdiv_eq_ediv_of_nonneg (abs_nonneg _)]
      omega
    have hnonneg : 0 ≤ |x.toInt|.tdiv (2 ^ 32) := Int.tdiv_nonneg (abs_nonneg _) (by norm_num)
    rw [floor_eq, toInt_abs (by omega), setWidth_ofInt, BitVec.sle_iff_toInt_le,
      toInt_setWidth_word, BitVec.toNat_ofInt]
    change _ ≤ (4 : ℤ)
    omega
  -- the constants of the conversion
  have hdivisor : (1#32 <<< 13).setWidth 16 ≠ 0 := by decide
  have hlimit : ((1#32 <<< 2).setWidth 16).setWidth 32 -
      1#32 / ((1#32 <<< 13).setWidth 16).setWidth 32 = 4 := by decide
  have hsign : ∀ w : BitVec 16, (0#32).sle (w.setWidth 32) = true := by
    intro w
    rw [BitVec.sle_iff_toInt_le, toInt_setWidth_word]
    exact Int.natCast_nonneg _
  have hword : ∀ w : BitVec 16, (w.setWidth 32).setWidth 16 = w := by
    intro w
    rw [BitVec.setWidth_setWidth_of_le _ (by norm_num), BitVec.setWidth_eq]
  unfold fixedPointToIntFrac
  simp only [bind, Except.bind, pure, Except.pure, if_neg hdivisor, hlimit, hsmall, hsign, hword,
    if_true]
  rw [floor_eq, hmul, setWidth_ofInt, lt_eq]
  split_ifs with hneg
  · -- a negative number that is not cut off to zero
    congr 1
    apply or_sign_bit
    have hlt : x.toInt < 0 := of_decide_eq_true hneg.2
    have hne := hneg.1
    have htdiv : (x.toInt * 2 ^ 13).tdiv (2 ^ 32) = -(-(x.toInt * 2 ^ 13) / 2 ^ 32) := by
      rw [← neg_neg (x.toInt * 2 ^ 13), Int.neg_tdiv, Int.tdiv_eq_ediv_of_nonneg (by omega),
        neg_neg]
    have hnonzero : (x.toInt * 2 ^ 13).tdiv (2 ^ 32) ≠ 0 := by
      intro hzero
      rw [hzero] at hne
      exact hne rfl
    rw [htdiv] at hnonzero ⊢
    rw [BitVec.toNat_ofInt]
    omega
  · rfl

/-- Clamping to the range of the register. -/
theorem toInt_clamp (x : Fixed31_32) : (clamp x ⟨-(3 <<< 32)⟩ ⟨3 <<< 32⟩).toInt =
    max (-3 * 2 ^ 32) (min (3 * 2 ^ 32) x.toInt) := by
  have hmin : (⟨-(3 <<< 32)⟩ : Fixed31_32).toInt = -3 * 2 ^ 32 := by decide
  have hmax : (⟨3 <<< 32⟩ : Fixed31_32).toInt = 3 * 2 ^ 32 := by decide
  rw [clamp, le_eq, le_eq, hmin, hmax]
  split_ifs with hle hge
  · have hle := of_decide_eq_true hle
    rw [hmin]
    omega
  · have hge := of_decide_eq_true hge
    rw [hmax]
    omega
  · simp only [decide_eq_true_eq, not_le] at hle hge
    omega

/-- **The conversion of a buffer.** Every element is converted to its register value. -/
theorem convertFloatMatrix_eq (flt : List Fixed31_32) :
    convertFloatMatrix flt = .ok (flt.map fun x => s2d13 x.toInt) := by
  have hmin : fromFraction (-3 * 10000) 10000 = .ok ⟨-(3 <<< 32)⟩ := by
    rw [fromFraction_eq _ (by decide)]
    decide
  have hmax : fromFraction (3 * 10000) 10000 = .ok ⟨3 <<< 32⟩ := by
    rw [fromFraction_eq _ (by decide)]
    decide
  have hone : ∀ x, fixedPointToIntFrac (clamp x ⟨-(3 <<< 32)⟩ ⟨3 <<< 32⟩) 2 13 =
      pure (s2d13 x.toInt) := by
    intro x
    rw [fixedPointToIntFrac_s2d13, toInt_clamp, s2d13]
    · rfl
    · rw [toInt_clamp, abs_le]
      omega
  have hall : (flt.mapM fun x => fixedPointToIntFrac (clamp x ⟨-(3 <<< 32)⟩ ⟨3 <<< 32⟩) 2 13) =
      pure (flt.map fun x => s2d13 x.toInt) := by
    simp only [hone]
    exact List.mapM_pure
  rw [convertFloatMatrix, hmin, hmax]
  exact hall

end Dc
