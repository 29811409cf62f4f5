import AmdgpuPro.Lib.Rounding
import Mathlib

set_option autoImplicit false

/-!
# Fixed-point numbers of the display core

`fixpt31_32.c` computes with numbers of 31 integer and 32 fractional bits and a sign, in words of
64 bits. A quotient is found bit by bit and rounded. A product is put together from the products of
the integer and the fractional parts; only the product of the fractional parts has to be rounded.

## Main definitions

* `Dc.Fixed31_32.fromFraction`, `mul`, `sqr` — quotients, products and squares.

## Main results

* `Dc.Fixed31_32.fromFraction_eq`, `mul_eq` — what the functions compute, for all arguments.
* `fromFraction_rounds` — quotients are rounded to the nearest number.
* `mul_rounds_iff` — when products are.

## Design

The kernel is compiled so that signed arithmetic wraps around, and `ASSERT` does nothing but warn.
What the processor traps on or the language leaves open, a division by zero and a shift by more bits
than a word has, is a `Fault`.
-/

namespace Dc

/-- What ends a calculation. A function that gives up returns `false`. -/
inductive Fault
  | divideByZero
  | shiftOutOfRange
  | gaveUp
  deriving DecidableEq

/-- `struct fixed31_32` -/
structure Fixed31_32 where
  value : BitVec 64
  deriving DecidableEq

namespace Fixed31_32

/-- The number, in units of the last place. -/
def toInt (x : Fixed31_32) : ℤ := x.value.toInt

/-- `dal_fixed31_32_zero` -/
def zero : Fixed31_32 := ⟨0⟩

/-- `dal_fixed31_32_half` -/
def half : Fixed31_32 := ⟨0x80000000⟩

/-- `dal_fixed31_32_one` -/
def one : Fixed31_32 := ⟨0x100000000⟩

/-- `dal_fixed31_32_ln2` -/
def ln2 : Fixed31_32 := ⟨2977044471⟩

/-- `dal_fixed31_32_ln2_div_2` -/
def ln2Div2 : Fixed31_32 := ⟨1488522236⟩

/-- `BITS_PER_FRACTIONAL_PART` -/
def bitsPerFractionalPart : ℕ := 32

/-- `GET_INTEGER_PART` -/
def getIntegerPart (x : BitVec 64) : BitVec 64 := x >>> bitsPerFractionalPart

/-- `GET_FRACTIONAL_PART`, with `FRACTIONAL_PART_MASK` -/
def getFractionalPart (x : BitVec 64) : BitVec 64 := (1#64 <<< bitsPerFractionalPart - 1) &&& x

/-- `abs_i64` -/
def absI64 (arg : BitVec 64) : BitVec 64 := if (0#64).slt arg then arg else -arg

/-- `complete_integer_division_u64`: the quotient and the remainder -/
def completeIntegerDivisionU64 (dividend divisor : BitVec 64) :
    Except Fault (BitVec 64 × BitVec 64) :=
  if divisor = 0 then .error .divideByZero else .ok (dividend / divisor, dividend % divisor)

/-- The body of the loop of `dal_fixed31_32_from_fraction`, on `remainder` and `res_value`. -/
def fractionBit (divisor : BitVec 64) (s : BitVec 64 × BitVec 64) : BitVec 64 × BitVec 64 :=
  let remainder := s.1 <<< 1
  let resValue := s.2 <<< 1
  if divisor ≤ remainder then (remainder - divisor, resValue ||| 1) else (remainder, resValue)

/-- `dal_fixed31_32_from_fraction` -/
def fromFraction (numerator denominator : BitVec 64) : Except Fault Fixed31_32 := do
  let arg1Negative := numerator.slt 0
  let arg2Negative := denominator.slt 0
  let arg1Value := if arg1Negative then -numerator else numerator
  let arg2Value := if arg2Negative then -denominator else denominator
  let quotient ← completeIntegerDivisionU64 arg1Value arg2Value
  -- the fractional part
  let bits := (fractionBit arg2Value)^[bitsPerFractionalPart] (quotient.2, quotient.1)
  -- the last place is rounded
  let summand : BitVec 64 := if arg2Value ≤ bits.1 <<< 1 then 1 else 0
  let resValue := bits.2 + summand
  pure ⟨if arg1Negative ^^ arg2Negative then -resValue else resValue⟩

/-- `dal_fixed31_32_from_int` -/
def fromInt (arg : BitVec 64) : Fixed31_32 := ⟨arg <<< bitsPerFractionalPart⟩

/-- `dal_fixed31_32_neg` -/
def neg (arg : Fixed31_32) : Fixed31_32 := ⟨-arg.value⟩

/-- `dal_fixed31_32_lt` -/
def lt (arg1 arg2 : Fixed31_32) : Bool := arg1.value.slt arg2.value

/-- `dal_fixed31_32_le` -/
def le (arg1 arg2 : Fixed31_32) : Bool := arg1.value.sle arg2.value

/-- `dal_fixed31_32_abs` -/
def abs (arg : Fixed31_32) : Fixed31_32 := if arg.value.slt 0 then neg arg else arg

/-- `dal_fixed31_32_clamp` -/
def clamp (arg minValue maxValue : Fixed31_32) : Fixed31_32 :=
  if le arg minValue then minValue else if le maxValue arg then maxValue else arg

/-- `dal_fixed31_32_shl` -/
def shl (arg : Fixed31_32) (shift : BitVec 8) : Except Fault Fixed31_32 :=
  if 64 ≤ shift.toNat then .error .shiftOutOfRange else .ok ⟨arg.value <<< shift.toNat⟩

/-- `dal_fixed31_32_add` -/
def add (arg1 arg2 : Fixed31_32) : Fixed31_32 := ⟨arg1.value + arg2.value⟩

/-- `dal_fixed31_32_sub` -/
def sub (arg1 arg2 : Fixed31_32) : Fixed31_32 := ⟨arg1.value - arg2.value⟩

/-- `dal_fixed31_32_mul` -/
def mul (arg1 arg2 : Fixed31_32) : Fixed31_32 :=
  let arg1Negative := arg1.value.slt 0
  let arg2Negative := arg2.value.slt 0
  let arg1Value := if arg1Negative then -arg1.value else arg1.value
  let arg2Value := if arg2Negative then -arg2.value else arg2.value
  let arg1Int := getIntegerPart arg1Value
  let arg2Int := getIntegerPart arg2Value
  let arg1Fra := getFractionalPart arg1Value
  let arg2Fra := getFractionalPart arg2Value
  let res := (arg1Int * arg2Int) <<< bitsPerFractionalPart
  let res := res + arg1Int * arg2Fra
  let res := res + arg2Int * arg1Fra
  let tmp := arg1Fra * arg2Fra
  let tmp := (tmp >>> bitsPerFractionalPart) + if half.value ≤ tmp then 1 else 0
  let res := res + tmp
  ⟨if arg1Negative ^^ arg2Negative then -res else res⟩

/-- `dal_fixed31_32_sqr` -/
def sqr (arg : Fixed31_32) : Fixed31_32 :=
  let argValue := absI64 arg.value
  let argInt := getIntegerPart argValue
  let argFra := getFractionalPart argValue
  let res := (argInt * argInt) <<< bitsPerFractionalPart
  let tmp := argInt * argFra
  let res := res + tmp
  let res := res + tmp
  let tmp := argFra * argFra
  let tmp := (tmp >>> bitsPerFractionalPart) + if half.value ≤ tmp then 1 else 0
  ⟨res + tmp⟩

/-- `dal_fixed31_32_mul_int` -/
def mulInt (arg1 : Fixed31_32) (arg2 : BitVec 32) : Fixed31_32 :=
  mul arg1 (fromInt (arg2.signExtend 64))

/-- `dal_fixed31_32_div_int` -/
def divInt (arg1 : Fixed31_32) (arg2 : BitVec 64) : Except Fault Fixed31_32 :=
  fromFraction arg1.value (fromInt arg2).value

/-- `dal_fixed31_32_div` -/
def div (arg1 arg2 : Fixed31_32) : Except Fault Fixed31_32 := fromFraction arg1.value arg2.value

/-- `dal_fixed31_32_recip` -/
def recip (arg : Fixed31_32) : Except Fault Fixed31_32 := fromFraction one.value arg.value

/-- `dal_fixed31_32_floor` -/
def floor (arg : Fixed31_32) : BitVec 32 :=
  let argValue := absI64 arg.value
  if (0#64).sle arg.value then (getIntegerPart argValue).setWidth 32
  else -(getIntegerPart argValue).setWidth 32

/-- `dal_fixed31_32_round` -/
def round (arg : Fixed31_32) : BitVec 32 :=
  let argValue := absI64 arg.value + half.value
  if (0#64).sle arg.value then (getIntegerPart argValue).setWidth 32
  else -(getIntegerPart argValue).setWidth 32

/-! ## Signs and magnitudes -/

/-- A number by its sign and its magnitude, in a word. -/
def ofMagnitude (negative : Bool) (n : ℕ) : Fixed31_32 :=
  ⟨if negative then -BitVec.ofNat 64 n else BitVec.ofNat 64 n⟩

variable {x y : Fixed31_32} {n : ℕ} {negative : Bool}

/-- The numbers that there are. -/
theorem toInt_bounds (x : Fixed31_32) : -2 ^ 63 ≤ x.toInt ∧ x.toInt < 2 ^ 63 :=
  ⟨BitVec.le_toInt x.value, BitVec.toInt_lt⟩

/-- A number is its units. -/
@[ext] theorem ext_toInt (h : x.toInt = y.toInt) : x = y := by
  cases x
  cases y
  exact congrArg mk (BitVec.eq_of_toInt_eq h)

/-- A magnitude and a sign, in 64 bits. -/
theorem toInt_ofMagnitude (negative : Bool) (n : ℕ) :
    (ofMagnitude negative n).toInt = (if negative then -(n : ℤ) else n).bmod (2 ^ 64) := by
  have hpos : (BitVec.ofNat 64 n).toInt = (n : ℤ).bmod (2 ^ 64) := by
    rw [BitVec.toInt_eq_toNat_bmod, BitVec.toNat_ofNat, Int.natCast_mod, Int.emod_bmod]
  cases negative
  · exact hpos
  · change (-BitVec.ofNat 64 n).toInt = (-(n : ℤ)).bmod (2 ^ 64)
    rw [BitVec.toInt_neg, hpos]
    simp

/-- The test of the sign. -/
theorem slt_zero (w : BitVec 64) : w.slt 0 = decide (w.toInt < 0) := rfl

/-- The magnitude of a signed word. -/
theorem magnitude_toNat (w : BitVec 64) :
    (if w.slt 0 then -w else w).toNat = w.toInt.natAbs := by
  rw [slt_zero]
  have hle := BitVec.le_toInt w
  have hdef := BitVec.toInt_eq_toNat_cond w
  have hlt := w.isLt
  by_cases hw : w.toInt < 0
  · rw [decide_eq_true hw, if_pos rfl, BitVec.toNat_neg]
    split_ifs at hdef <;> omega
  · rw [decide_eq_false hw, if_neg Bool.false_ne_true]
    split_ifs at hdef <;> omega

/-- The magnitude of a word. -/
theorem absI64_eq (w : BitVec 64) : absI64 w = if w.slt 0 then -w else w := by
  rw [absI64, slt_zero, BitVec.slt]
  rcases lt_trichotomy w.toInt 0 with hw | hw | hw
  · simp [hw, hw.le]
  · obtain rfl : w = 0 := BitVec.eq_of_toInt_eq hw
    rfl
  · simp [hw, hw.le]

/-- The number fits into the format. -/
def Fits (z : ℤ) : Prop := -2 ^ 63 ≤ z ∧ z < 2 ^ 63

/-- Nothing is lost if it fits. -/
theorem bmod_of_fits {z : ℤ} (h : Fits z) : z.bmod (2 ^ 64) = z := by
  obtain ⟨hle, hlt⟩ := h
  rw [Int.bmod_eq_of_le] <;> omega

/-- A magnitude and a sign that fit. -/
theorem toInt_ofMagnitude_of_fits (h : Fits (if negative then -(n : ℤ) else n)) :
    (ofMagnitude negative n).toInt = if negative then -(n : ℤ) else n := by
  rw [toInt_ofMagnitude, bmod_of_fits h]

/-- A number of units that is not too large. -/
theorem toInt_units (h : n < 2 ^ 63) : (ofMagnitude false n).toInt = n := by
  apply toInt_ofMagnitude_of_fits
  change -2 ^ 63 ≤ (n : ℤ) ∧ (n : ℤ) < 2 ^ 63
  omega

/-- The order is that of the units. -/
theorem le_eq (a b : Fixed31_32) : le a b = decide (a.toInt ≤ b.toInt) := rfl

/-- The strict order too. -/
theorem lt_eq (a b : Fixed31_32) : lt a b = decide (a.toInt < b.toInt) := rfl

/-- Sums that fit. -/
theorem toInt_add {a b : Fixed31_32} (h : Fits (a.toInt + b.toInt)) :
    (add a b).toInt = a.toInt + b.toInt := by
  rw [toInt, add, BitVec.toInt_add]
  exact bmod_of_fits h

/-- Differences that fit. -/
theorem toInt_sub {a b : Fixed31_32} (h : Fits (a.toInt - b.toInt)) :
    (sub a b).toInt = a.toInt - b.toInt := by
  rw [toInt, sub, BitVec.toInt_sub]
  exact bmod_of_fits h

/-- Negation, except of `-2 ^ 63`. -/
theorem toInt_neg {a : Fixed31_32} (h : Fits (-a.toInt)) : (neg a).toInt = -a.toInt := by
  rw [toInt, neg, BitVec.toInt_neg]
  exact bmod_of_fits h

/-- Absolute values, except of `-2 ^ 63`. -/
theorem toInt_abs {x : Fixed31_32} (h : x.toInt ≠ -2 ^ 63) : (abs x).toInt = |x.toInt| := by
  have hbounds := x.toInt_bounds
  have hslt : x.value.slt 0 = decide (x.toInt < 0) := rfl
  rw [abs, hslt]
  by_cases hx : x.toInt < 0
  · have hfits : Fits (-x.toInt) := by constructor <;> omega
    rw [if_pos (decide_eq_true hx), toInt_neg hfits, abs_of_neg hx]
  · rw [if_neg (by simpa using hx), abs_of_nonneg (not_lt.mp hx)]

/-- Integers that fit. -/
theorem toInt_fromInt {w : BitVec 64} (h : Fits (w.toInt * 2 ^ 32)) :
    (fromInt w).toInt = w.toInt * 2 ^ 32 := by
  rw [toInt, fromInt, bitsPerFractionalPart, BitVec.shiftLeft_eq_mul_twoPow, BitVec.toInt_mul]
  exact bmod_of_fits h

/-! ## Words as numbers -/

/-- A shift to the left multiplies. -/
theorem shiftLeft_ofNat (a k : ℕ) : BitVec.ofNat 64 a <<< k = BitVec.ofNat 64 (a * 2 ^ k) := by
  apply BitVec.eq_of_toNat_eq
  rw [BitVec.toNat_shiftLeft, BitVec.toNat_ofNat, BitVec.toNat_ofNat, Nat.shiftLeft_eq,
    Nat.mod_mul_mod]

/-- A shift to the right divides. -/
theorem shiftRight_ofNat {a : ℕ} (k : ℕ) (h : a < 2 ^ 64) :
    BitVec.ofNat 64 a >>> k = BitVec.ofNat 64 (a / 2 ^ k) := by
  apply BitVec.eq_of_toNat_eq
  rw [BitVec.toNat_ushiftRight, BitVec.toNat_ofNat, BitVec.toNat_ofNat, Nat.mod_eq_of_lt h,
    Nat.shiftRight_eq_div_pow, Nat.mod_eq_of_lt ((Nat.div_le_self _ _).trans_lt h)]

/-- Words are compared as natural numbers. -/
theorem ofNat_le_iff (w : BitVec 64) {a : ℕ} (h : a < 2 ^ 64) :
    w ≤ BitVec.ofNat 64 a ↔ w.toNat ≤ a := by
  rw [BitVec.le_def, BitVec.toNat_ofNat, Nat.mod_eq_of_lt h]

/-- One more, if a number has come to a bound. -/
theorem ofNat_add_ite (w : BitVec 64) {a : ℕ} (h : a < 2 ^ 64) (n : ℕ) :
    BitVec.ofNat 64 n + (if w ≤ BitVec.ofNat 64 a then 1 else 0) =
      BitVec.ofNat 64 (n + if w.toNat ≤ a then 1 else 0) := by
  have hiff := ofNat_le_iff w h
  by_cases hle : w.toNat ≤ a
  · rw [if_pos hle, if_pos (hiff.mpr hle), BitVec.ofNat_add]
    rfl
  · rw [if_neg hle, if_neg (mt hiff.mp hle), Nat.add_zero]
    exact BitVec.add_zero _

/-- Setting the lowest bit of an even word. -/
theorem even_or_one (a : ℕ) : BitVec.ofNat 64 (2 * a) ||| 1 = BitVec.ofNat 64 (2 * a + 1) := by
  apply BitVec.eq_of_toNat_eq
  have hor := Nat.shiftLeft_add_eq_or_of_lt (show 1 < 2 ^ 1 by norm_num) (a % 2 ^ 63)
  rw [Nat.shiftLeft_eq] at hor
  rw [BitVec.toNat_or, BitVec.toNat_ofNat, BitVec.toNat_ofNat]
  change 2 * a % 2 ^ 64 ||| 1 = _
  rw [show 2 * a % 2 ^ 64 = a % 2 ^ 63 * 2 ^ 1 by omega, ← hor]
  omega

/-! ## Quotients -/

/-- The words of the loop hold the remainder and the quotient of a long division. The remainder is
below the divisor and the divisor is a magnitude, so that doubling the remainder does not lose its
highest bit; the quotient may lose bits. -/
theorem fractionBit_divStep {divisor : BitVec 64} {t : ℕ × ℕ} (hd : divisor.toNat ≤ 2 ^ 63)
    (hlt : t.1 < divisor.toNat) :
    (Rounding.divStep divisor.toNat t).1 < divisor.toNat ∧
      fractionBit divisor (BitVec.ofNat 64 t.1, BitVec.ofNat 64 t.2) =
        (BitVec.ofNat 64 (Rounding.divStep divisor.toNat t).1,
          BitVec.ofNat 64 (Rounding.divStep divisor.toNat t).2) := by
  simp only [fractionBit, shiftLeft_ofNat, pow_one, Nat.mul_comm _ 2]
  rw [Rounding.divStep]
  have hiff := ofNat_le_iff divisor (show 2 * t.1 < 2 ^ 64 by omega)
  by_cases hle : divisor.toNat ≤ 2 * t.1
  · rw [if_pos hle, if_pos (hiff.mpr hle)]
    refine ⟨by dsimp only; omega, Prod.ext ?_ (even_or_one _)⟩
    apply BitVec.eq_of_toNat_eq
    rw [BitVec.toNat_sub_of_le (hiff.mpr hle), BitVec.toNat_ofNat, BitVec.toNat_ofNat,
      Nat.mod_eq_of_lt (by omega), Nat.mod_eq_of_lt (by omega)]
  · rw [if_neg hle, if_neg (mt hiff.mp hle)]
    exact ⟨not_le.mp hle, rfl⟩

/-- The whole loop, from the integer quotient and its remainder. -/
theorem iterate_fractionBit {dividend divisor : BitVec 64} (hd : divisor.toNat ≤ 2 ^ 63)
    (hpos : 0 < divisor.toNat) (k : ℕ) :
    (fractionBit divisor)^[k] (dividend % divisor, dividend / divisor) =
      (BitVec.ofNat 64 (2 ^ k * dividend.toNat % divisor.toNat),
        BitVec.ofNat 64 (2 ^ k * dividend.toNat / divisor.toNat)) := by
  have hstart : (dividend % divisor, dividend / divisor) =
      (BitVec.ofNat 64 (dividend.toNat % divisor.toNat),
        BitVec.ofNat 64 (dividend.toNat / divisor.toNat)) := by
    refine Prod.ext ?_ ?_
    · rw [← BitVec.toNat_umod, BitVec.ofNat_toNat, BitVec.setWidth_eq]
    · rw [← BitVec.toNat_udiv, BitVec.ofNat_toNat, BitVec.setWidth_eq]
  induction k with
  | zero => simpa using hstart
  | succ k ih =>
    have hstep := fractionBit_divStep (t := (2 ^ k * dividend.toNat % divisor.toNat,
      2 ^ k * dividend.toNat / divisor.toNat)) hd (Nat.mod_lt _ hpos)
    have hnext := Rounding.iterate_divStep dividend.toNat (k + 1) hpos
    rw [Function.iterate_succ_apply', Rounding.iterate_divStep _ _ hpos] at hnext
    rw [Function.iterate_succ_apply', ih, hstep.2, hnext]

/-- **What `dal_fixed31_32_from_fraction` computes**, for all arguments: the rounded quotient of the
magnitudes, as far as it fits into a word, with the sign of the quotient. -/
theorem fromFraction_eq (numerator : BitVec 64) {denominator : BitVec 64} (h : denominator ≠ 0) :
    fromFraction numerator denominator =
      .ok (ofMagnitude (numerator.slt 0 ^^ denominator.slt 0)
        (Rounding.divNat (numerator.toInt.natAbs * 2 ^ 32) denominator.toInt.natAbs)) := by
  have hbounds := BitVec.le_toInt denominator
  have hbounds' := @BitVec.toInt_lt 64 denominator
  have hne : denominator.toInt ≠ 0 := fun hzero => h (BitVec.eq_of_toInt_eq hzero)
  have hdiv := magnitude_toNat denominator
  have hnum := magnitude_toNat numerator
  simp only [fromFraction]
  generalize (if numerator.slt 0 then -numerator else numerator) = arg1Value at hnum ⊢
  generalize (if denominator.slt 0 then -denominator else denominator) = arg2Value at hdiv ⊢
  have hpos : 0 < arg2Value.toNat := by omega
  have hzero : arg2Value ≠ 0 := by
    rintro rfl
    exact absurd hpos (lt_irrefl _)
  have hmod := Nat.mod_lt (2 ^ 32 * arg1Value.toNat) hpos
  have hbits := @iterate_fractionBit arg1Value arg2Value (by omega) hpos 32
  simp only [completeIntegerDivisionU64, if_neg hzero, bind, Except.bind, pure, Except.pure,
    bitsPerFractionalPart, hbits, shiftLeft_ofNat, pow_one, Nat.mul_comm _ 2]
  rw [ofMagnitude, ← hdiv, ← hnum, Nat.mul_comm arg1Value.toNat, Rounding.divNat_eq _ hpos]
  rw [ofNat_add_ite _ (by omega)]

/-- A quotient of numbers of units. -/
theorem fromFraction_units {n d : ℕ} (hn : n < 2 ^ 63) (hpos : 0 < d) (hd : d < 2 ^ 63) :
    fromFraction (BitVec.ofNat 64 n) (BitVec.ofNat 64 d) =
      .ok (ofMagnitude false (Rounding.divNat (n * 2 ^ 32) d)) := by
  have hn' : (BitVec.ofNat 64 n).toInt = n := toInt_units hn
  have hd' : (BitVec.ofNat 64 d).toInt = d := toInt_units hd
  have hne : BitVec.ofNat 64 d ≠ 0 := by
    intro hzero
    rw [hzero] at hd'
    exact absurd (Int.natCast_eq_zero.mp hd'.symm) hpos.ne'
  rw [fromFraction_eq _ hne, slt_zero, slt_zero, hn', hd', Int.natAbs_natCast, Int.natAbs_natCast,
    decide_eq_false (by omega), decide_eq_false (by omega)]
  rfl

section Away

variable {K : Type*} [Field K] [LinearOrder K] [IsStrictOrderedRing K]

/-- A word, from its sign and magnitude. -/
theorem cast_toInt (w : BitVec 64) :
    (w.toInt : K) = if w.slt 0 then -((w.toInt.natAbs : ℕ) : K) else (w.toInt.natAbs : ℕ) := by
  have habs : ((w.toInt.natAbs : ℕ) : K) = |(w.toInt : K)| := by
    rw [Nat.cast_natAbs, Int.cast_abs]
  rw [slt_zero, habs]
  by_cases hw : w.toInt < 0
  · simp [hw, abs_of_neg (Int.cast_lt_zero.mpr hw)]
  · simp [hw, abs_of_nonneg (Int.cast_nonneg (not_lt.mp hw))]

variable [FloorRing K]

/-- The rounded quotient of two numbers as a sign and a magnitude. -/
theorem away_div_eq (n : BitVec 64) {d : BitVec 64} (h : d ≠ 0) (k : ℕ) :
    Rounding.away ((n.toInt : K) * k / d.toInt) =
      if n.slt 0 ^^ d.slt 0 then -(Rounding.divNat (n.toInt.natAbs * k) d.toInt.natAbs : ℤ)
      else Rounding.divNat (n.toInt.natAbs * k) d.toInt.natAbs := by
  have hpos : 0 < d.toInt.natAbs :=
    Int.natAbs_pos.mpr fun hzero => h (BitVec.eq_of_toInt_eq hzero)
  rw [← @Rounding.away_ite_div K _ _ _ _ _ _ _ hpos, cast_toInt n, cast_toInt d]
  congr 1
  cases n.slt 0 <;> cases d.slt 0 <;> simp [neg_div, div_neg]

/-- The rounded product of two numbers as a sign and a magnitude. -/
theorem away_mul_eq (a b : BitVec 64) :
    Rounding.away ((a.toInt : K) * b.toInt / (2 ^ 32 : ℕ)) =
      if a.slt 0 ^^ b.slt 0 then
        -(Rounding.divNat (a.toInt.natAbs * b.toInt.natAbs) (2 ^ 32) : ℤ)
      else Rounding.divNat (a.toInt.natAbs * b.toInt.natAbs) (2 ^ 32) := by
  rw [← @Rounding.away_ite_div K _ _ _ _ _ _ (2 ^ 32) (by norm_num), cast_toInt a, cast_toInt b]
  congr 1
  cases a.slt 0 <;> cases b.slt 0 <;> simp

/-- A quotient that fits is the rounded one. -/
theorem fromFraction_away (numerator : BitVec 64) {denominator : BitVec 64}
    (hden : denominator ≠ 0)
    (hfits : Fits (Rounding.away ((numerator.toInt : K) * (2 ^ 32 : ℕ) / denominator.toInt))) :
    ∃ res, fromFraction numerator denominator = .ok res ∧
      res.toInt = Rounding.away ((numerator.toInt : K) * (2 ^ 32 : ℕ) / denominator.toInt) := by
  refine ⟨_, fromFraction_eq numerator hden, ?_⟩
  rw [away_div_eq numerator hden] at hfits ⊢
  exact toInt_ofMagnitude_of_fits hfits

end Away

/-- **Quotients are rounded.** `dal_fixed31_32_from_fraction` returns the numerator, in units of the
last place, divided by the denominator, rounded to the nearest number; a quotient in the middle of
two numbers is rounded away from zero. -/
theorem fromFraction_rounds (numerator denominator : BitVec 64) (hden : denominator ≠ 0)
    (hfits : Fits (Rounding.away ((numerator.toInt : ℚ) * (2 ^ 32 : ℕ) / denominator.toInt))) :
    ∃ res, fromFraction numerator denominator = .ok res ∧
      res.toInt = Rounding.away ((numerator.toInt : ℚ) * (2 ^ 32 : ℕ) / denominator.toInt) :=
  fromFraction_away numerator hden hfits

/-- Minus one half of the last place. -/
theorem fromFraction_rounds_half : ∃ res, fromFraction (-1) (2 ^ 33) = .ok res ∧
    res.toInt = Rounding.away (((-1 : BitVec 64).toInt : ℚ) * (2 ^ 32 : ℕ) /
      (2 ^ 33 : BitVec 64).toInt) := by
  refine fromFraction_rounds (-1) (2 ^ 33) (by decide) ?_
  rw [away_div_eq _ (by decide)]
  constructor <;> decide

/-! ## Products -/

/-- The magnitude of a product: the partial products, and one more if the product of the fractional
parts is at least one half of the last place. -/
def mulMagnitude (a b : ℕ) : ℕ :=
  a * b / 2 ^ 32 + if 2 ^ 31 ≤ (a % 2 ^ 32) * (b % 2 ^ 32) then 1 else 0

/-- The upper half. -/
theorem getIntegerPart_eq (w : BitVec 64) :
    getIntegerPart w = BitVec.ofNat 64 (w.toNat / 2 ^ 32) := by
  rw [getIntegerPart, bitsPerFractionalPart, ← shiftRight_ofNat 32 w.isLt, BitVec.ofNat_toNat,
    BitVec.setWidth_eq]

/-- The lower half. -/
theorem getFractionalPart_eq (w : BitVec 64) :
    getFractionalPart w = BitVec.ofNat 64 (w.toNat % 2 ^ 32) := by
  apply BitVec.eq_of_toNat_eq
  rw [getFractionalPart, BitVec.toNat_and, BitVec.toNat_ofNat]
  change (2 ^ 32 - 1) &&& w.toNat = _
  rw [Nat.and_comm, Nat.and_two_pow_sub_one_eq_mod]
  omega

/-- The four partial products are those of the whole product. -/
theorem partial_products (a b : ℕ) :
    a / 2 ^ 32 * (b / 2 ^ 32) * 2 ^ 32 + a / 2 ^ 32 * (b % 2 ^ 32) + b / 2 ^ 32 * (a % 2 ^ 32) +
      a % 2 ^ 32 * (b % 2 ^ 32) / 2 ^ 32 = a * b / 2 ^ 32 := by
  have ha := Nat.div_add_mod a (2 ^ 32)
  have hb := Nat.div_add_mod b (2 ^ 32)
  generalize a / 2 ^ 32 = ai at ha ⊢
  generalize b / 2 ^ 32 = bi at hb ⊢
  generalize a % 2 ^ 32 = af at ha ⊢
  generalize b % 2 ^ 32 = bf at hb ⊢
  have hprod : a * b = af * bf + (ai * bi * 2 ^ 32 + ai * bf + bi * af) * 2 ^ 32 := by
    rw [← ha, ← hb]
    ring
  rw [hprod, Nat.add_mul_div_right _ _ (by norm_num), add_comm]

/-- The words of the product of two magnitudes. -/
theorem mul_words (a b : BitVec 64) :
    (getIntegerPart a * getIntegerPart b) <<< bitsPerFractionalPart +
      getIntegerPart a * getFractionalPart b + getIntegerPart b * getFractionalPart a +
      ((getFractionalPart a * getFractionalPart b) >>> bitsPerFractionalPart +
        if half.value ≤ getFractionalPart a * getFractionalPart b then 1 else 0) =
      BitVec.ofNat 64 (mulMagnitude a.toNat b.toNat) := by
  have hlt : a.toNat % 2 ^ 32 * (b.toNat % 2 ^ 32) < 2 ^ 64 := by
    have ha := Nat.mod_lt a.toNat (show 0 < 2 ^ 32 by norm_num)
    have hb := Nat.mod_lt b.toNat (show 0 < 2 ^ 32 by norm_num)
    calc a.toNat % 2 ^ 32 * (b.toNat % 2 ^ 32) < 2 ^ 32 * 2 ^ 32 := Nat.mul_lt_mul'' ha hb
      _ = 2 ^ 64 := by norm_num
  simp only [getIntegerPart_eq, getFractionalPart_eq, ← BitVec.ofNat_mul, shiftLeft_ofNat,
    bitsPerFractionalPart, shiftRight_ofNat 32 hlt, ← BitVec.ofNat_add]
  rw [ofNat_add_ite _ hlt, ← BitVec.ofNat_add, ← add_assoc, partial_products]
  rfl

/-- **What `dal_fixed31_32_mul` computes**, for all arguments. -/
theorem mul_eq (a b : Fixed31_32) :
    mul a b = ofMagnitude (a.value.slt 0 ^^ b.value.slt 0)
      (mulMagnitude a.toInt.natAbs b.toInt.natAbs) := by
  have ha := magnitude_toNat a.value
  have hb := magnitude_toNat b.value
  rw [toInt, toInt, ← ha, ← hb, ofMagnitude, ← mul_words]
  rfl

/-- The square is the product of the number with itself. -/
theorem sqr_eq_mul (a : Fixed31_32) : sqr a = mul a a := by
  simp only [sqr, mul, absI64_eq, Bool.xor_self]
  rfl

/-- The magnitude is that of the rounded product exactly if the product of the fractional parts is
less than one half of the last place, or has at least one half in its own last place. -/
theorem mulMagnitude_eq_iff (a b : ℕ) :
    mulMagnitude a b = Rounding.divNat (a * b) (2 ^ 32) ↔
      a % 2 ^ 32 * (b % 2 ^ 32) < 2 ^ 31 ∨ 2 ^ 31 ≤ a % 2 ^ 32 * (b % 2 ^ 32) % 2 ^ 32 := by
  rw [mulMagnitude, Rounding.divNat_eq _ (by norm_num), Nat.mul_mod a b]
  generalize a % 2 ^ 32 * (b % 2 ^ 32) = p
  generalize a * b / 2 ^ 32 = q
  split_ifs <;> omega

/-- The product is the rounded one, or one more. -/
theorem mulMagnitude_bounds (a b : ℕ) :
    Rounding.divNat (a * b) (2 ^ 32) ≤ mulMagnitude a b ∧
      mulMagnitude a b ≤ Rounding.divNat (a * b) (2 ^ 32) + 1 := by
  rw [mulMagnitude, Rounding.divNat_eq _ (by norm_num), Nat.mul_mod a b]
  generalize a % 2 ^ 32 * (b % 2 ^ 32) = p
  generalize a * b / 2 ^ 32 = q
  split_ifs <;> omega

/-- **When products are rounded to the nearest number.** The function compares the whole product of
the fractional parts with one half of the last place, where only the bits that are cut off should be
compared. -/
theorem mul_rounds_iff (a b : Fixed31_32)
    (hfits : Fits (Rounding.away ((a.toInt : ℚ) * b.toInt / (2 ^ 32 : ℕ)))) :
    ((mul a b).toInt = Rounding.away ((a.toInt : ℚ) * b.toInt / (2 ^ 32 : ℕ)) ∧
        sqr a = mul a a) ↔
      a.toInt.natAbs % 2 ^ 32 * (b.toInt.natAbs % 2 ^ 32) < 2 ^ 31 ∨
        2 ^ 31 ≤ a.toInt.natAbs % 2 ^ 32 * (b.toInt.natAbs % 2 ^ 32) % 2 ^ 32 := by
  rw [and_iff_left (sqr_eq_mul a), ← mulMagnitude_eq_iff, mul_eq, toInt_ofMagnitude]
  simp only [toInt] at hfits ⊢
  rw [away_mul_eq] at hfits ⊢
  have hbounds := mulMagnitude_bounds a.value.toInt.natAbs b.value.toInt.natAbs
  generalize mulMagnitude _ _ = m at hbounds ⊢
  generalize Rounding.divNat _ _ = r at hfits hbounds ⊢
  constructor
  · -- a word that is off by one is another word
    intro h
    have hmod := congrArg (fun z : ℤ => z % (2 ^ 64 : ℕ)) h
    simp only [Int.bmod_emod] at hmod
    split_ifs at hmod <;> omega
  · rintro rfl
    exact bmod_of_fits hfits

/-- Three quarters of a unit are rounded to one unit. -/
theorem mul_rounds_iff_threeQuarters : (mul ⟨0xc000⟩ ⟨0x10000⟩).toInt = 1 ∧
    (mul ⟨0xc000⟩ ⟨0x10000⟩).toInt = Rounding.away (((⟨0xc000⟩ : Fixed31_32).toInt : ℚ) *
      (⟨0x10000⟩ : Fixed31_32).toInt / (2 ^ 32 : ℕ)) := by
  have hfits : Fits (Rounding.away (((⟨0xc000⟩ : Fixed31_32).toInt : ℚ) *
      (⟨0x10000⟩ : Fixed31_32).toInt / (2 ^ 32 : ℕ))) := by
    rw [toInt, toInt, away_mul_eq]
    constructor <;> decide
  exact ⟨by decide, ((mul_rounds_iff _ _ hfits).mpr (.inr (by decide))).1⟩

/-- The product of two numbers of 2^16 units is one unit, and the function returns two. -/
theorem mul_rounds_wrong :
    Fits (Rounding.away (((⟨0x10000⟩ : Fixed31_32).toInt : ℚ) *
        (⟨0x10000⟩ : Fixed31_32).toInt / (2 ^ 32 : ℕ))) ∧
      (mul ⟨0x10000⟩ ⟨0x10000⟩).toInt = 2 ∧
      Rounding.away (((⟨0x10000⟩ : Fixed31_32).toInt : ℚ) *
        (⟨0x10000⟩ : Fixed31_32).toInt / (2 ^ 32 : ℕ)) = 1 := by
  have hone : Rounding.away (((⟨0x10000⟩ : Fixed31_32).toInt : ℚ) *
      (⟨0x10000⟩ : Fixed31_32).toInt / (2 ^ 32 : ℕ)) = 1 := by
    rw [toInt, away_mul_eq]
    decide
  refine ⟨?_, by decide, hone⟩
  rw [hone]
  constructor <;> norm_num

/-! ## Integers -/

/-- The upper half as an `int`. -/
theorem setWidth_getIntegerPart (w : BitVec 64) :
    (getIntegerPart w).setWidth 32 = BitVec.ofNat 32 (w.toNat / 2 ^ 32) := by
  rw [getIntegerPart_eq]
  apply BitVec.eq_of_toNat_eq
  have hlt := w.isLt
  rw [BitVec.toNat_setWidth, BitVec.toNat_ofNat, BitVec.toNat_ofNat]
  omega

/-- The magnitude as a natural number. -/
theorem absI64_toNat (w : BitVec 64) : (absI64 w).toNat = w.toInt.natAbs := by
  rw [absI64_eq, magnitude_toNat]

/-- Its bound. -/
theorem toNat_natAbs_le (x : Fixed31_32) : x.toInt.natAbs ≤ 2 ^ 63 := by
  have h := x.toInt_bounds
  omega

/-- The test for numbers that are not negative. -/
theorem zero_sle (x : Fixed31_32) : (0#64).sle x.value = decide (0 ≤ x.toInt) := rfl

/-- `dal_fixed31_32_floor` cuts off the fractional bits of the magnitude. -/
theorem floor_eq (x : Fixed31_32) : floor x = BitVec.ofInt 32 (x.toInt.tdiv (2 ^ 32)) := by
  simp only [floor, setWidth_getIntegerPart, absI64_toNat, zero_sle, decide_eq_true_eq]
  rw [← BitVec.ofInt_natCast]
  change (if 0 ≤ x.toInt then BitVec.ofInt 32 ((x.toInt.natAbs / 2 ^ 32 : ℕ) : ℤ)
    else -BitVec.ofInt 32 ((x.toInt.natAbs / 2 ^ 32 : ℕ) : ℤ)) = _
  split_ifs with hx
  · rw [Int.tdiv_eq_ediv_of_nonneg hx]
    congr 1
    omega
  · rw [← BitVec.ofInt_neg, ← neg_neg x.toInt, Int.neg_tdiv,
      Int.tdiv_eq_ediv_of_nonneg (by omega)]
    congr 1
    omega

/-- `dal_fixed31_32_round` adds one half to the magnitude first. -/
theorem round_eq (x : Fixed31_32) :
    round x = if x.toInt < 0 then -BitVec.ofNat 32 ((x.toInt.natAbs + 2 ^ 31) / 2 ^ 32)
      else BitVec.ofNat 32 ((x.toInt.natAbs + 2 ^ 31) / 2 ^ 32) := by
  have hhalf : (absI64 x.value + half.value).toNat = x.toInt.natAbs + 2 ^ 31 := by
    have hle := x.toNat_natAbs_le
    have hvalue : half.value.toNat = 2 ^ 31 := rfl
    rw [BitVec.toNat_add, absI64_toNat, hvalue, Nat.mod_eq_of_lt]
    · rfl
    · rw [toInt] at hle
      omega
  simp only [round, setWidth_getIntegerPart, hhalf, zero_sle, decide_eq_true_eq]
  by_cases hx : x.toInt < 0
  · rw [if_pos hx, if_neg (not_le.mpr hx)]
  · rw [if_neg hx, if_pos (not_lt.mp hx)]

/-- A product by its sign and the product of the magnitudes. -/
theorem sign_mul (a b : ℤ) :
    (if decide (a < 0) ^^ decide (b < 0) then -((a.natAbs * b.natAbs : ℕ) : ℤ)
      else (a.natAbs * b.natAbs : ℕ)) = a * b := by
  have hcast : ∀ z : ℤ, ((z.natAbs : ℕ) : ℤ) = if z < 0 then -z else z := by
    intro z
    split_ifs <;> omega
  rw [Nat.cast_mul, hcast, hcast]
  by_cases ha : a < 0 <;> by_cases hb : b < 0 <;> simp [ha, hb]

/-- The product with an integer is exact. -/
theorem mulMagnitude_integer (a b : ℕ) : mulMagnitude a (b * 2 ^ 32) = a * b := by
  have hfraction : b * 2 ^ 32 % 2 ^ 32 = 0 := Nat.mul_mod_left _ _
  simp only [mulMagnitude, hfraction]
  rw [← mul_assoc, Nat.mul_div_cancel _ (by norm_num)]
  rfl

/-- A product with an integer is exact. -/
theorem toInt_mulInt {x : Fixed31_32} {w : BitVec 32} (h : Fits (x.toInt * w.toInt)) :
    (mulInt x w).toInt = x.toInt * w.toInt := by
  have hle := BitVec.le_toInt w
  have hlt := @BitVec.toInt_lt 32 w
  have hext : (w.signExtend 64).toInt = w.toInt := BitVec.toInt_signExtend_of_le (by norm_num)
  have hint : (fromInt (w.signExtend 64)).toInt = w.toInt * 2 ^ 32 := by
    rw [toInt_fromInt, hext]
    rw [hext]
    constructor <;> omega
  have hsign : (fromInt (w.signExtend 64)).value.slt 0 = decide (w.toInt < 0) := by
    rw [slt_zero, decide_eq_decide]
    change (fromInt (w.signExtend 64)).toInt < 0 ↔ _
    omega
  have habs : (w.toInt * 2 ^ 32).natAbs = w.toInt.natAbs * 2 ^ 32 := Int.natAbs_mul _ _
  rw [mulInt, mul_eq, hint, habs, mulMagnitude_integer, hsign, slt_zero, toInt_ofMagnitude]
  change Int.bmod (if decide (x.toInt < 0) ^^ decide (w.toInt < 0) then _ else _) _ = _
  rw [sign_mul, bmod_of_fits h]

end Fixed31_32

end Dc
