import AmdgpuPro.Lib.While
import Mathlib.Tactic

set_option autoImplicit false

/-!
# Fixed-point numbers of the power management

`ppevvmath.h` computes with numbers of 16 integer and 16 fractional bits. A number is divided by
another one in `fDivide`. The function calls `div64_s64`, which returns the quotient and changes
none of its arguments, and does not use what it returns. Everything that is computed with a
quotient is affected: the table constants of `fExponential` and `fNaturalLog`, and the bounds of
their loops.

## Main definitions

* `Powerplay.fDivide`, `getScaledFraction` — the division, and the quotient of integers.

## Main results

* `Powerplay.fDivide_toInt` — what `fDivide` returns: the fraction bits of its first argument.
* `division_exact_iff` — when the quotients are right.
* `evvMath_ends_iff` — for which arguments the loops end.

## Design

Integers are words of 32 bits, whose signed arithmetic wraps around, as the kernel is compiled. A
loop gets a number of rounds from outside and returns `none` if it has not ended by then.
-/

namespace Powerplay

/-- `fInt`, by its member `full` -/
abbrev FInt := BitVec 32

/-- `SHIFT_AMOUNT` -/
def shiftAmount : ℕ := 16

/-- `PRECISION` -/
def precision : ℕ := 5

/-- `MAX` -/
def maxInt : BitVec 32 := 32767

/-! ## Arithmetic -/

/-- `ConvertToFraction` -/
def convertToFraction (x : BitVec 32) : FInt :=
  if x.sle maxInt then x <<< shiftAmount else 0

/-- `GreaterThan` -/
def greaterThan (a b : FInt) : Bool := b.slt a

/-- `fAdd` -/
def fAdd (x y : FInt) : FInt := x + y

/-- `fSubtract` -/
def fSubtract (x y : FInt) : FInt := x - y

/-- `fMultiply` -/
def fMultiply (x y : FInt) : FInt :=
  ((x.signExtend 64 * y.signExtend 64).sshiftRight 16).setWidth 32

/-- `fNegate` -/
def fNegate (x : FInt) : FInt := fMultiply x (convertToFraction (-1))

/-- `div64_s64` of the kernel, a function of its arguments -/
def div64S64 (dividend divisor : BitVec 64) : BitVec 64 := dividend.sdiv divisor

/-- `fDivide`. The value of `div64_s64` is not used. -/
def fDivide (x y : FInt) : FInt :=
  if y = convertToFraction 0 then convertToFraction 0
  else
    let longlongX := x.signExtend 64 <<< 16
    let longlongY := y.signExtend 64
    let _ := div64S64 longlongX longlongY
    longlongX.setWidth 32

/-- `Divide` -/
def divide (x y : BitVec 32) : FInt := fDivide (x <<< shiftAmount) (y <<< shiftAmount)

/-- `uPow` -/
def uPow (base : BitVec 32) : ℕ → BitVec 32
  | 0 => 1
  | power + 1 => base * uPow base power

/-- `uAbs` -/
def uAbs (x : BitVec 32) : BitVec 32 := if x.slt 0 then x * -1 else x

/-- `while (X > MAX) { X = X >> 1; times_shifted++; }`. A word is shifted at most 16 times. -/
def shiftDown (x : BitVec 32) : BitVec 32 × ℕ :=
  ((While.loop (fun s => maxInt.slt s.1) (fun s => (s.1.sshiftRight 1, s.2 + 1)) 32 (x, 0)).getD
    (x, 0))

/-- The last part of `GetScaledFraction`, with `X` and `factor` in range -/
def scaledQuotient (negated : Bool) (x factor : BitVec 32) (timesShifted factorShifted : ℕ) :
    FInt :=
  if factor = 1 then convertToFraction x
  else
    let value := fDivide (convertToFraction (x * uPow (-1) negated.toNat))
      (convertToFraction factor)
    (value <<< timesShifted).sshiftRight factorShifted

/-- `GetScaledFraction`. No caller has `factor` zero, where the comparison of `X/factor` traps. -/
def getScaledFraction (x factor : BitVec 32) : FInt :=
  let negated := if factor.slt 0 then !x.slt 0 else x.slt 0
  let x := if x.slt 0 then -1 * x else x
  let factor := if factor.slt 0 then -1 * factor else factor
  if maxInt.slt x || maxInt.slt factor then
    if (x.sdiv factor).sle maxInt then
      scaledQuotient negated (shiftDown x).1 (shiftDown factor).1 (shiftDown x).2
        (shiftDown factor).2
    else 0
  else scaledQuotient negated x factor 0 0

/-! ## The exponential function and the logarithm -/

/-- `k_array` and `expk_array` of `fExponential` -/
def expTable : List (BitVec 32 × BitVec 32) :=
  [(55452, 2560000), (27726, 160000), (13863, 40000), (6931, 20000), (4055, 15000), (2231, 12500),
    (1178, 11250), (606, 10625), (308, 10313), (155, 10156), (78, 10078)]

/-- `k_array` and `logk_array` of `fNaturalLog` -/
def logTable : List (BitVec 32 × BitVec 32) :=
  [(160000, 27726), (40000, 13863), (20000, 6931), (15000, 4055), (12500, 2231), (11250, 1178),
    (10625, 606), (10313, 308), (10156, 155), (10078, 78)]

/-- One round of the inner loop of `fExponential`, on `exponent` and `solution` -/
def expStep (s : FInt × FInt) (k : BitVec 32 × BitVec 32) : FInt × FInt :=
  if greaterThan s.1 (getScaledFraction k.1 10000) then
    (fSubtract s.1 (getScaledFraction k.1 10000), fMultiply s.2 (getScaledFraction k.2 10000))
  else s

/-- The condition of the loop of `fExponential` -/
def expCond (s : FInt × FInt) : Bool := greaterThan s.1 (divide 78 10000)

/-- The body of the loop of `fExponential` -/
def expBody (s : FInt × FInt) : FInt × FInt := expTable.foldl expStep s

/-- `exponent`, after its sign was taken off -/
def expArgument (exponent : FInt) : FInt :=
  if greaterThan (convertToFraction 0) exponent then fNegate exponent else exponent

/-- `fExponential` -/
def fExponential (fuel : ℕ) (exponent : FInt) : Option FInt :=
  (While.loop expCond expBody fuel (expArgument exponent, convertToFraction 1)).map fun s =>
    let solution := fMultiply s.2 (fAdd (convertToFraction 1) s.1)
    if greaterThan (convertToFraction 0) exponent then fDivide (convertToFraction 1) solution
    else solution

/-- One round of the inner loop of `fNaturalLog`, on `value` and `solution` -/
def logStep (s : FInt × FInt) (k : BitVec 32 × BitVec 32) : FInt × FInt :=
  if greaterThan s.1 (getScaledFraction k.1 10000) then
    (fDivide s.1 (getScaledFraction k.1 10000), fAdd s.2 (getScaledFraction k.2 10000))
  else s

/-- The condition of the loop of `fNaturalLog` -/
def logCond (s : FInt × FInt) : Bool :=
  greaterThan (fAdd s.1 (convertToFraction (-1))) (divide 8 1000)

/-- The body of the loop of `fNaturalLog` -/
def logBody (s : FInt × FInt) : FInt × FInt := logTable.foldl logStep s

/-- `fNaturalLog` -/
def fNaturalLog (fuel : ℕ) (value : FInt) : Option FInt :=
  (While.loop logCond logBody fuel (value, convertToFraction 0)).map fun s =>
    fAdd s.2 (fAdd (convertToFraction (-1)) s.1)

/-! ## The quadratic equation -/

/-- One round of the loop of `uGetScaledDecimal`, on `scaledDecimal` and `tmp` -/
def scaledDecimalStep (s : BitVec 32 × BitVec 32) (i : ℕ) : BitVec 32 × BitVec 32 :=
  let dec := s.2.sdiv (1 <<< shiftAmount)
  (s.1 + dec * uPow 10 (precision - 1 - i), (s.2 - (1 <<< shiftAmount) * dec) * 10)

/-- `uGetScaledDecimal` -/
def uGetScaledDecimal (a : FInt) : BitVec 32 :=
  ((List.range precision).foldl scaledDecimalStep (0, a &&& 0xFFFF)).1

/-- `GetReal` -/
def getReal (a : FInt) : BitVec 32 := a.sshiftRight shiftAmount

/-- `ConvertBackToInteger` -/
def convertBackToInteger (a : FInt) : BitVec 32 :=
  fAdd (uGetScaledDecimal a) (getReal a * uPow 10 (precision - 1))

/-- `fGetSquare` -/
def fGetSquare (a : FInt) : FInt := fMultiply a a

/-- The next value of the iteration of `fSqrt` -/
def sqrtNext (c xOld : FInt) : FInt :=
  fSubtract xOld (fDivide (fSubtract (fGetSquare xOld) c)
    (fMultiply (convertToFraction 2) xOld))

/-- The loop of `fSqrt`, whose `counter` has the value from before the round -/
def sqrtLoop (c : FInt) : ℕ → ℕ → FInt → Option FInt
  | 0, _, _ => none
  | fuel + 1, counter, xOld =>
    let xNew := sqrtNext c xOld
    let error := convertBackToInteger xNew - convertBackToInteger xOld
    if counter + 1 > 20 then some xNew
    else if (0 : BitVec 32).slt (uAbs error) then sqrtLoop c fuel (counter + 1) xNew
    else some xNew

/-- `fSqrt` -/
def fSqrt (fuel : ℕ) (num : FInt) : Option FInt :=
  if greaterThan (convertToFraction 0) num || convertToFraction 0 == num then
    some (convertToFraction 0)
  else
    let seed : BitVec 32 :=
      if (3000 : BitVec 32).slt (getReal num) then 60
      else if (1000 : BitVec 32).slt (getReal num) then 30
      else if (100 : BitVec 32).slt (getReal num) then 10
      else 2
    sqrtLoop num fuel 0 (convertToFraction seed)

/-- The condition of the loop of `SolveQuadracticEqn`, on the three coefficients -/
def quadCond (s : FInt × FInt × FInt) : Bool :=
  greaterThan s.1 (convertToFraction 100) || greaterThan s.2.1 (convertToFraction 100) ||
    greaterThan s.2.2 (convertToFraction 100)

/-- The body of the loop of `SolveQuadracticEqn` -/
def quadBody (s : FInt × FInt × FInt) : FInt × FInt × FInt :=
  (fDivide s.1 (convertToFraction 10), fDivide s.2.1 (convertToFraction 10),
    fDivide s.2.2 (convertToFraction 10))

/-- `SolveQuadracticEqn` -/
def solveQuadracticEqn (fuel : ℕ) (a b c : FInt) : Option (FInt × FInt) :=
  (While.loop quadCond quadBody fuel (a, b, c)).bind fun s =>
    let temp := fMultiply (fMultiply (convertToFraction 4) s.1) s.2.2
    (fSqrt fuel (fSubtract (fGetSquare s.2.1) temp)).map fun root =>
      (fDivide (fDivide (fSubtract (fNegate s.2.1) root) (convertToFraction 2)) s.1,
        fDivide (fDivide (fAdd (fNegate s.2.1) root) (convertToFraction 2)) s.1)

/-! ## The division -/

/-- The fraction bits of a number, read as a signed number -/
def signedFraction (x : FInt) : ℤ := x.toInt.bmod (2 ^ 16)

/-- The quotient, truncated to 16 fraction bits -/
def quotient (x y : ℤ) : ℤ := (x * 2 ^ 16).tdiv y

/-- What is left of `x` after `y` was taken off as often as the fraction bits of `x` say -/
def leftOver (x y : FInt) : ℤ := x.toInt - signedFraction x * y.toInt

/-- The truncated quotient is the number whose product leaves less than the divisor, on the same
side of zero. -/
theorem tdiv_eq_iff {a b c : ℤ} (hb : b ≠ 0) :
    a.tdiv b = c ↔
      (0 ≤ a → 0 ≤ a - b * c) ∧ (a ≤ 0 → a - b * c ≤ 0) ∧ |a - b * c| < |b| := by
  have habs : (b.natAbs : ℤ) = |b| := Int.natCast_natAbs b
  constructor
  · rintro rfl
    rcases le_total 0 a with ha | ha
    · have h := (@Int.tdiv_tmod_unique a b _ _ ha hb).mp ⟨rfl, rfl⟩
      have hr : a - b * a.tdiv b = a.tmod b := by linarith [h.1]
      rw [hr, abs_of_nonneg h.2.1]
      refine ⟨fun _ => h.2.1, fun hle => ?_, by omega⟩
      obtain rfl : a = 0 := le_antisymm hle ha
      simp
    · have h := (@Int.tdiv_tmod_unique' a b _ _ ha hb).mp ⟨rfl, rfl⟩
      have hr : a - b * a.tdiv b = a.tmod b := by linarith [h.1]
      rw [hr, abs_of_nonpos h.2.2]
      refine ⟨fun hle => ?_, fun _ => h.2.2, by omega⟩
      obtain rfl : a = 0 := le_antisymm ha hle
      simp
  · rintro ⟨hpos, hneg, hlt⟩
    rcases le_total 0 a with ha | ha
    · rw [abs_of_nonneg (hpos ha)] at hlt
      exact ((Int.tdiv_tmod_unique ha hb).mpr ⟨by ring, hpos ha, by omega⟩).1
    · rw [abs_of_nonpos (hneg ha)] at hlt
      exact ((Int.tdiv_tmod_unique' ha hb).mpr ⟨by ring, by omega, hneg ha⟩).1

/-- Shifts of the wider word are shifts of the word. -/
theorem setWidth_signExtend_shiftLeft (x : FInt) :
    (x.signExtend 64 <<< 16).setWidth 32 = x <<< 16 := by
  apply BitVec.eq_of_getLsbD_eq
  intro i hi
  have hlt : i - 16 < 64 := by omega
  have hlt' : i - 16 < 32 := by omega
  rw [BitVec.getLsbD_setWidth, BitVec.getLsbD_shiftLeft, BitVec.getLsbD_shiftLeft,
    BitVec.getLsbD_signExtend, if_pos hlt']
  simp [hi, hlt, Nat.lt_trans hi (by decide : 32 < 64)]

/-- **What `fDivide` returns**: the fraction bits of its first argument, as an integer. -/
theorem fDivide_toInt (x : FInt) {y : FInt} (hy : y ≠ 0) :
    (fDivide x y).toInt = signedFraction x * 2 ^ 16 := by
  have hzero : convertToFraction 0 = 0 := by decide
  rw [fDivide, hzero, if_neg hy]
  dsimp only
  rw [setWidth_signExtend_shiftLeft, BitVec.toInt_shiftLeft, signedFraction,
    BitVec.toInt_eq_toNat_bmod]
  simp only [Int.bmod_def, Nat.shiftLeft_eq]
  have := x.isLt
  push_cast
  omega

/-- A number that was shifted has no fraction bits. -/
theorem fDivide_shiftLeft (x y : FInt) : fDivide (x <<< shiftAmount) y = 0 := by
  have hzero : convertToFraction 0 = 0 := by decide
  rw [fDivide, hzero]
  split
  · rfl
  · rw [setWidth_signExtend_shiftLeft, shiftAmount, ← BitVec.shiftLeft_add]
    exact BitVec.shiftLeft_eq_zero (by decide)

/-- **Every quotient of whole numbers is zero.** -/
theorem fDivide_convertToFraction (x : BitVec 32) (y : FInt) :
    fDivide (convertToFraction x) y = 0 := by
  rw [convertToFraction]
  split
  · exact fDivide_shiftLeft x y
  · exact fDivide_shiftLeft 0 y

theorem divide_eq_zero (x y : BitVec 32) : divide x y = 0 := fDivide_shiftLeft x _

/-! ## Quotients of integers -/

theorem scaledQuotient_eq_zero (negated : Bool) (x : BitVec 32) {factor : BitVec 32}
    (h : factor ≠ 1) (timesShifted factorShifted : ℕ) :
    scaledQuotient negated x factor timesShifted factorShifted = 0 := by
  rw [scaledQuotient, if_neg h, fDivide_convertToFraction]
  simp

/-- The word without its sign. -/
theorem toInt_ite_neg {x : BitVec 32} (hx : |x.toInt| ≤ 32767) :
    (if x.slt 0 then -1 * x else x).toInt = |x.toInt| := by
  have hzero : (0 : BitVec 32).toInt = 0 := by decide
  have hone : (-1 : BitVec 32).toInt = -1 := by decide
  obtain ⟨hlo, hhi⟩ := abs_le.mp hx
  by_cases hneg : x.slt 0 = true
  · have hlt := BitVec.slt_iff_toInt_lt.mp hneg
    rw [hzero] at hlt
    rw [if_pos hneg, BitVec.toInt_mul, hone, abs_of_neg hlt, Int.bmod_def]
    omega
  · have hle : 0 ≤ x.toInt := by
      by_contra hlt
      exact hneg (BitVec.slt_iff_toInt_lt.mpr (by omega))
    rw [if_neg hneg, abs_of_nonneg hle]

/-- A whole number that is not too large is converted exactly. -/
theorem convertToFraction_toInt {x : BitVec 32} (hx : |x.toInt| ≤ 32767) :
    (convertToFraction x).toInt = x.toInt * 2 ^ 16 := by
  have hmax : maxInt.toInt = 32767 := by decide
  obtain ⟨hlo, hhi⟩ := abs_le.mp hx
  have hle : x.sle maxInt = true := BitVec.sle_iff_toInt_le.mpr (by omega)
  rw [convertToFraction, if_pos hle, shiftAmount, BitVec.toInt_shiftLeft]
  rw [BitVec.toInt_eq_toNat_bmod] at hlo hhi ⊢
  simp only [Int.bmod_def, Nat.shiftLeft_eq] at hlo hhi ⊢
  have := x.isLt
  push_cast at hlo hhi ⊢
  omega

/-- `GetScaledFraction` of numbers that are not too large: without a sign if the factor is one,
and zero otherwise. -/
theorem getScaledFraction_toInt {x factor : BitVec 32} (hx : |x.toInt| ≤ 32767)
    (hfactor : |factor.toInt| ≤ 32767) :
    (getScaledFraction x factor).toInt =
      if |factor.toInt| = 1 then |x.toInt| * 2 ^ 16 else 0 := by
  have hmax : maxInt.toInt = 32767 := by decide
  have hx' := toInt_ite_neg hx
  have hfactor' := toInt_ite_neg hfactor
  rw [getScaledFraction]
  generalize (if x.slt 0 then -1 * x else x) = xAbs at hx' ⊢
  generalize (if factor.slt 0 then -1 * factor else factor) = factorAbs at hfactor' ⊢
  have hle : (maxInt.slt xAbs || maxInt.slt factorAbs) = false := by
    rw [Bool.or_eq_false_iff, ← Bool.not_eq_true, ← Bool.not_eq_true, BitVec.slt_iff_toInt_lt,
      BitVec.slt_iff_toInt_lt]
    omega
  have hone : factorAbs = 1 ↔ |factor.toInt| = 1 := by
    rw [← hfactor', ← BitVec.toInt_inj]
    rfl
  rw [hle, if_neg Bool.false_ne_true]
  by_cases h1 : factorAbs = 1
  · rw [scaledQuotient, if_pos h1, if_pos (hone.mp h1), convertToFraction_toInt, hx']
    rw [hx', abs_abs]
    exact hx
  · rw [if_neg (fun h => h1 (hone.mpr h)), scaledQuotient_eq_zero _ _ h1]
    rfl

/-- **When the quotients are right.** A number `x` is divided by `y` exactly when the fraction bits
of `x`, read as an integer, are the quotient: taking `y` off that often leaves less than the last
fraction bit of the quotient stands for, on the side of `x`. An integer `n` is divided by
`factor` exactly when it is zero, or `factor` is `1` or `-1` and the quotient is not negative. -/
theorem division_exact_iff (x y : FInt) (n factor : BitVec 32) :
    (y ≠ 0 →
      ((fDivide x y).toInt = quotient x.toInt y.toInt ↔
        (0 ≤ x.toInt → 0 ≤ leftOver x y) ∧ (x.toInt ≤ 0 → leftOver x y ≤ 0) ∧
          |leftOver x y| * 2 ^ 16 < |y.toInt|)) ∧
    (factor ≠ 0 → |n.toInt| ≤ 32767 → |factor.toInt| ≤ 32767 →
      ((getScaledFraction n factor).toInt = quotient n.toInt factor.toInt ↔
        n.toInt = 0 ∨ |factor.toInt| = 1 ∧ 0 ≤ n.toInt * factor.toInt)) := by
  have hne : ∀ {y : BitVec 32}, y ≠ 0 → y.toInt ≠ 0 := by
    intro y hy h
    exact hy (BitVec.eq_of_toInt_eq h)
  constructor
  · intro hy
    have hsub : x.toInt * 2 ^ 16 - y.toInt * (signedFraction x * 2 ^ 16) =
        leftOver x y * 2 ^ 16 := by
      rw [leftOver]
      ring
    rw [fDivide_toInt x hy, quotient, eq_comm, tdiv_eq_iff (hne hy), hsub, abs_mul]
    have habs : |(2 : ℤ) ^ 16| = 2 ^ 16 := by norm_num
    rw [habs]
    omega
  · intro hfactor hn hle
    rw [getScaledFraction_toInt hn hle, quotient, eq_comm]
    split_ifs with hone
    · -- the factor is one or minus one
      rcases eq_or_eq_neg_of_abs_eq hone with h | h
      · rw [h, Int.tdiv_one, mul_one, abs_one]
        rcases abs_cases n.toInt with ⟨habs, _⟩ | ⟨habs, _⟩ <;> rw [habs] <;> omega
      · rw [h, Int.tdiv_neg, Int.tdiv_one, abs_neg, abs_one]
        rcases abs_cases n.toInt with ⟨habs, _⟩ | ⟨habs, _⟩ <;> rw [habs] <;> omega
    · rw [tdiv_eq_iff (hne hfactor), mul_zero, sub_zero]
      constructor
      · rintro ⟨-, -, hlt⟩
        left
        rw [abs_mul] at hlt
        by_contra hn0
        have := abs_pos.mpr hn0
        norm_num at hlt
        omega
      · rintro (h | ⟨h, -⟩)
        · rw [h]
          exact ⟨fun _ => le_rfl, fun _ => le_rfl, by simpa using hne hfactor⟩
        · exact absurd h hone

/-- **One half.** The quotient of `1` and `2` is zero, and that of `-3` and `1` is `3`. -/
theorem division_wrong :
    fDivide (convertToFraction 1) (convertToFraction 2) = 0 ∧
      quotient (convertToFraction 1).toInt (convertToFraction 2).toInt = 2 ^ 15 ∧
      getScaledFraction 1 2 = 0 ∧ quotient 1 2 = 2 ^ 15 ∧
      (getScaledFraction (-3) 1).toInt = 3 * 2 ^ 16 ∧ quotient (-3) 1 = -3 * 2 ^ 16 := by
  decide

/-! ## The loops -/

/-- The constants of the tables are zero. -/
theorem getScaledFraction_tenThousand (k : BitVec 32) : getScaledFraction k 10000 = 0 := by
  have hshift : shiftDown 10000 = (10000, 0) := by decide
  have habs : (if (10000 : BitVec 32).slt 0 then -1 * 10000 else 10000) = (10000 : BitVec 32) := by
    decide
  have hzero : ∀ negated x timesShifted factorShifted,
      scaledQuotient negated x 10000 timesShifted factorShifted = 0 := fun negated x =>
    scaledQuotient_eq_zero negated x (by decide)
  simp only [getScaledFraction, habs, hshift, hzero, ite_self]

/-- A round of `fExponential` does not change the exponent. -/
theorem expBody_fst (s : FInt × FInt) : (expBody s).1 = s.1 := by
  have hstep : ∀ s k, (expStep s k).1 = s.1 := by
    intro s k
    rw [expStep, getScaledFraction_tenThousand]
    split
    · exact BitVec.sub_zero s.1
    · rfl
  rw [expBody]
  induction expTable generalizing s with
  | nil => rfl
  | cons k ks ih => rw [List.foldl_cons, ih, hstep]

/-- A round of `fNaturalLog` changes a positive value to zero, and no other one. -/
theorem logBody_fst (s : FInt × FInt) :
    (logBody s).1 = if greaterThan s.1 0 then 0 else s.1 := by
  have hstep : ∀ s k, (logStep s k).1 = if greaterThan s.1 0 then 0 else s.1 := by
    intro s k
    rw [logStep, getScaledFraction_tenThousand]
    by_cases hs : greaterThan s.1 0 = true
    · rw [if_pos hs, if_pos hs]
      rfl
    · rw [if_neg hs, if_neg hs]
  have hrest : ∀ (ks : List (BitVec 32 × BitVec 32)) (s : FInt × FInt),
      greaterThan s.1 0 = false → (ks.foldl logStep s).1 = s.1 := by
    intro ks
    induction ks with
    | nil => exact fun _ _ => rfl
    | cons k ks ih =>
      intro s hs
      have hk : (logStep s k).1 = s.1 := by
        rw [hstep, hs]
        rfl
      rw [List.foldl_cons, ih _ (by rw [hk, hs]), hk]
  rw [logBody, logTable, List.foldl_cons, hrest, hstep]
  rw [hstep]
  by_cases hs : greaterThan s.1 0 = true
  · rw [if_pos hs]
    decide
  · rw [if_neg hs]
    exact Bool.eq_false_iff.mpr hs

/-- **`fExponential` does not end for a positive exponent.** -/
theorem exp_ends_iff (s : FInt × FInt) :
    While.Ends expCond expBody s ↔ s.1.toInt ≤ 0 := by
  have hcond : ∀ s : FInt × FInt, expCond s = true ↔ 0 < s.1.toInt := by
    intro s
    rw [expCond, divide_eq_zero, greaterThan, BitVec.slt_iff_toInt_lt]
    rfl
  constructor
  · intro h
    by_contra hpos
    refine While.not_ends (fun s => 0 < s.1.toInt) (fun s hs => ?_) (not_le.mp hpos) h
    exact ⟨(hcond s).mpr hs, by rw [expBody_fst]; exact hs⟩
  · intro h
    apply While.ends_of_not
    rw [← Bool.not_eq_true, hcond]
    omega

/-- **`fNaturalLog` does not end for a value from which one cannot be subtracted.** -/
theorem log_ends_iff (s : FInt × FInt) :
    While.Ends logCond logBody s ↔ -2 ^ 31 + 2 ^ 16 ≤ s.1.toInt := by
  have hone : (convertToFraction (-1)).toInt = -2 ^ 16 := by decide
  have hcond : ∀ s : FInt × FInt, logCond s = true ↔
      2 ^ 16 < s.1.toInt ∨ s.1.toInt < -2 ^ 31 + 2 ^ 16 := by
    intro s
    have hzero : (0 : BitVec 32).toInt = 0 := by decide
    have hlo := s.1.le_toInt
    have hhi := s.1.toInt_lt
    rw [logCond, divide_eq_zero, greaterThan, BitVec.slt_iff_toInt_lt, fAdd, BitVec.toInt_add, hone,
      hzero, Int.bmod_def]
    omega
  have hgreater : ∀ s : FInt × FInt, greaterThan s.1 0 = true ↔ 0 < s.1.toInt := by
    intro s
    rw [greaterThan, BitVec.slt_iff_toInt_lt]
    rfl
  constructor
  · intro h
    by_contra hlt
    refine While.not_ends (fun s => s.1.toInt < -2 ^ 31 + 2 ^ 16) (fun s hs => ?_)
      (not_le.mp hlt) h
    have hneg : ¬ greaterThan s.1 0 = true := by
      rw [hgreater]
      omega
    exact ⟨(hcond s).mpr (.inr hs), by rw [logBody_fst, if_neg hneg]; exact hs⟩
  · intro h
    by_cases hc : logCond s = true
    · -- after one round the value is zero
      have hpos : greaterThan s.1 0 = true := by
        rw [hgreater]
        have := (hcond s).mp hc
        omega
      apply While.ends_of_body
      apply While.ends_of_not
      rw [← Bool.not_eq_true, hcond, logBody_fst, if_pos hpos]
      decide
    · exact While.ends_of_not (Bool.eq_false_iff.mpr hc)

/-- The loop of `SolveQuadracticEqn` ends: after two rounds the coefficients are zero. -/
theorem quad_ends (s : FInt × FInt × FInt) : While.Ends quadCond quadBody s := by
  have hten : ¬ convertToFraction 10 = convertToFraction 0 := by decide
  have hshift : ∀ x : FInt, fDivide x (convertToFraction 10) = x <<< shiftAmount := by
    intro x
    rw [fDivide, if_neg hten]
    exact setWidth_signExtend_shiftLeft x
  have hzero : quadBody (quadBody s) = (0, 0, 0) := by
    simp only [quadBody, hshift s.1, hshift s.2.1, hshift s.2.2, fDivide_shiftLeft]
  apply While.ends_of_body
  apply While.ends_of_body
  apply While.ends_of_not
  rw [hzero]
  decide

/-- The loop of `fSqrt` ends. -/
theorem sqrtLoop_ends (c : FInt) (fuel counter : ℕ) (x : FInt) (h : 20 ≤ counter + fuel) :
    ∃ r, sqrtLoop c (fuel + 1) counter x = some r := by
  induction fuel generalizing counter x with
  | zero =>
    have hlast : counter + 1 > 20 := by omega
    exact ⟨sqrtNext c x, by rw [sqrtLoop, if_pos hlast]⟩
  | succ fuel ih =>
    rw [sqrtLoop]
    split_ifs
    · exact ⟨_, rfl⟩
    · exact ih (counter + 1) _ (by omega)
    · exact ⟨_, rfl⟩

theorem fSqrt_ends (num : FInt) (fuel : ℕ) (h : 21 ≤ fuel) : ∃ r, fSqrt fuel num = some r := by
  obtain ⟨fuel, rfl⟩ := Nat.exists_eq_add_of_le' (Nat.le_trans (by decide : 1 ≤ 21) h)
  rw [fSqrt]
  split_ifs
  · exact ⟨_, rfl⟩
  all_goals exact sqrtLoop_ends num fuel 0 _ (by omega)

/-- `fNegate` changes the sign, as far as there is room for it. -/
theorem fNegate_toInt (x : FInt) : (fNegate x).toInt = (-x.toInt).bmod (2 ^ 32) := by
  have hone : ((convertToFraction (-1)).signExtend 64).toInt = -2 ^ 16 := by decide
  have hlo := x.le_toInt
  have hhi := x.toInt_lt
  have hprod : (x.signExtend 64 * (convertToFraction (-1)).signExtend 64).toInt =
      x.toInt * -2 ^ 16 := by
    rw [BitVec.toInt_mul, hone, BitVec.toInt_signExtend_of_le (by decide), Int.bmod_def]
    omega
  rw [fNegate, fMultiply, BitVec.toInt_setWidth]
  generalize hy : (x.signExtend 64 * (convertToFraction (-1)).signExtend 64).sshiftRight 16 = y
  have hyInt : y.toInt = -x.toInt := by
    rw [← hy, BitVec.toInt_sshiftRight, hprod, Int.shiftRight_eq_div_pow]
    omega
  rw [BitVec.toInt_eq_toNat_bmod] at hyInt
  simp only [Int.bmod_def] at hyInt ⊢
  omega

/-- The sign is taken off, but for the smallest number. -/
theorem expArgument_le_iff (x : FInt) :
    (expArgument x).toInt ≤ 0 ↔ x.toInt = 0 ∨ x.toInt = -2 ^ 31 := by
  have hlo := x.le_toInt
  have hhi := x.toInt_lt
  have hneg : greaterThan (convertToFraction 0) x = true ↔ x.toInt < 0 := by
    rw [greaterThan, BitVec.slt_iff_toInt_lt]
    rfl
  rw [expArgument]
  split_ifs with h
  · have hlt := hneg.mp h
    rw [fNegate_toInt, Int.bmod_def]
    omega
  · have hle : ¬ x.toInt < 0 := fun hlt => h (hneg.mpr hlt)
    omega

/-- **For which arguments the loops end.** The exponential function ends only for zero and for the
smallest number, which has no positive counterpart. The logarithm ends for all values from which one
can be subtracted without an overflow. The roots of a quadratic equation are always found. -/
theorem evvMath_ends_iff (x v a b c : FInt) :
    ((∃ fuel r, fExponential fuel x = some r) ∧ (∃ fuel r, fNaturalLog fuel v = some r) ∧
        ∃ fuel r, solveQuadracticEqn fuel a b c = some r) ↔
      (x.toInt = 0 ∨ x.toInt = -2 ^ 31) ∧ -2 ^ 31 + 2 ^ 16 ≤ v.toInt := by
  have hexp : (∃ fuel r, fExponential fuel x = some r) ↔
      While.Ends expCond expBody (expArgument x, convertToFraction 1) := by
    refine exists_congr fun fuel => ?_
    simp only [fExponential, Option.map_eq_some_iff]
    exact ⟨fun ⟨_, t, ht, _⟩ => ⟨t, ht⟩, fun ⟨t, ht⟩ => ⟨_, t, ht, rfl⟩⟩
  have hlog : (∃ fuel r, fNaturalLog fuel v = some r) ↔
      While.Ends logCond logBody (v, convertToFraction 0) := by
    refine exists_congr fun fuel => ?_
    simp only [fNaturalLog, Option.map_eq_some_iff]
    exact ⟨fun ⟨_, t, ht, _⟩ => ⟨t, ht⟩, fun ⟨t, ht⟩ => ⟨_, t, ht, rfl⟩⟩
  have hquad : ∃ fuel r, solveQuadracticEqn fuel a b c = some r := by
    obtain ⟨fuel, t, ht⟩ := quad_ends (a, b, c)
    have ht := While.loop_of_le ht (Nat.le_add_right fuel 21)
    obtain ⟨root, hroot⟩ := fSqrt_ends (fSubtract (fGetSquare t.2.1)
      (fMultiply (fMultiply (convertToFraction 4) t.1) t.2.2)) (fuel + 21) (by omega)
    refine ⟨fuel + 21, ?_⟩
    simp only [solveQuadracticEqn, ht, Option.bind_some, hroot]
    exact ⟨_, rfl⟩
  rw [hexp, hlog, exp_ends_iff, log_ends_iff, expArgument_le_iff]
  exact ⟨fun h => ⟨h.1, h.2.1⟩, fun h => ⟨h.1, h.2, hquad⟩⟩

/-- **The exponential function of one** is never found. -/
theorem fExponential_endless :
    ¬∃ fuel r, fExponential fuel (convertToFraction 1) = some r := by
  rintro ⟨fuel, r, hr⟩
  rw [fExponential] at hr
  obtain ⟨t, ht, -⟩ := Option.map_eq_some_iff.mp hr
  have hpos : ¬ (expArgument (convertToFraction 1)).toInt ≤ 0 := by decide
  exact hpos ((exp_ends_iff _).mp ⟨fuel, t, ht⟩)

end Powerplay
