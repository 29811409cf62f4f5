import Mathlib.Algebra.Order.Floor.Semifield
import Mathlib.Tactic

set_option autoImplicit false

/-!
# Rounding to the nearest integer

A number is rounded to the nearest integer, and a number in the middle of two integers is rounded
away from zero. For the quotient of two natural numbers this is an integer division, and the
quotient can be found bit by bit.

## Main definitions

* `Rounding.away` — the nearest integer, the larger magnitude in the middle.
* `divNat` — the rounded quotient of natural numbers.
* `divStep` — one step of a long division: the next bit of the quotient.

## Main results

* `Rounding.abs_away_sub_le` — the error is at most one half.
* `away_ite_div` — the rounded quotient of a number with a sign.
* `iterate_divStep` — what a long division has computed after some steps.
-/

namespace Rounding

section Away

variable {K : Type*} [Field K] [LinearOrder K] [IsStrictOrderedRing K] [FloorRing K]

/-- The nearest integer. A number in the middle of two integers is rounded away from zero. -/
def away (x : K) : ℤ := if 0 ≤ x then ⌊x + 1 / 2⌋ else -⌊-x + 1 / 2⌋

omit [IsStrictOrderedRing K] in
theorem away_of_nonneg {x : K} (hx : 0 ≤ x) : away x = ⌊x + 1 / 2⌋ := if_pos hx

theorem away_neg (x : K) : away (-x) = -away x := by
  rcases lt_trichotomy x 0 with hx | rfl | hx
  · rw [away_of_nonneg (by linarith), away, if_neg (by linarith), neg_neg]
  · have hzero : away (0 : K) = 0 := by
      rw [away_of_nonneg le_rfl, Int.floor_eq_zero_iff]
      constructor <;> norm_num
    rw [neg_zero, hzero, neg_zero]
  · rw [away_of_nonneg hx.le, away, if_neg (by linarith), neg_neg]

/-- The error is at most one half. -/
theorem abs_away_sub_le (x : K) : |(away x : K) - x| ≤ 1 / 2 := by
  have hnonneg : ∀ y : K, 0 ≤ y → |(away y : K) - y| ≤ 1 / 2 := by
    intro y hy
    have hle := Int.floor_le (y + 1 / 2)
    have hlt := Int.lt_floor_add_one (y + 1 / 2)
    rw [away_of_nonneg hy, abs_le]
    constructor <;> linarith
  rcases le_total 0 x with hx | hx
  · exact hnonneg x hx
  · have h := hnonneg (-x) (by linarith)
    rw [away_neg] at h
    push_cast at h
    rw [abs_le] at h ⊢
    constructor <;> linarith

/-- The rounded quotient of natural numbers. -/
def divNat (n d : ℕ) : ℕ := (2 * n + d) / (2 * d)

theorem away_natCast_div (n : ℕ) {d : ℕ} (hd : 0 < d) : away ((n : K) / d) = divNat n d := by
  have hd' : (0 : K) < d := Nat.cast_pos.mpr hd
  have hsum : (n : K) / d + 1 / 2 = ((2 * n + d : ℕ) : K) / ((2 * d : ℕ) : K) := by
    push_cast
    field_simp
  rw [away_of_nonneg (by positivity), hsum, ← Int.natCast_floor_eq_floor (by positivity),
    Nat.floor_div_eq_div, divNat]

/-- The rounded quotient of a number with a sign. -/
theorem away_ite_div (negative : Bool) (n : ℕ) {d : ℕ} (hd : 0 < d) :
    away ((if negative then -(n : K) else n) / d) =
      if negative then -(divNat n d : ℤ) else divNat n d := by
  cases negative
  · exact away_natCast_div n hd
  · change away (-(n : K) / d) = -(divNat n d : ℤ)
    rw [neg_div, away_neg, away_natCast_div n hd]

end Away

/-- The quotient is rounded up if the remainder is at least half of the divisor. -/
theorem divNat_eq (n : ℕ) {d : ℕ} (hd : 0 < d) :
    divNat n d = n / d + if d ≤ 2 * (n % d) then 1 else 0 := by
  have hmod := Nat.div_add_mod n d
  have hlt := Nat.mod_lt n hd
  have hquot : ∀ k, (n / d + k) * (2 * d) = 2 * (d * (n / d)) + 2 * (k * d) := by
    intro k
    ring
  rw [divNat]
  split_ifs with hle
  · apply Nat.div_eq_of_lt_le
    · rw [hquot]
      omega
    · rw [add_assoc, hquot]
      omega
  · apply Nat.div_eq_of_lt_le
    · rw [hquot]
      omega
    · rw [add_zero, hquot]
      omega

theorem divNat_mul_mul_right (n d : ℕ) {k : ℕ} (hk : 0 < k) :
    divNat (n * k) (d * k) = divNat n d := by
  rw [divNat, divNat, ← mul_assoc, ← mul_assoc, ← add_mul, Nat.mul_div_mul_right _ _ hk]

/-- A quotient that is at most an integer is rounded to at most that integer. -/
theorem divNat_le {n d k : ℕ} (hd : 0 < d) (h : n ≤ k * d) : divNat n d ≤ k := by
  have hbounds := Nat.div_mul_le_self (2 * n + d) (2 * d)
  rw [← divNat] at hbounds
  by_contra hlt
  have hmul : (k + 1) * (2 * d) ≤ divNat n d * (2 * d) :=
    Nat.mul_le_mul_right _ (not_le.mp hlt)
  have hsplit : (k + 1) * (2 * d) = 2 * (k * d) + 2 * d := by ring
  omega

/-! ## Long division -/

/-- One step of a long division: the next bit of the quotient. The state is the remainder and the
quotient so far. -/
def divStep (d : ℕ) (s : ℕ × ℕ) : ℕ × ℕ :=
  if d ≤ 2 * s.1 then (2 * s.1 - d, 2 * s.2 + 1) else (2 * s.1, 2 * s.2)

/-- **A long division** finds the bits of the quotient one after the other. -/
theorem iterate_divStep {d : ℕ} (n k : ℕ) (hd : 0 < d) :
    (divStep d)^[k] (n % d, n / d) = (2 ^ k * n % d, 2 ^ k * n / d) := by
  induction k with
  | zero => simp
  | succ k ih =>
    rw [Function.iterate_succ_apply', ih, pow_succ']
    rw [mul_assoc]
    generalize 2 ^ k * n = m
    have hmod := Nat.div_add_mod m d
    have hlt := Nat.mod_lt m hd
    -- the doubled equation `m = d * q + r` gives the next quotient and remainder
    have hnext : 2 * m / d = (divStep d (m % d, m / d)).2 ∧
        2 * m % d = (divStep d (m % d, m / d)).1 := by
      rw [Nat.div_mod_unique hd, divStep]
      split_ifs with hle <;> dsimp only at hle ⊢
      · rw [mul_add, mul_left_comm]
        omega
      · rw [mul_left_comm]
        omega
    rw [hnext.1, hnext.2]

end Rounding
