import Mathlib.Tactic

set_option autoImplicit false

/-!
# Newton's method for the logarithm

The logarithm of `a` is the zero of `exp X - a`, and Newton's method takes an estimate `X` to
`X - 1 + a / exp X`. Here the exponential is only known up to an error, as a number `F`, and the
next estimate `X'` is rounded.

## Main results

* `NewtonLog.le_exp_next` — from the first step on, an estimate is not much below the logarithm.
* `abs_sub_le_of_stop` — if a step changes little, the exponential was close to the argument.
* `abs_exp_sub_exp_le` — the exponential of two estimates that are close to each other.
-/

namespace NewtonLog

variable {a F X X' s τ δ : ℝ}

/-- **The lower bound.** A relative error `s` of the exponential and an absolute error `τ` of the
next estimate are all that is lost. The estimate itself may be anything. -/
theorem le_exp_next (ha : 0 ≤ a) (hF : 0 < F) (hs : s ≤ 1)
    (hle : F ≤ Real.exp X * (1 + s)) (hτ : τ ≤ 1) (hnext : X - 1 + a / F - τ ≤ X') :
    a * (1 - s) * (1 - τ) ≤ Real.exp X' := by
  have hX := Real.exp_pos X
  -- The exponential is convex: it is above its tangent at one, and above that at zero.
  have htangent := Real.add_one_le_exp (a / F - 1)
  have hround := Real.add_one_le_exp (-τ)
  have hloss : a * (1 - s) ≤ Real.exp X * (a / F) := by
    have hmul : (1 - s) * F ≤ Real.exp X := by
      calc (1 - s) * F ≤ (1 - s) * (Real.exp X * (1 + s)) :=
            mul_le_mul_of_nonneg_left hle (by linarith)
        _ = Real.exp X * (1 - s ^ 2) := by ring
        _ ≤ Real.exp X * 1 := mul_le_mul_of_nonneg_left (by nlinarith) hX.le
        _ = Real.exp X := mul_one _
    rw [← mul_div_assoc, le_div_iff₀ hF]
    calc a * (1 - s) * F = a * ((1 - s) * F) := by ring
      _ ≤ a * Real.exp X := mul_le_mul_of_nonneg_left hmul ha
      _ = Real.exp X * a := mul_comm _ _
  calc a * (1 - s) * (1 - τ) ≤ Real.exp X * (a / F) * (1 - τ) :=
        mul_le_mul_of_nonneg_right hloss (by linarith)
    _ ≤ Real.exp X * Real.exp (a / F - 1) * Real.exp (-τ) := by
        refine mul_le_mul (mul_le_mul_of_nonneg_left (by linarith) hX.le) (by linarith)
          (by linarith) (by positivity)
    _ = Real.exp (X - 1 + a / F - τ) := by
        rw [← Real.exp_add, ← Real.exp_add]
        congr 1
        ring
    _ ≤ Real.exp X' := Real.exp_le_exp.mpr hnext

/-- A step that changes little. -/
theorem abs_sub_le_of_stop (hF : 0 < F) (hnext : |X' - (X - 1 + a / F)| ≤ τ)
    (hstop : |X' - X| ≤ δ) : |F - a| ≤ (δ + τ) * F := by
  have hquot : |1 - a / F| ≤ δ + τ := by
    have heq : 1 - a / F = (X - X') + (X' - (X - 1 + a / F)) := by ring
    rw [heq]
    refine (abs_add_le _ _).trans (add_le_add ?_ hnext)
    rwa [abs_sub_comm]
  have heq : F - a = (1 - a / F) * F := by
    rw [sub_mul, one_mul, div_mul_cancel₀ a hF.ne']
  rw [heq, abs_mul, abs_of_pos hF]
  exact mul_le_mul_of_nonneg_right hquot hF.le

theorem abs_exp_sub_exp_le (hδ : δ ≤ 1) (h : |X' - X| ≤ δ) :
    |Real.exp X' - Real.exp X| ≤ 2 * δ * Real.exp X := by
  have hone := Real.abs_exp_sub_one_le (h.trans hδ)
  have heq : Real.exp X' - Real.exp X = (Real.exp (X' - X) - 1) * Real.exp X := by
    rw [sub_mul, one_mul, ← Real.exp_add, sub_add_cancel]
  rw [heq, abs_mul, abs_of_pos (Real.exp_pos X)]
  exact mul_le_mul_of_nonneg_right (by linarith) (Real.exp_pos X).le

end NewtonLog
