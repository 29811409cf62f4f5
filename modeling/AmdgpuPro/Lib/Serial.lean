import Mathlib.Tactic

set_option autoImplicit false

/-!
# Serial numbers of 32 bits

A counter that is kept in 32 bits wraps around, so two of its values are compared by the sign of
their difference. The comparison agrees with the order of the true, unbounded values as long as
these are less than half the range apart.

## Main definitions

* `Serial.later` — the comparison.

## Main results

* `Serial.later_iff` — it is the order of the true values inside a window of `2 ^ 31`.
-/

namespace Serial

/-- `(int)(a - b) > 0`, for counters `a` and `b` that are cut to 32 bits. -/
def later (a b : ℕ) : Bool := decide (0 < (BitVec.ofNat 32 a - BitVec.ofNat 32 b).toInt)

/-- **Comparison inside the window**: less than half the range apart, the comparison of the cut
counters is the comparison of the counters. -/
theorem later_iff {a b : ℕ} (h : a < b + 2 ^ 31) (h' : b ≤ a + 2 ^ 31) :
    later a b = true ↔ b < a := by
  have hnat : (BitVec.ofNat 32 a - BitVec.ofNat 32 b).toNat =
      if b ≤ a then a - b else 2 ^ 32 - (b - a) := by
    rw [BitVec.toNat_sub, BitVec.toNat_ofNat, BitVec.toNat_ofNat]
    split_ifs <;> omega
  rw [later, decide_eq_true_eq, BitVec.toInt_eq_toNat_cond, hnat]
  split_ifs <;> omega

end Serial
