import Mathlib.Tactic

set_option autoImplicit false

/-!
# Padding

How much is missing from a number to the next multiple of `A`, as `(A - n % A) % A`, and the next
multiple itself.

## Main definitions

* `Align.pad` — the padding.
* `up` — the next multiple.

## Main results

* `Align.dvd_add_pad`, `add_pad_le` — padding gives the smallest multiple that is not less.
* `le_up`, `up_le` — and so does rounding up.
-/

namespace Align

/-- What is missing from `n` to the next multiple of `A`. -/
def pad (A n : ℕ) : ℕ := (A - n % A) % A

variable {A n m : ℕ}

theorem pad_lt (hA : 0 < A) : pad A n < A := Nat.mod_lt _ hA

theorem add_pad_eq_self (hn : n % A = 0) : n + pad A n = n := by
  simp [pad, hn]

/-- Padding rounds up. -/
theorem add_pad_eq (hA : 0 < A) (hn : n % A ≠ 0) : n + pad A n = A * (n / A + 1) := by
  have hmod := Nat.mod_lt n hA
  have hdiv := Nat.div_add_mod n A
  rw [pad, Nat.mod_eq_of_lt (by omega), Nat.mul_add, Nat.mul_one]
  omega

/-- Padding gives a multiple. -/
theorem dvd_add_pad (hA : 0 < A) (n : ℕ) : A ∣ n + pad A n := by
  by_cases hn : n % A = 0
  · rw [add_pad_eq_self hn]
    exact Nat.dvd_of_mod_eq_zero hn
  · rw [add_pad_eq hA hn]
    exact Nat.dvd_mul_right _ _

/-- Padding does not go past a multiple. -/
theorem add_pad_le (hA : 0 < A) (hm : A ∣ m) (hle : n ≤ m) : n + pad A n ≤ m := by
  by_cases hn : n % A = 0
  · rwa [add_pad_eq_self hn]
  · obtain ⟨k, rfl⟩ := hm
    rw [add_pad_eq hA hn]
    have hne : n ≠ A * k := by
      rintro rfl
      exact hn (Nat.mul_mod_right A k)
    have hlt : n / A < k := Nat.div_lt_of_lt_mul (by omega)
    exact Nat.mul_le_mul_left A hlt

/-! ## Rounding up -/

/-- The smallest multiple of `A` that is not less than `n`. -/
def up (A n : ℕ) : ℕ := (n + (A - 1)) / A * A

theorem le_up (hA : 0 < A) (n : ℕ) : n ≤ up A n := by
  have hdiv := Nat.div_add_mod (n + (A - 1)) A
  have hmod := Nat.mod_lt (n + (A - 1)) hA
  rw [up, Nat.mul_comm]
  omega

theorem dvd_up (A n : ℕ) : A ∣ up A n := Nat.dvd_mul_left _ _

/-- Rounding up does not go past a multiple. -/
theorem up_le (hA : 0 < A) (hm : A ∣ m) (hle : n ≤ m) : up A n ≤ m := by
  obtain ⟨k, rfl⟩ := hm
  rw [up, Nat.mul_comm A k]
  refine Nat.mul_le_mul_right A (Nat.lt_succ_iff.mp (Nat.div_lt_of_lt_mul ?_))
  rw [Nat.mul_succ]
  omega

end Align
