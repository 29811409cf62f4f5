import Mathlib.Tactic

set_option autoImplicit false

/-!
# Bits of a bitmap

A bitmap has a bit for each slot. Programs set a bit with `|`, and test it with `&`, and a power of
two.

## Main definitions

* `Bitmap.setBit` — set a bit.

## Main results

* `Bitmap.and_twoPow_ne_zero` — how a bit is tested.
* `setBit_of_getLsbD` — a bit that is set stays set.
-/

namespace Bitmap

variable {w : ℕ}

/-- Set a bit. -/
def setBit (b : BitVec w) (i : ℕ) : BitVec w := b ||| BitVec.twoPow w i

/-- What setting a bit does to the bits. -/
theorem getLsbD_setBit {b : BitVec w} {i : ℕ} (hi : i < w) :
    (setBit b i).getLsbD = Function.update b.getLsbD i true := by
  funext j
  by_cases hj : j = i
  · simp [setBit, hj, hi]
  · simp [setBit, Function.update_of_ne hj, Ne.symm hj]

/-- A bit is tested. -/
theorem and_twoPow_ne_zero {b : BitVec w} {i : ℕ} :
    b &&& BitVec.twoPow w i ≠ 0#w ↔ b.getLsbD i = true := by
  rw [BitVec.and_twoPow]
  cases hb : b.getLsbD i with
  | false => simp
  | true =>
    have hi : i < w := BitVec.lt_of_getLsbD hb
    refine iff_of_true (fun hzero => ?_) rfl
    have hbit := congrArg (BitVec.getLsbD · i) hzero
    simp [hi] at hbit

/-- Setting a bit that is set. -/
theorem setBit_of_getLsbD {b : BitVec w} {i : ℕ} (h : b.getLsbD i = true) : setBit b i = b := by
  refine BitVec.eq_of_getLsbD_eq fun j _ => ?_
  rw [getLsbD_setBit (BitVec.lt_of_getLsbD h), ← h, Function.update_eq_self]

end Bitmap
