import AmdgpuPro.Lib.Align

set_option autoImplicit false

/-!
# Words that wrap around

A formula over machine words computes the same as the formula over natural numbers as long as
nothing overflows. For formulas of sums and products it is enough that the result does not
overflow, since no intermediate result is larger. `Wrap.Tracks` is this relation between a word and
a number, and is kept by the operations.

## Main definitions

* `Wrap.Tracks` — the word is the number, unless the number is too large for a word.

## Main results

* `Wrap.Tracks.add`, `Tracks.mul`, `Tracks.align`, `Tracks.max` — the operations.
* `Tracks.le_toNat_iff` — a word is at least the number if and only if that is not too large.
-/

namespace Wrap

variable {w : ℕ} {x y : BitVec w} {n m : ℕ}

/-- The word is the number, unless the number is too large for a word. -/
def Tracks (x : BitVec w) (n : ℕ) : Prop := n < 2 ^ w → x.toNat = n

namespace Tracks

theorem toNat (x : BitVec w) : Tracks x x.toNat := fun _ => rfl

theorem ofNat (n : ℕ) : Tracks (BitVec.ofNat w n) n := fun h => by
  rw [BitVec.toNat_ofNat, Nat.mod_eq_of_lt h]

/-- Sums. -/
theorem add (hx : Tracks x n) (hy : Tracks y m) : Tracks (x + y) (n + m) := fun h => by
  have hn := hx (by omega)
  have hm := hy (by omega)
  rw [BitVec.toNat_add, hn, hm, Nat.mod_eq_of_lt h]

/-- Products. A factor may overflow if the other one is zero. -/
theorem mul (hx : Tracks x n) (hy : Tracks y m) : Tracks (x * y) (n * m) := fun h => by
  rcases Nat.eq_zero_or_pos n with rfl | hn
  · rw [BitVec.toNat_mul, hx (by simp), Nat.zero_mul, Nat.zero_mul, Nat.zero_mod]
  rcases Nat.eq_zero_or_pos m with rfl | hm
  · rw [BitVec.toNat_mul, hy (by simp), Nat.mul_zero, Nat.mul_zero, Nat.zero_mod]
  have hx' := hx ((Nat.le_mul_of_pos_right n hm).trans_lt h)
  have hy' := hy ((Nat.le_mul_of_pos_left m hn).trans_lt h)
  rw [BitVec.toNat_mul, hx', hy', Nat.mod_eq_of_lt h]

/-- Quotients of numbers that are not too large. -/
theorem div (hx : Tracks x n) (hy : Tracks y m) (hn : n < 2 ^ w) (hm : m < 2 ^ w) :
    Tracks (x / y) (n / m) := fun _ => by
  rw [BitVec.toNat_udiv, hx hn, hy hm]

/-- Half of a number on top of it. -/
theorem add_half (hx : Tracks x n) (hy : Tracks y 2) (hw : 1 < w) :
    Tracks (x + x / y) (n + n / 2) := fun h => by
  have hn : n < 2 ^ w := by omega
  have h2 : 2 < 2 ^ w := lt_self_pow₀ Nat.one_lt_two hw
  exact hx.add (hx.div hy hn h2) h

/-- The larger of two numbers. -/
theorem max (hx : Tracks x n) (hy : Tracks y m) : Tracks (if x > y then x else y) (max n m) :=
  fun h => by
    have hn := hx ((le_max_left n m).trans_lt h)
    have hm := hy ((le_max_right n m).trans_lt h)
    simp only [gt_iff_lt, BitVec.lt_def, hn, hm]
    split_ifs with hlt
    · rw [hn, max_eq_left hlt.le]
    · rw [hm, max_eq_right (not_lt.mp hlt)]

/-- Clearing the low bits of a word. -/
theorem toNat_and_not {mask : BitVec w} {k : ℕ} (hmask : mask.toNat = 2 ^ k - 1) :
    (x &&& ~~~mask).toNat = x.toNat / 2 ^ k * 2 ^ k := by
  refine Nat.eq_of_testBit_eq fun i => ?_
  have hbit : mask.getLsbD i = decide (i < k) := by
    rw [BitVec.getLsbD, hmask, Nat.testBit_two_pow_sub_one]
  rw [← Nat.shiftRight_eq_div_pow, ← Nat.shiftLeft_eq, Nat.testBit_shiftLeft,
    Nat.testBit_shiftRight, BitVec.testBit_toNat, BitVec.getLsbD_and, BitVec.getLsbD_not, hbit]
  by_cases hi : i < k
  · simp [hi]
  · have hki := not_lt.mp hi
    rw [Nat.add_sub_cancel' hki, BitVec.testBit_toNat]
    by_cases hw : i < w
    · simp [hki, hw]
    · simp [BitVec.getLsbD_of_ge x i (not_lt.mp hw)]

/-- Rounding up to a multiple of a power of two. -/
theorem align {mask : BitVec w} {k : ℕ} (hmask : mask.toNat = 2 ^ k - 1) (hk : k ≤ w)
    (hx : Tracks x n) : Tracks ((x + mask) &&& ~~~mask) (Align.up (2 ^ k) n) := fun h => by
  have hpos : 0 < 2 ^ k := Nat.two_pow_pos k
  -- a multiple below the largest word leaves room for the mask
  have hroom : Align.up (2 ^ k) n + 2 ^ k ≤ 2 ^ w := by
    obtain ⟨a, ha⟩ := Align.dvd_up (2 ^ k) n
    obtain ⟨b, hb⟩ := pow_dvd_pow 2 hk
    rw [ha, hb] at h ⊢
    have hlt := Nat.lt_of_mul_lt_mul_left h
    calc 2 ^ k * a + 2 ^ k = 2 ^ k * (a + 1) := (Nat.mul_succ _ _).symm
      _ ≤ 2 ^ k * b := Nat.mul_le_mul_left _ hlt
  have hle := Align.le_up hpos n
  have hn := hx (by omega)
  rw [toNat_and_not hmask, BitVec.toNat_add, hn, hmask, Nat.mod_eq_of_lt (by omega), Align.up]

/-- A word is at least the number it stands for if and only if that is not too large. -/
theorem le_iff_of_le (h : Tracks x n) (hle : x.toNat ≤ m) (hm : m < 2 ^ w) :
    n ≤ m ↔ n < 2 ^ w :=
  ⟨fun hn => hn.trans_lt hm, fun hn => (h hn).ge.trans hle⟩

theorem le_toNat_iff (h : Tracks x n) : n ≤ x.toNat ↔ n < 2 ^ w :=
  h.le_iff_of_le le_rfl x.isLt

end Tracks

end Wrap
