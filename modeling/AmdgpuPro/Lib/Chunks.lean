import Mathlib.Tactic

set_option autoImplicit false

/-!
# Transfers in chunks

A loop that handles a number of bytes in chunks of a maximal size needs to know how many times to
run. A machine with words of `w` bits computes the number of bytes and the number of chunks modulo
`2 ^ w`, and then the loop may stop early.

## Main definitions

* `Chunks.divRoundUp` — the quotient, rounded up, in words of `w` bits.
* `split` — the chunks of a loop that runs a given number of times.
* `covered` — how many bytes such a loop handles.

## Main results

* `Chunks.flatMap_split` — the chunks are next to each other and cover a prefix.
* `covered_eq_iff` — everything is handled if and only if there is no overflow.
-/

namespace Chunks

/-- The quotient of two words, rounded up: the sum before the division wraps. -/
def divRoundUp (w n d : ℕ) : ℕ := (n + d - 1) % 2 ^ w / d

theorem divRoundUp_pos {w n d : ℕ} (hn : 0 < n) (hd : 0 < d) (h : n + d ≤ 2 ^ w) :
    0 < divRoundUp w n d := by
  rw [divRoundUp, Nat.mod_eq_of_lt (by omega)]
  exact Nat.div_pos (by omega) hd

/-- One chunk is enough. -/
theorem divRoundUp_eq_one_iff {w n d : ℕ} (hn : 0 < n) (hd : 0 < d) (h : n + d ≤ 2 ^ w) :
    divRoundUp w n d = 1 ↔ n ≤ d := by
  rw [divRoundUp, Nat.mod_eq_of_lt (by omega), Nat.div_eq_iff hd]
  omega

/-- The chunks, each with its offset and its length, of a loop that runs `n` times over `count`
bytes at the offset `off`. -/
def split (size : ℕ) : ℕ → ℕ → ℕ → List (ℕ × ℕ)
  | 0, _, _ => []
  | n + 1, off, count =>
    (off, min count size) :: split size n (off + min count size) (count - min count size)

/-- The chunks are next to each other, and cover as much as the loop runs for. -/
theorem flatMap_split (size n off count : ℕ) :
    (split size n off count).flatMap (fun c => List.range' c.1 c.2) =
      List.range' off (min count (n * size)) := by
  induction n generalizing off count with
  | zero => simp [split]
  | succ n ih =>
    rw [split, List.flatMap_cons, ih, List.range'_append_1]
    congr 1
    rw [Nat.succ_mul]
    omega

/-- How many of `count` bytes are handled when their number is a word and the number of chunks is
computed from it. -/
def covered (w size count : ℕ) : ℕ :=
  min (count % 2 ^ w) (divRoundUp w (count % 2 ^ w) size * size)

theorem covered_le (w size count : ℕ) : covered w size count ≤ count :=
  (min_le_left _ _).trans (Nat.mod_le _ _)

/-- Everything is handled if and only if the number of chunks is computed without an overflow. -/
theorem covered_eq_iff {w size : ℕ} (hpos : 0 < size) (hle : size ≤ 2 ^ w) (count : ℕ) :
    covered w size count = count ↔ count + size ≤ 2 ^ w := by
  unfold covered divRoundUp
  constructor
  · intro h
    have hlt : count < 2 ^ w := by
      have : count ≤ count % 2 ^ w := h.symm.trans_le (min_le_left _ _)
      exact this.trans_lt (Nat.mod_lt _ (Nat.two_pow_pos w))
    rw [Nat.mod_eq_of_lt hlt] at h
    by_contra! hover
    -- the sum before the division wraps to less than one chunk
    have hwrap : (count + size - 1) % 2 ^ w = count + size - 1 - 2 ^ w := by
      rw [Nat.mod_eq_sub_mod (by omega), Nat.mod_eq_of_lt (by omega)]
    rw [hwrap, Nat.div_eq_of_lt (by omega), Nat.zero_mul] at h
    omega
  · intro h
    rw [Nat.mod_eq_of_lt (by omega), Nat.mod_eq_of_lt (by omega)]
    refine min_eq_left ?_
    have hdiv := Nat.div_add_mod (count + size - 1) size
    have hmod := Nat.mod_lt (count + size - 1) hpos
    rw [Nat.mul_comm] at hdiv
    omega

end Chunks
