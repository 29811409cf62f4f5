import Mathlib.Data.List.Perm.Basic
import Mathlib.Order.Basic

set_option autoImplicit false

/-!
# Bucket sort

Items are put at the end of the bucket of their key, and the buckets are then put to the front of a
list, one after the other. This sorts the items by descending keys, and does not change the order of
items with the same key.

## Main definitions

* `BucketSort.fill`, `splice` — fill the buckets, and concatenate them.

## Main results

* `BucketSort.perm_splice`, `pairwise_splice`, `filter_splice` — the result is a permutation, is
  sorted, and is stable.
-/

namespace BucketSort

variable {α : Type*} (key : α → ℕ)

/-- Each item is put at the end of the bucket of its key. -/
def fill (xs : List α) (bucket : ℕ → List α) : ℕ → List α :=
  xs.foldl (fun bucket x => Function.update bucket (key x) (bucket (key x) ++ [x])) bucket

/-- The first `n` buckets are put to the front of `out`, one after the other. -/
def splice (bucket : ℕ → List α) (n : ℕ) (out : List α) : List α :=
  (List.range n).foldl (fun out i => bucket i ++ out) out

variable {key} {bucket : ℕ → List α} {n : ℕ} {xs out : List α}

theorem fill_apply (k : ℕ) : fill key xs bucket k = bucket k ++ xs.filter (key · = k) := by
  induction xs generalizing bucket with
  | nil => simp [fill]
  | cons x xs ih =>
    have hcons : fill key (x :: xs) bucket =
        fill key xs (Function.update bucket (key x) (bucket (key x) ++ [x])) := rfl
    rw [hcons, ih, Function.update_apply]
    by_cases hk : key x = k
    · simp [hk]
    · simp [hk, Ne.symm hk]

theorem splice_succ : splice bucket (n + 1) out = bucket n ++ splice bucket n out := by
  simp [splice, List.range_succ]

/-- What was on the list before stays behind the buckets. -/
theorem splice_eq_append : splice bucket n out = splice bucket n [] ++ out := by
  induction n with
  | zero => rfl
  | succ n ih => rw [splice_succ, splice_succ, ih, List.append_assoc]

section Sorted

variable (hbucket : ∀ k, bucket k = xs.filter (key · = k))

include hbucket

theorem mem_splice {x : α} : x ∈ splice bucket n [] ↔ x ∈ xs ∧ key x < n := by
  induction n with
  | zero => simp [splice]
  | succ n ih =>
    rw [splice_succ, List.mem_append, ih, hbucket, List.mem_filter, decide_eq_true_eq,
      ← and_or_left, Nat.lt_succ_iff_lt_or_eq, or_comm]

/-- **The result is a permutation** of the items with a bucket. -/
theorem perm_splice : (splice bucket n []).Perm (xs.filter (key · < n)) := by
  induction n with
  | zero => simp [splice]
  | succ n ih =>
    -- the items with smaller keys, and those with the key `n`
    have hlt : (xs.filter (key · < n + 1)).filter (key · < n) = xs.filter (key · < n) := by
      rw [List.filter_filter]
      congr 1
      funext x
      grind
    have heq : (xs.filter (key · < n + 1)).filter (fun x => !decide (key x < n)) =
        xs.filter (key · = n) := by
      rw [List.filter_filter]
      congr 1
      funext x
      grind
    have hsplit := List.filter_append_perm (fun x => decide (key x < n)) (xs.filter (key · < n + 1))
    rw [hlt, heq] at hsplit
    rw [splice_succ, hbucket]
    exact ((ih.append_left _).trans List.perm_append_comm).trans hsplit

/-- **The result is sorted** by descending keys. -/
theorem pairwise_splice : (splice bucket n []).Pairwise (fun a b => key b ≤ key a) := by
  induction n with
  | zero => simp [splice]
  | succ n ih =>
    rw [splice_succ, hbucket, List.pairwise_append]
    refine ⟨?_, ih, fun a ha b hb => ?_⟩
    · refine List.pairwise_of_forall_mem_list fun a ha b hb => ?_
      simp only [List.mem_filter, decide_eq_true_eq] at ha hb
      exact Nat.le_of_eq (hb.2.trans ha.2.symm)
    · simp only [List.mem_filter, decide_eq_true_eq] at ha
      exact ha.2 ▸ Nat.le_of_lt ((mem_splice hbucket).mp hb).2

/-- **The result is stable**: items with the same key are in their order. -/
theorem filter_splice (k : ℕ) (hk : k < n) :
    (splice bucket n []).filter (key · = k) = xs.filter (key · = k) := by
  induction n with
  | zero => exact absurd hk (Nat.not_lt_zero k)
  | succ n ih =>
    rw [splice_succ, hbucket, List.filter_append, List.filter_filter]
    by_cases hkn : k = n
    · subst hkn
      have hnil : (splice bucket k []).filter (key · = k) = [] :=
        List.filter_eq_nil_iff.mpr fun x hx => by
          have := ((mem_splice hbucket).mp hx).2
          grind
      simp only [hnil, List.append_nil, Bool.and_self]
    · have hnil : xs.filter (fun x => decide (key x = k) && decide (key x = n)) = [] :=
        List.filter_eq_nil_iff.mpr fun x _ => by grind
      rw [hnil, List.nil_append, ih (by grind)]

end Sorted

end BucketSort
