import Mathlib.Tactic

set_option autoImplicit false

/-!
# Ledgers of resources

A ledger says how many more times each resource was acquired than it was given back. At the end of
a procedure it is balanced if everything that was acquired was given back, and nothing twice.

## Main definitions

* `Ledger`, `Ledger.acquire`, `release`, `releaseAll` — the ledger and its entries.

## Main results

* `Ledger.acquire_apply`, `release_apply`, `releaseAll_apply` — what the entries do to each
  resource.
-/

/-- How many more times each resource was acquired than given back. -/
abbrev Ledger (K : Type*) := K → ℤ

namespace Ledger

variable {K : Type*}

/-- Nothing was acquired. -/
def empty : Ledger K := fun _ => 0

/-- Everything that was acquired was given back, and nothing else. -/
def Balanced (l : Ledger K) : Prop := ∀ k, l k = 0

@[simp] theorem empty_apply (k : K) : (empty : Ledger K) k = 0 := rfl

variable [DecidableEq K]

/-- A resource is acquired. -/
def acquire (l : Ledger K) (k : K) : Ledger K := Function.update l k (l k + 1)

/-- A resource is given back, or handed over to somebody else. -/
def release (l : Ledger K) (k : K) : Ledger K := Function.update l k (l k - 1)

/-- Several resources are given back. -/
def releaseAll (l : Ledger K) (ks : List K) : Ledger K := ks.foldl release l

variable (l : Ledger K) (k j : K)

@[simp] theorem acquire_apply : l.acquire k j = l j + if j = k then 1 else 0 := by
  rw [acquire, Function.update_apply]
  split_ifs with h
  · rw [h]
  · rw [add_zero]

@[simp] theorem release_apply : l.release k j = l j - if j = k then 1 else 0 := by
  rw [release, Function.update_apply]
  split_ifs with h
  · rw [h]
  · rw [sub_zero]

/-- Each resource is given back as often as it is in the list. -/
@[simp] theorem releaseAll_apply (ks : List K) : l.releaseAll ks j = l j - ks.count j := by
  induction ks generalizing l with
  | nil => simp [releaseAll]
  | cons k ks ih =>
    have hcons : l.releaseAll (k :: ks) = (l.release k).releaseAll ks := rfl
    rw [hcons, ih, release_apply, List.count_cons]
    by_cases h : j = k
    · subst h
      simp
      ring
    · simp [h, Ne.symm h]

end Ledger
