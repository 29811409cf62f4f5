import Mathlib.Algebra.Order.BigOperators.Group.Finset

set_option autoImplicit false

/-!
# Tallies

What the elements of a list contribute to a total, and how the total changes when an element is
added, replaced or removed. A counter that is kept beside the list is right if every operation
changes it by as much as it changes the tally. The equations have no subtraction, so that they hold
for totals of any kind.

## Main definitions

* `Covers` — a counter is at least the total of what any of the owners have.

## Main results

* `tally_append`, `tally_set`, `tally_eraseIdx` — an element is added, replaced or removed.
* `tally_eq_iff_of_le` — contributions that are not larger have the same total only if they are the
  same.
* `Covers.update` — one owner and the counter change by the same amount.
-/

variable {α M : Type*}

section AddCommMonoid

variable [AddCommMonoid M]

/-- The total of what the elements of a list contribute. -/
def tally (w : α → M) (l : List α) : M := (l.map w).sum

variable (w : α → M) {l : List α} {i : ℕ} {a : α}

@[simp] theorem tally_nil : tally w [] = 0 := rfl

@[simp] theorem tally_cons (a : α) (l : List α) : tally w (a :: l) = w a + tally w l := by
  rw [tally, tally, List.map_cons, List.sum_cons]

@[simp] theorem tally_append (l l' : List α) : tally w (l ++ l') = tally w l + tally w l' := by
  rw [tally, tally, tally, List.map_append, List.sum_append]

/-- An element of a list stands between those before and those behind it. -/
theorem tally_eq_of_getElem? (h : l[i]? = some a) :
    tally w l = w a + (tally w (l.take i) + tally w (l.drop (i + 1))) := by
  obtain ⟨hi, rfl⟩ := List.getElem?_eq_some_iff.mp h
  conv_lhs => rw [← List.take_append_drop i l, List.drop_eq_getElem_cons hi]
  rw [tally_append, tally_cons, add_left_comm]

/-- An element is replaced. -/
theorem tally_set (h : l[i]? = some a) (b : α) :
    tally w (l.set i b) + w a = tally w l + w b := by
  obtain ⟨hi, -⟩ := List.getElem?_eq_some_iff.mp h
  rw [List.set_eq_take_append_cons_drop, if_pos hi, tally_append, tally_cons,
    tally_eq_of_getElem? w h]
  ac_rfl

/-- An element is removed. -/
theorem tally_eraseIdx (h : l[i]? = some a) : tally w (l.eraseIdx i) + w a = tally w l := by
  rw [List.eraseIdx_eq_take_drop_succ, tally_append, tally_eq_of_getElem? w h, add_comm]

end AddCommMonoid

section Order

variable [AddCommMonoid M] [PartialOrder M] [IsOrderedCancelAddMonoid M] {f g : α → M}
  {l : List α}

theorem tally_le_tally (h : ∀ a ∈ l, f a ≤ g a) : tally f l ≤ tally g l :=
  List.sum_le_sum h

/-- Contributions that are not larger have the same total only if they are the same. -/
theorem tally_eq_iff_of_le (h : ∀ a ∈ l, f a ≤ g a) :
    tally f l = tally g l ↔ ∀ a ∈ l, f a = g a := by
  induction l with
  | nil => simp
  | cons a l ih =>
    obtain ⟨ha, hl⟩ := List.forall_mem_cons.mp h
    rw [tally_cons, tally_cons, List.forall_mem_cons, ← ih hl]
    exact add_eq_add_iff_eq_and_eq ha (tally_le_tally hl)

end Order

section Covers

variable {ι : Type*} {load load' : ι → ℕ} {n n' : ℕ}

/-- The counter `n` is at least the total of what the owners in any finite set have. -/
def Covers (n : ℕ) (load : ι → ℕ) : Prop := ∀ F : Finset ι, ∑ p ∈ F, load p ≤ n

theorem Covers.zero (h : ∀ p, load p = 0) : Covers 0 load :=
  fun _ => le_of_eq (Finset.sum_eq_zero fun p _ => h p)

/-- What an owner has is at most the counter. -/
theorem Covers.le (h : Covers n load) (p : ι) : load p ≤ n := by
  have hp := h {p}
  rwa [Finset.sum_singleton] at hp

variable [DecidableEq ι]

/-- One owner changes, and the counter with it. -/
theorem Covers.update (h : Covers n load) (p : ι) (hother : ∀ q, q ≠ p → load' q = load q)
    (heq : load' p + n = load p + n') : Covers n' load' := by
  intro F
  have hrest : ∑ q ∈ F.erase p, load' q = ∑ q ∈ F.erase p, load q :=
    Finset.sum_congr rfl fun q hq => hother q (Finset.ne_of_mem_erase hq)
  have hF : ∑ q ∈ F, load' q ≤ load' p + ∑ q ∈ F.erase p, load' q := by
    by_cases hp : p ∈ F
    · rw [Finset.add_sum_erase F load' hp]
    · rw [Finset.erase_eq_of_notMem hp]
      exact Nat.le_add_left _ _
  have hbefore := h (insert p (F.erase p))
  rw [Finset.sum_insert (Finset.notMem_erase p F)] at hbefore
  omega

/-- The owners on a list without repetitions. -/
theorem Covers.tally_le (h : Covers n load) {l : List ι} (hl : l.Nodup) : tally load l ≤ n := by
  rw [tally, ← List.sum_toFinset load hl]
  exact h l.toFinset

end Covers
