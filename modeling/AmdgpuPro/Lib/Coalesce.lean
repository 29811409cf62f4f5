import Mathlib.Algebra.GroupWithZero.Nat
import Mathlib.Algebra.Order.Monoid.Defs
import Mathlib.Algebra.BigOperators.Group.List.Basic
import Mathlib.Data.List.Chain

set_option autoImplicit false

/-!
# Coalescing a list of items

A loop that emits commands for a list of items often keeps the last command back: if the next item
can be joined to it, the command gets longer, otherwise it is emitted and the item becomes the new
pending command. Here `join` says which items can be joined, and to what.

## Main definitions

* `Coalesce.collect` — the commands for a pending one and a list of items.

## Main results

* `Coalesce.flatMap_collect` — the commands stand for the same things as the items.
* `forall_mem_collect`, `exists_le_of_mem` — bounds of the commands.
* `sum_collect_le` — the commands cost at most as much as the items.
* `collect_of_isChain` — items that cannot be joined are emitted one by one.
-/

namespace Coalesce

variable {α β : Type*}

/-- The commands for a pending command `c` and a list of items. -/
def collect (join : α → α → Option α) : α → List α → List α
  | c, [] => [c]
  | c, x :: xs =>
    match join c x with
    | some c' => collect join c' xs
    | none => c :: collect join x xs

section

variable {join : α → α → Option α} {c x : α} {xs : List α}

theorem collect_cons_of_some {c' : α} (h : join c x = some c') :
    collect join c (x :: xs) = collect join c' xs := by rw [collect, h]

theorem collect_cons_of_none (h : join c x = none) :
    collect join c (x :: xs) = c :: collect join x xs := by rw [collect, h]

/-- **The commands stand for the same things as the items**, if joined items do, for items that
follow one another in the sense of `R`. -/
theorem flatMap_collect {R : α → α → Prop} {expand : α → List β}
    (hexpand : ∀ c x c', R c x → join c x = some c' → expand c' = expand c ++ expand x)
    (hR : ∀ c x c' y, R c x → join c x = some c' → R x y → R c' y)
    (h : List.IsChain R (c :: xs)) :
    (collect join c xs).flatMap expand = (c :: xs).flatMap expand := by
  induction xs generalizing c with
  | nil => rfl
  | cons x xs ih =>
    obtain ⟨hcx, hchain⟩ := List.isChain_cons_cons.mp h
    cases hj : join c x with
    | none =>
      rw [collect_cons_of_none hj, List.flatMap_cons, ih hchain]
      simp only [List.flatMap_cons]
    | some c' =>
      have hchain' : List.IsChain R (c' :: xs) := by
        cases xs with
        | nil => exact .singleton c'
        | cons y ys =>
          obtain ⟨hxy, htail⟩ := List.isChain_cons_cons.mp hchain
          exact List.isChain_cons_cons.mpr ⟨hR c x c' y hcx hj hxy, htail⟩
      rw [collect_cons_of_some hj, ih hchain', List.flatMap_cons, hexpand c x c' hcx hj]
      simp only [List.flatMap_cons, List.append_assoc]

/-- What joining keeps holds of every command. -/
theorem forall_mem_collect {P : α → Prop}
    (hjoin : ∀ c x c', P c → P x → join c x = some c' → P c') (h : ∀ y ∈ c :: xs, P y) :
    ∀ y ∈ collect join c xs, P y := by
  induction xs generalizing c with
  | nil => exact h
  | cons x xs ih =>
    have hc : P c := h c List.mem_cons_self
    have hx : P x := h x (List.mem_cons_of_mem _ List.mem_cons_self)
    have htail : ∀ y ∈ xs, P y := fun y hy =>
      h y (List.mem_cons_of_mem _ (List.mem_cons_of_mem _ hy))
    cases hj : join c x with
    | none =>
      rw [collect_cons_of_none hj]
      exact List.forall_mem_cons.mpr ⟨hc, ih (List.forall_mem_cons.mpr ⟨hx, htail⟩)⟩
    | some c' =>
      rw [collect_cons_of_some hj]
      exact ih (List.forall_mem_cons.mpr ⟨hjoin c x c' hc hx hj, htail⟩)

/-- Every item is part of a command that is at least as large, if joining makes nothing smaller. -/
theorem exists_le_of_mem {size : α → ℕ}
    (hjoin : ∀ c x c', join c x = some c' → size c ≤ size c' ∧ size x ≤ size c') {y : α}
    (hy : y ∈ c :: xs) : ∃ z ∈ collect join c xs, size y ≤ size z := by
  induction xs generalizing c y with
  | nil => exact ⟨y, hy, le_rfl⟩
  | cons x xs ih =>
    cases hj : join c x with
    | none =>
      rw [collect_cons_of_none hj]
      rcases List.mem_cons.mp hy with rfl | hy
      · exact ⟨y, List.mem_cons_self, le_rfl⟩
      · obtain ⟨z, hz, hle⟩ := ih hy
        exact ⟨z, List.mem_cons_of_mem _ hz, hle⟩
    | some c' =>
      rw [collect_cons_of_some hj]
      obtain ⟨hc, hx⟩ := hjoin c x c' hj
      rcases List.mem_cons.mp hy with rfl | hy
      · obtain ⟨z, hz, hle⟩ := ih (List.mem_cons_self (a := c') (l := xs))
        exact ⟨z, hz, hc.trans hle⟩
      · rcases List.mem_cons.mp hy with rfl | hy
        · obtain ⟨z, hz, hle⟩ := ih (List.mem_cons_self (a := c') (l := xs))
          exact ⟨z, hz, hx.trans hle⟩
        · exact ih (List.mem_cons_of_mem _ hy)

/-- **The commands cost at most as much as the items**, if this is so for two items that are
joined. -/
theorem sum_collect_le {P : α → Prop} {cost : α → ℕ}
    (hjoin : ∀ c x c', P c → P x → join c x = some c' → P c' ∧ cost c' ≤ cost c + cost x)
    (h : ∀ y ∈ c :: xs, P y) :
    ((collect join c xs).map cost).sum ≤ ((c :: xs).map cost).sum := by
  induction xs generalizing c with
  | nil => exact le_rfl
  | cons x xs ih =>
    have hc : P c := h c List.mem_cons_self
    have hx : P x := h x (List.mem_cons_of_mem _ List.mem_cons_self)
    have htail : ∀ y ∈ xs, P y := fun y hy =>
      h y (List.mem_cons_of_mem _ (List.mem_cons_of_mem _ hy))
    cases hj : join c x with
    | none =>
      rw [collect_cons_of_none hj, List.map_cons, List.sum_cons, List.map_cons, List.sum_cons]
      exact Nat.add_le_add_left (ih (List.forall_mem_cons.mpr ⟨hx, htail⟩)) _
    | some c' =>
      obtain ⟨hc', hcost⟩ := hjoin c x c' hc hx hj
      have := ih (List.forall_mem_cons.mpr ⟨hc', htail⟩)
      rw [collect_cons_of_some hj]
      simp only [List.map_cons, List.sum_cons] at this ⊢
      omega

/-- Items that cannot be joined are emitted one by one. -/
theorem collect_of_isChain (h : List.IsChain (fun c x => join c x = none) (c :: xs)) :
    collect join c xs = c :: xs := by
  induction xs generalizing c with
  | nil => rfl
  | cons x xs ih =>
    obtain ⟨hcx, hchain⟩ := List.isChain_cons_cons.mp h
    rw [collect_cons_of_none hcx, ih hchain]

end

end Coalesce
