import Mathlib.Logic.Function.Basic

set_option autoImplicit false

/-!
# The thread that has a lock

Threads are at places of a program, and some places are only for the thread that has the lock.

## Main definitions

* `Lock.Held` — the threads at critical places have the lock.

## Main results

* `Lock.Held.unique` — there is only one such thread.
* `Held.move`, `Held.take`, `Held.release` — a thread goes to another place, with the lock as it is,
  taken or given back.
-/

namespace Lock

variable {ι P : Type*} {crit : P → Prop} {pc : ι → P} {lock : Option ι} {t t' : ι} {p : P}

/-- The threads at critical places have the lock. -/
def Held (crit : P → Prop) (pc : ι → P) (lock : Option ι) : Prop := ∀ t, crit (pc t) → lock = some t

namespace Held

theorem unique (h : Held crit pc lock) (ht : crit (pc t)) (ht' : crit (pc t')) : t' = t :=
  Option.some.inj ((h t' ht').symm.trans (h t ht))

variable [DecidableEq ι]

/-- A thread goes to another place, which is critical only if it has the lock. -/
theorem move (h : Held crit pc lock) (hp : crit p → lock = some t) :
    Held crit (Function.update pc t p) lock := by
  intro t' ht'
  by_cases heq : t' = t
  · subst heq
    rw [Function.update_self] at ht'
    exact hp ht'
  · rw [Function.update_of_ne heq] at ht'
    exact h t' ht'

/-- A thread takes the lock. -/
theorem take (h : Held crit pc none) : Held crit (Function.update pc t p) (some t) := by
  have hfree : Held crit pc (some t) := by
    intro t' ht'
    exact absurd (h t' ht') (Option.some_ne_none t').symm
  exact hfree.move fun _ => rfl

/-- The thread with the lock gives it back. -/
theorem release (h : Held crit pc (some t)) (hp : ¬ crit p) :
    Held crit (Function.update pc t p) none := by
  intro t' ht'
  by_cases heq : t' = t
  · subst heq
    rw [Function.update_self] at ht'
    exact absurd ht' hp
  · rw [Function.update_of_ne heq] at ht'
    exact absurd (Option.some.inj (h t' ht')).symm heq

end Held

end Lock
