import Mathlib.Data.Nat.Notation

set_option autoImplicit false

/-!
# Kernel conventions

The driver returns `0` or a negative error number, and stops the machine with `BUG` where a
condition it relies on is broken. `Amdgpu.Outcome` is the result of a call that changes a state.

## Main definitions

* `Amdgpu.Errno` — the error numbers the modelled code returns.
* `Outcome` — a call returned (with or without an error) or stopped in a `BUG`.
-/

namespace Amdgpu

/-- The error numbers of the modelled code. -/
inductive Errno
  | EINVAL | ENOMEM | ENOENT | EFAULT | EBUSY | EPERM | ENOSPC | ENOTTY | EDEADLK | EAGAIN
  | ERESTARTSYS
  deriving DecidableEq, Repr

/-- The result of a call on a state of type `S`: it returned, with `none` for `0` and
`some e` for `-e`, or it ran into a `BUG` or a fault, leaving the state of that moment. -/
inductive Outcome (S : Type*)
  | ret (s : S) (r : Option Errno)
  | bug (s : S)

namespace Outcome

variable {S : Type*}

/-- The state a call leaves behind. -/
def state : Outcome S → S
  | ret s _ => s
  | bug s => s

/-- The call returned `0`. -/
def Succeeds : Outcome S → Prop
  | ret _ r => r = none
  | bug _ => False

instance (o : Outcome S) : Decidable o.Succeeds :=
  match o with
  | ret _ r => inferInstanceAs (Decidable (r = none))
  | bug _ => .isFalse id

@[simp] theorem state_ret (s : S) (r : Option Errno) : (ret s r).state = s := rfl

/-- `r = f(…); if (r) return r;` — go on with `f` after a call that returned `0`. -/
def andThen (o : Outcome S) (f : S → Outcome S) : Outcome S :=
  match o with
  | ret s none => f s
  | ret s (some e) => ret s (some e)
  | bug s => bug s

/-- A sequence of two calls returns `0` if both do. -/
theorem andThen_eq_ret_none {o : Outcome S} {f : S → Outcome S} {t : S} :
    o.andThen f = ret t none ↔ ∃ s, o = ret s none ∧ f s = ret t none := by
  rcases o with ⟨s, _ | e⟩ | s <;> simp [andThen]

theorem eq_ret_of_succeeds {o : Outcome S} (h : o.Succeeds) : o = ret o.state none := by
  cases o with
  | ret s r => cases h; rfl
  | bug s => cases h

end Outcome

end Amdgpu
