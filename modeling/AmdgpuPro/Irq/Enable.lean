import AmdgpuPro.Kernel
import AmdgpuPro.Lib.Lock
import AmdgpuPro.Lib.Transition
import Mathlib.Tactic

set_option autoImplicit false

/-!
# Enabling interrupts

An interrupt type has a count of those who want it. `amdgpu_irq_get` and `amdgpu_irq_put` change the
count without a lock, and only those who find that it became one or zero go on to program the
hardware. `amdgpu_irq_update` takes a lock first and then looks at the count, so that the last
update that programs the hardware has seen the last change that needs one.

## Main definitions

* `Amdgpu.IrqSrc`, `IrqState` — an interrupt type, and the calls on it.
* `IrqState.step` — a call goes one step further.
* `IrqState.Pending` — a call is going to look at the count.

## Main results

* `Amdgpu.IrqState.Inv.step` — the hardware is as the count says, or a call is pending.
* `irq_programmed_iff` — when no call is in progress, the hardware is as the count says.

## Design

Every atomic operation is a step of its own, and calls of any number of threads interleave. The
count is an `atomic_t` of 32 bits and an integer here: fewer than `2 ^ 31` references are held at a
time. `amdgpu_irq_gpu_reset_resume_helper` updates all types of all sources; a refresh is its update
of this type.
-/

namespace Amdgpu

open Lock Transition

/-- `enum amdgpu_interrupt_state` -/
inductive InterruptState
  | disable
  | enable
  deriving DecidableEq

/-- An interrupt type of a source, with what the calls check. -/
structure IrqSrc where
  /-- `adev->ddev->irq_enabled` -/
  irqEnabled : Bool
  numTypes : ℕ
  type : ℕ
  /-- `src->enabled_types` is there -/
  hasTypes : Bool
  /-- `src->funcs->set` is there -/
  hasSet : Bool

/-- The checks at the start of `amdgpu_irq_get` and `amdgpu_irq_put`. -/
def IrqSrc.check (src : IrqSrc) : Option Errno :=
  if !src.irqEnabled then some .ENOENT
  else if src.numTypes ≤ src.type then some .EINVAL
  else if !src.hasTypes || !src.hasSet then some .EINVAL
  else none

/-- `amdgpu_irq_enabled` -/
def irqEnabled (src : IrqSrc) (count : ℤ) : Bool :=
  if !src.irqEnabled then false
  else if src.numTypes ≤ src.type then false
  else if !src.hasTypes || !src.hasSet then false
  else count ≠ 0

/-- The state that `amdgpu_irq_update` programs. -/
def irqUpdateState (src : IrqSrc) (count : ℤ) : InterruptState :=
  if irqEnabled src count then .enable else .disable

/-- Where a thread is. -/
inductive IrqPc
  /-- not in a call -/
  | idle
  /-- at the start of `amdgpu_irq_update` -/
  | update
  /-- it has the lock -/
  | locked
  /-- it has looked at the count -/
  | set (state : InterruptState)
  /-- it has programmed the hardware -/
  | unlock
  deriving DecidableEq

/-- A thread in this place has the lock. -/
def IrqPc.Holds : IrqPc → Prop
  | .idle => False
  | .update => False
  | _ => True

/-- The count, who has `adev->irq.lock`, where the threads are, and the last state that was
programmed. -/
structure IrqState where
  count : ℤ
  lock : Option ℕ
  pc : ℕ → IrqPc
  programmed : Option InterruptState

/-- What a thread does next. -/
inductive IrqOp
  /-- `amdgpu_irq_get` -/
  | get (t : ℕ)
  /-- `amdgpu_irq_put` -/
  | put (t : ℕ)
  /-- `amdgpu_irq_gpu_reset_resume_helper` -/
  | refresh (t : ℕ)
  | lock (t : ℕ)
  | test (t : ℕ)
  | set (t : ℕ)
  | unlock (t : ℕ)

namespace IrqState

/-- Nobody wants the interrupt, and nothing was programmed. -/
def init : IrqState where
  count := 0
  lock := none
  pc := fun _ => .idle
  programmed := none

/-- The thread `t` is at `pc`. -/
def goTo (s : IrqState) (t : ℕ) (pc : IrqPc) : IrqState :=
  { s with pc := Function.update s.pc t pc }

/-- The count becomes `count`, and `t` goes on to `amdgpu_irq_update` if it is `want`. -/
def setCount (s : IrqState) (t : ℕ) (count want : ℤ) : IrqState :=
  if count = want then { s.goTo t .update with count := count } else { s with count := count }

/-- One step of a thread, if it is there. A call that fails its checks changes nothing. -/
def step (src : IrqSrc) (s : IrqState) : IrqOp → Option IrqState
  | .get t =>
    if s.pc t ≠ .idle then none
    else if src.check.isSome then some s
    else some (s.setCount t (s.count + 1) 1)
  | .put t =>
    if s.pc t ≠ .idle then none
    else if src.check.isSome then some s
    else some (s.setCount t (s.count - 1) 0)
  | .refresh t =>
    if s.pc t ≠ .idle then none
    else if src.numTypes ≤ src.type then some s
    else some (s.goTo t .update)
  | .lock t =>
    if s.pc t = .update ∧ s.lock = none then some { s.goTo t .locked with lock := some t } else none
  | .test t =>
    if s.pc t = .locked then some (s.goTo t (.set (irqUpdateState src s.count))) else none
  | .set t =>
    match s.pc t with
    | .set state => some { s.goTo t .unlock with programmed := some state }
    | _ => none
  | .unlock t =>
    if s.pc t = .unlock then some { s.goTo t .idle with lock := none } else none

/-- A reference is put that was got before. -/
def Balanced (s : IrqState) : IrqOp → Prop
  | .put _ => 0 < s.count
  | _ => True

/-! ## What holds in every state -/

/-- A call is going to look at the count. -/
def Pending (s : IrqState) : Prop := ∃ t, s.pc t = .update ∨ s.pc t = .locked

/-- The state shows whether somebody wants the interrupt. -/
def Shows (s : IrqState) (state : Option InterruptState) : Prop :=
  state = some .enable ↔ 0 < s.count

/-- The hardware is as the count says, or is going to be, unless a call is pending. -/
structure Inv (src : IrqSrc) (s : IrqState) : Prop where
  nonneg : 0 ≤ s.count
  usable : s.count ≠ 0 → src.check = none
  holder : ∀ t, (s.pc t).Holds → s.lock = some t
  set : s.Pending ∨ ∀ t state, s.pc t = .set state → s.Shows (some state)
  programmed : s.Pending ∨ (∃ t state, s.pc t = .set state) ∨ s.Shows s.programmed

variable {src : IrqSrc} {s s' : IrqState} {t : ℕ} {pc : IrqPc}

/-- At the start. -/
theorem Inv.init (src : IrqSrc) : IrqState.init.Inv src where
  nonneg := le_rfl
  usable h := absurd rfl h
  holder _ h := h.elim
  set := .inr fun _ _ h => (by cases h)
  programmed := .inr (.inr (by simp [Shows, IrqState.init]))

/-- Only one call moves. -/
theorem pc_goTo (t' : ℕ) : (s.goTo t pc).pc t' = if t' = t then pc else s.pc t' := by
  simp [goTo, Function.update_apply]

/-- The lock is held. -/
theorem Inv.held (h : s.Inv src) : Held IrqPc.Holds s.pc s.lock := h.holder

/-- A thread that is somewhere else stays there. -/
theorem pc_goTo_of_ne {t' : ℕ} (hne : t' ≠ t) : (s.goTo t pc).pc t' = s.pc t' := by
  rw [pc_goTo, if_neg hne]

/-- A call that looks at the count afterwards is pending. -/
theorem Inv.of_pending (hs' : s'.pc = (s.goTo t pc).pc)
    (hpc : pc = .update ∨ pc = .locked) (hnonneg : 0 ≤ s'.count)
    (husable : s'.count ≠ 0 → src.check = none)
    (hheld : Held IrqPc.Holds (s.goTo t pc).pc s'.lock) : s'.Inv src := by
  have hpend : s'.Pending := ⟨t, by simpa [hs', pc_goTo] using hpc⟩
  exact ⟨hnonneg, husable, fun t' ht' => hheld t' (hs' ▸ ht'), .inl hpend, .inl hpend⟩

/-- The count changes: either the thread goes on to update the hardware, or the count was positive
and still is. -/
theorem Inv.setCount (h : s.Inv src) (hsrc : src.check = none)
    {count want : ℤ} (hnonneg : 0 ≤ count) (hpos : count ≠ want → 0 < s.count ∧ 0 < count) :
    (s.setCount t count want).Inv src := by
  rw [IrqState.setCount]
  split_ifs with hwant
  · exact Inv.of_pending rfl (.inl rfl) hnonneg (fun _ => hsrc) (h.held.move False.elim)
  · obtain ⟨hold, hnew⟩ := hpos hwant
    have hshows : ∀ state, s.Shows state → Shows { s with count := count } state := by
      intro state hs
      simp only [Shows, hold, hnew, iff_true] at hs ⊢
      exact hs
    exact ⟨hnonneg, fun _ => hsrc, h.holder,
      h.set.imp_right fun hset t' state ht' => hshows _ (hset t' state ht'),
      h.programmed.imp_right fun hprog => hprog.imp_right (hshows _)⟩

/-- The answer is that of the count. -/
theorem irqEnabled_iff (h : s.Inv src) : irqEnabled src s.count = true ↔ 0 < s.count := by
  have hnonneg := h.nonneg
  by_cases hzero : s.count = 0
  · simp [irqEnabled, hzero]
  · have hsrc := h.usable hzero
    simp only [IrqSrc.check] at hsrc
    simp only [irqEnabled]
    split_ifs at hsrc ⊢
    simp only [ne_eq, hzero, not_false_eq_true, decide_true, true_iff]
    omega

/-- What the thread with the lock finds is what it is going to program. -/
theorem Inv.test (h : s.Inv src) (hpc : s.pc t = .locked) :
    (s.goTo t (.set (irqUpdateState src s.count))).Inv src := by
  have hlock : s.lock = some t := h.holder t (by rw [hpc]; trivial)
  refine ⟨h.nonneg, h.usable, h.held.move fun _ => hlock, .inr ?_,
    .inr (.inl ⟨t, _, by rw [pc_goTo, if_pos rfl]⟩)⟩
  intro t' state ht'
  by_cases heq : t' = t
  · rw [pc_goTo, if_pos heq] at ht'
    obtain rfl := IrqPc.set.inj ht'
    show _ ↔ 0 < s.count
    rw [← irqEnabled_iff h, irqUpdateState]
    cases irqEnabled src s.count <;> simp
  · -- no other thread has the lock
    rw [pc_goTo_of_ne heq] at ht'
    exact absurd (h.held.unique (by rw [hpc]; trivial) (by rw [ht']; trivial)) heq

/-- The hardware is programmed. -/
theorem Inv.program (h : s.Inv src) {state : InterruptState} (hpc : s.pc t = .set state) :
    Inv src { s.goTo t .unlock with programmed := some state } := by
  have hlock : s.lock = some t := h.holder t (by rw [hpc]; trivial)
  have hpend : s.Pending → (s.goTo t .unlock).Pending := by
    rintro ⟨t', ht'⟩
    have hne : t' ≠ t := by
      rintro rfl
      simp [hpc] at ht'
    exact ⟨t', by rwa [pc_goTo_of_ne hne]⟩
  refine ⟨h.nonneg, h.usable, h.held.move fun _ => hlock, ?_, ?_⟩
  · refine h.set.imp hpend fun hset t' state' ht' => ?_
    have hne : t' ≠ t := by
      rintro rfl
      simp [pc_goTo] at ht'
    exact hset t' state' (by rwa [← pc_goTo_of_ne hne])
  · exact h.set.imp hpend fun hset => .inr (hset t state hpc)

/-- The lock is given back. -/
theorem Inv.unlock (h : s.Inv src) (hpc : s.pc t = .unlock) :
    Inv src { s.goTo t .idle with lock := none } := by
  have hheld : Held IrqPc.Holds s.pc (some t) := h.holder t (by rw [hpc]; trivial) ▸ h.held
  have hstays : ∀ {t' pc'}, s.pc t' = pc' → pc' ≠ .unlock → (s.goTo t .idle).pc t' = pc' := by
    intro t' pc' ht' hne
    rw [pc_goTo_of_ne, ht']
    rintro rfl
    exact hne (ht'.symm.trans hpc)
  have hpend : s.Pending → (s.goTo t .idle).Pending := fun ⟨t', ht'⟩ =>
    ⟨t', ht'.imp (fun h => hstays h (by decide)) fun h => hstays h (by decide)⟩
  refine ⟨h.nonneg, h.usable, hheld.release id, ?_, ?_⟩
  · refine h.set.imp hpend fun hset t' state ht' => hset t' state ?_
    simp only [pc_goTo] at ht'
    split_ifs at ht'
    exact ht'
  · refine h.programmed.imp hpend (Or.imp_left ?_)
    exact fun ⟨t', state, ht'⟩ => ⟨t', state, hstays ht' (by simp)⟩

/-- **Every step of every thread keeps the invariant.** -/
theorem Inv.step (h : s.Inv src) {op : IrqOp} (hbal : s.Balanced op)
    (hs : s.step src op = some s') : s'.Inv src := by
  have hnonneg := h.nonneg
  cases op with
  | get t =>
    simp only [IrqState.step] at hs
    split_ifs at hs with hidle hsrc
    · exact Option.some.inj hs ▸ h
    · obtain rfl := Option.some.inj hs
      exact h.setCount (by simpa using hsrc) (by omega) (by omega)
  | put t =>
    simp only [IrqState.step] at hs
    have hpos : 0 < s.count := hbal
    split_ifs at hs with hidle hsrc
    · exact Option.some.inj hs ▸ h
    · obtain rfl := Option.some.inj hs
      exact h.setCount (by simpa using hsrc) (by omega) (by omega)
  | refresh t =>
    simp only [IrqState.step] at hs
    split_ifs at hs with hidle htype
    · exact Option.some.inj hs ▸ h
    · obtain rfl := Option.some.inj hs
      exact Inv.of_pending rfl (.inl rfl) hnonneg h.usable (h.held.move False.elim)
  | lock t =>
    simp only [IrqState.step] at hs
    split_ifs at hs with hfree
    obtain rfl := Option.some.inj hs
    have hheld : Held IrqPc.Holds s.pc none := hfree.2 ▸ h.held
    exact Inv.of_pending rfl (.inr rfl) hnonneg h.usable hheld.take
  | test t =>
    simp only [IrqState.step] at hs
    split_ifs at hs with hpc
    exact Option.some.inj hs ▸ h.test hpc
  | set t =>
    simp only [IrqState.step] at hs
    split at hs
    · next state hpc => exact Option.some.inj hs ▸ h.program hpc
    · cases hs
  | unlock t =>
    simp only [IrqState.step] at hs
    split_ifs at hs with hpc
    exact Option.some.inj hs ▸ h.unlock hpc

end IrqState

/-- **Balanced calls of `amdgpu_irq_get` and `amdgpu_irq_put`, and refreshes**: however they
interleave, whenever no call is in progress the last state that was programmed is enabled exactly
when the count is positive. -/
theorem irq_programmed_iff (src : IrqSrc) {ops : List IrqOp} {s : IrqState}
    (hrun : Run (Guarded (fun s op s' => s.step src op = some s') IrqState.Balanced)
      IrqState.init ops s)
    (hidle : ∀ t, s.pc t = .idle) :
    s.programmed = some .enable ↔ 0 < s.count := by
  have hinv : s.Inv src := hrun.invariant (IrqState.Inv src)
    (fun _ _ _ h hstep => h.step hstep.2 hstep.1) (IrqState.Inv.init src)
  obtain ⟨t, ht⟩ | ⟨t, state, ht⟩ | hshows := hinv.programmed
  · simp [hidle t] at ht
  · simp [hidle t] at ht
  · exact hshows

/-- Three calls, of which one has to program the hardware. -/
theorem irq_programmed_iff_three_calls :
    ∃ s : IrqState, s.count = 1 ∧ (s.programmed = some .enable ↔ 0 < s.count) := by
  let src : IrqSrc := ⟨true, 1, 0, true, true⟩
  have hrun : ∃ s : IrqState, s.count = 1 ∧ (∀ t, s.pc t = .idle) ∧
      Run (Guarded (fun s op s' => s.step src op = some s') IrqState.Balanced) IrqState.init
        [.get 1, .get 2, .put 3, .lock 1, .test 1, .set 1, .unlock 1] s := by
    refine ⟨_, ?_, ?_, .cons ⟨rfl, trivial⟩ <| .cons ⟨rfl, trivial⟩ <|
      .cons ⟨rfl, show (0 : ℤ) < 2 by decide⟩ <| .cons ⟨rfl, trivial⟩ <| .cons ⟨rfl, trivial⟩ <|
      .cons ⟨rfl, trivial⟩ <| .cons ⟨rfl, trivial⟩ (.nil _)⟩
    · rfl
    · intro t
      simp [IrqState.goTo, IrqState.setCount, IrqState.init]
  obtain ⟨s, hcount, hidle, hrun⟩ := hrun
  exact ⟨s, hcount, irq_programmed_iff src hrun hidle⟩

end Amdgpu
