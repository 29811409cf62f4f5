import AmdgpuPro.Kfd.Events

set_option autoImplicit false

/-!
# Waiting for events and being woken

A thread that waits for events tests its waiters in a loop. If the condition it waits for does not
hold, it calls `schedule_timeout_interruptible`, which makes the task interruptible and goes to
sleep. A thread that sets an event holds `event_mutex`, and for each waiter of the event it sets
`activated`, takes the waiter off the queue, and calls `wake_up_process`. The tests are made without
the mutex.

## Main definitions

* `Amdkfd.WakeState`, `WakeState.step` — one waiting thread and those that set events.
* `WakeState.Lost` — the thread sleeps, its condition holds, and nobody will wake it.
* `WakeState.Overlooked` — the test has passed over a waiter that is activated now.

## Main results

* `Amdkfd.WakeState.Inv.step` — as long as a waiter is overlooked, a wake-up is pending.
* `wait_not_lost` — the thread is not lost if nobody calls `wake_up_process` between the test and
  the change of the task state.
* `wait_lost` — a run in which this happens.

## Design

A step is an access to something that both sides use. `wake_up_process` changes a task that is
interruptible and does nothing to one that runs, as in Linux; `schedule` does not put a task to
sleep that was woken meanwhile or has a signal. The states at the beginning are those in which the
thread has queued its waiters and given back the mutex. There is one holder of the mutex, so that
one call of `set_event` is in progress at most.
-/

namespace Amdkfd

open Transition

/-! ## The threads -/

/-- The state of a task. -/
inductive TaskState
  | running
  | interruptible
  deriving DecidableEq

/-- Where the waiting thread is in `kfd_wait_on_events`. -/
inductive WaitPc
  /-- at the top of the loop -/
  | check
  /-- in `test_event_condition`, with its variables `i` and `activated_count` -/
  | test (i count : ℕ)
  /-- after a test that failed -/
  | tested
  /-- in `schedule_timeout_interruptible`, before `schedule` -/
  | schedule
  /-- in `schedule`, without the processor -/
  | asleep
  /-- after the loop -/
  | left (how : WaitEnd)
  /-- after `free_waiters` -/
  | freed
  deriving DecidableEq

/-- What a call of `set_event` does next for the first waiter that is left. -/
inductive SetStage
  | activate
  | listDel
  | wakeUp

/-- A call of `set_event` in progress. -/
structure SetEvent where
  id : ℕ
  todo : List ℕ
  stage : SetStage

/-- One waiting thread, its waiters by their index, and the events. -/
structure WakeState where
  wait : EventWait
  /-- the timeout is `KFD_EVENT_TIMEOUT_INFINITE` -/
  infinite : Bool
  /-- no time is left -/
  expired : Bool
  signalPending : Bool
  pc : WaitPc
  task : TaskState
  activated : ℕ → Bool
  signaled : ℕ → Bool
  autoReset : ℕ → Bool
  /-- the waiters of the thread that are queued on an event -/
  waiters : ℕ → List ℕ
  setter : Option SetEvent

/-- What happens: a step of the waiting thread, the beginning of a call of `set_event`, a step of
that call, a signal, and the end of the timeout. -/
inductive WakeOp
  | waiter
  | set (id : ℕ)
  | setter
  | signal
  | timer

namespace WakeState

variable (s : WakeState)

/-- A round of the loop of `test_event_condition`. -/
def testEvent (i count : ℕ) : WaitPc :=
  if i < s.wait.numEvents then
    if s.activated i then
      if s.wait.all then .test (i + 1) (count + 1) else .left .complete
    else .test (i + 1) count
  else if count = s.wait.numEvents then .left .complete
  else .tested

/-- A step of the waiting thread. -/
def waiterStep : Option WakeState :=
  match s.pc with
  | .check => some { s with pc := if s.signalPending then .left .interrupted else .test 0 0 }
  | .test i count => some { s with pc := s.testEvent i count }
  | .tested =>
    if s.expired then some { s with pc := .left .timeout }
    else some { s with pc := .schedule, task := .interruptible }
  | .schedule =>
    if s.task = .interruptible ∧ s.signalPending = false then some { s with pc := .asleep }
    else some { s with pc := .check, task := .running }
  | .asleep => none
  | .left _ =>
    -- `free_waiters` needs the mutex
    if s.setter.isNone then some { s with pc := .freed, waiters := fun _ => [] } else none
  | .freed => none

/-- `wake_up_process` for the waiting thread. -/
def wakeUpProcess : WakeState :=
  match s.task, s.pc with
  | .running, _ => s
  | .interruptible, .asleep => { s with task := .running, pc := .check }
  | .interruptible, _ => { s with task := .running }

/-- A step of the call of `set_event` that is in progress. -/
def setterStep : Option WakeState :=
  match s.setter with
  | none => none
  | some ⟨_, [], _⟩ => some { s with setter := none }
  | some ⟨id, i :: todo, .activate⟩ =>
    some { s with
      activated := Function.update s.activated i true
      setter := some ⟨id, i :: todo, .listDel⟩ }
  | some ⟨id, i :: todo, .listDel⟩ =>
    some { s with
      waiters := Function.update s.waiters id ((s.waiters id).erase i)
      setter := some ⟨id, i :: todo, .wakeUp⟩ }
  | some ⟨id, _ :: todo, .wakeUp⟩ =>
    some { s.wakeUpProcess with setter := some ⟨id, todo, .activate⟩ }

/-- One step, if it is possible. -/
def step : WakeOp → Option WakeState
  | .waiter => s.waiterStep
  | .set id =>
    if s.setter.isNone then
      some { s with
        signaled := Function.update s.signaled id (!s.autoReset id || (s.waiters id).isEmpty)
        setter := some ⟨id, s.waiters id, .activate⟩ }
    else none
  | .setter => s.setterStep
  | .signal => some { s.wakeUpProcess with signalPending := true }
  | .timer =>
    match s.infinite, s.pc with
    | false, .schedule => some { s.wakeUpProcess with expired := true }
    | false, .asleep => some { s.wakeUpProcess with expired := true }
    | _, _ => none

/-- The thread has queued its waiters and begins to wait. -/
def Started : Prop := s.pc = .check ∧ s.task = .running ∧ s.setter = none

/-! ## What should hold -/

/-- The condition that the thread waits for. -/
def Condition : Prop :=
  if s.wait.all = true then ∀ i < s.wait.numEvents, s.activated i = true
  else (∃ i < s.wait.numEvents, s.activated i = true) ∨ s.wait.numEvents = 0

/-- A call of `set_event` has not come to its last `wake_up_process`. -/
def WakePending : Prop := ∃ ev, s.setter = some ev ∧ ev.todo ≠ []

/-- The thread sleeps, its condition holds, and no wake-up is pending. -/
def Lost : Prop := s.pc = .asleep ∧ s.Condition ∧ ¬ s.WakePending

/-- The number of activated waiters with an index below `i`. -/
def activatedBelow (i : ℕ) : ℕ := (List.range i).countP s.activated

/-- What the thread knows is out of date: a waiter is activated that its test has passed over, or
it is about to sleep or sleeps although its condition holds. -/
def Overlooked : Prop :=
  match s.pc with
  | .test i count => count ≠ s.activatedBelow i
  | .tested => s.Condition
  | .schedule => s.task = .interruptible ∧ s.Condition
  | .asleep => s.Condition
  | _ => False

/-- The thread tests its condition, or has tested it and not yet changed the task state. -/
def Testing : Prop := (∃ i count, s.pc = .test i count) ∨ s.pc = .tested

/-- `wake_up_process` is not called while the thread tests and has overlooked a waiter. -/
def Careful : WakeOp → Prop
  | .setter => ∀ id todo, s.setter = some ⟨id, todo, .wakeUp⟩ → s.Testing → ¬ s.Overlooked
  | _ => True

/-! ## The invariant -/

/-- As long as a waiter is overlooked, a wake-up is pending. -/
structure Inv : Prop where
  test : ∀ i count, s.pc = .test i count →
    i ≤ s.wait.numEvents ∧ (s.wait.all = false → count = 0)
  asleep : s.pc = .asleep → s.task = .interruptible
  fresh : s.WakePending ∨ ¬ s.Overlooked

variable {s} {t : WakeState}

/-- The thread neither tests nor sleeps. -/
theorem Inv.of_pc (htest : ∀ i count, s.pc ≠ .test i count) (hasleep : s.pc ≠ .asleep)
    (hnot : ¬ s.Overlooked) : s.Inv :=
  ⟨fun i count hpc => absurd hpc (htest i count), fun hpc => absurd hpc hasleep, .inr hnot⟩

theorem Inv.of_started (h : s.Started) : s.Inv := by
  obtain ⟨hpc, -, -⟩ := h
  refine .of_pc (fun i count => ?_) ?_ ?_
  · simp [hpc]
  · simp [hpc]
  · simp [Overlooked, hpc]

theorem activatedBelow_succ (i : ℕ) :
    s.activatedBelow (i + 1) = s.activatedBelow i + if s.activated i then 1 else 0 := by
  simp [activatedBelow, List.range_succ, List.countP_append, List.countP_singleton]

/-- A test that was up to date and failed tells that the condition does not hold. -/
theorem not_condition {count : ℕ} (hcount : count = s.activatedBelow s.wait.numEvents)
    (hzero : s.wait.all = false → count = 0) (hne : count ≠ s.wait.numEvents) : ¬ s.Condition := by
  unfold Condition
  cases hall : s.wait.all with
  | true =>
    intro hcond
    refine hne ?_
    rw [hcount, activatedBelow, List.countP_eq_length.mpr, List.length_range]
    intro i hi
    exact hcond i (List.mem_range.mp hi)
  | false =>
    rw [hzero hall] at hcount hne
    rintro (⟨i, hi, hact⟩ | hnone)
    · have hnot := List.countP_eq_zero.mp hcount.symm i (List.mem_range.mpr hi)
      exact hnot hact
    · exact hne hnone.symm

/-- A round of the test keeps what was overlooked and what was not. -/
theorem Inv.testEvent {i count : ℕ} (h : s.Inv) (hpc : s.pc = .test i count) :
    Inv { s with pc := s.testEvent i count } := by
  obtain ⟨hi, hzero⟩ := h.test i count hpc
  have hfresh : s.WakePending ∨ count = s.activatedBelow i := by
    refine h.fresh.imp_right fun hnot => ?_
    simpa [Overlooked, hpc] using hnot
  unfold WakeState.testEvent
  split_ifs with hlt hact hall hend
  · refine ⟨fun j c hj => ?_, fun hj => (by cases hj), hfresh.imp_right fun hcount hover => ?_⟩
    · cases hj
      exact ⟨hlt, fun hfalse => by simp [hall] at hfalse⟩
    · refine hover ?_
      change count + 1 = s.activatedBelow (i + 1)
      rw [activatedBelow_succ, if_pos hact, hcount]
  · exact .of_pc (by simp) (by simp) id
  · refine ⟨fun j c hj => ?_, fun hj => (by cases hj), hfresh.imp_right fun hcount hover => ?_⟩
    · cases hj
      exact ⟨hlt, hzero⟩
    · refine hover ?_
      change count = s.activatedBelow (i + 1)
      rw [activatedBelow_succ, if_neg hact, hcount]
      rfl
  · exact .of_pc (by simp) (by simp) id
  · refine ⟨fun j c hj => (by cases hj), fun hj => (by cases hj), hfresh.imp_right fun hcount => ?_⟩
    obtain rfl : i = s.wait.numEvents := by omega
    exact not_condition hcount hzero hend

/-- The steps of the waiting thread. -/
theorem Inv.waiterStep (h : s.Inv) (hstep : s.waiterStep = some t) : t.Inv := by
  unfold WakeState.waiterStep at hstep
  split at hstep
  · next hpc =>
    cases hstep
    split_ifs
    · exact .of_pc (by simp) (by simp) id
    · refine ⟨fun j c hj => ?_, fun hj => (by cases hj), .inr fun hover => hover rfl⟩
      cases hj
      exact ⟨Nat.zero_le _, fun _ => rfl⟩
  · next i count hpc =>
    cases hstep
    exact h.testEvent hpc
  · next hpc =>
    -- what was tested is what the thread goes to sleep with
    have hfresh : s.WakePending ∨ ¬ s.Condition := by
      refine h.fresh.imp_right fun hnot => ?_
      simpa [Overlooked, hpc] using hnot
    split_ifs at hstep
    · cases hstep
      exact .of_pc (by simp) (by simp) id
    · cases hstep
      exact ⟨fun j c hj => (by cases hj), fun hj => (by cases hj),
        hfresh.imp_right fun hnot hover => hnot hover.2⟩
  · next hpc =>
    split_ifs at hstep with hsleep
    · cases hstep
      refine ⟨fun j c hj => (by cases hj), fun _ => hsleep.1,
        h.fresh.imp_right fun hnot hcond => ?_⟩
      refine hnot ?_
      simp only [Overlooked, hpc]
      exact ⟨hsleep.1, hcond⟩
    · cases hstep
      exact .of_pc (by simp) (by simp) id
  · cases hstep
  · split_ifs at hstep
    cases hstep
    exact .of_pc (by simp) (by simp) id
  · cases hstep

theorem wakeUpProcess_frame (s : WakeState) : s.wakeUpProcess.wait = s.wait ∧
    s.wakeUpProcess.activated = s.activated ∧ s.wakeUpProcess.setter = s.setter := by
  unfold WakeState.wakeUpProcess
  split <;> exact ⟨rfl, rfl, rfl⟩

/-- **After `wake_up_process`** the thread is not asleep, and has overlooked only what it overlooked
while it tested. -/
theorem Inv.woken (h : s.Inv) (hpc : t.pc = s.wakeUpProcess.pc)
    (htask : t.task = s.wakeUpProcess.task) (hwait : t.wait = s.wait)
    (hact : t.activated = s.activated)
    (hfresh : t.WakePending ∨ (s.Testing → ¬ s.Overlooked)) : t.Inv := by
  have hcond : t.Condition ↔ s.Condition := by
    unfold Condition
    rw [hwait, hact]
  have hbelow : ∀ i, t.activatedBelow i = s.activatedBelow i := by
    intro i
    unfold activatedBelow
    rw [hact]
  have hrun : t.task = .running := by
    rw [htask]
    unfold WakeState.wakeUpProcess
    split
    · assumption
    · rfl
    · rfl
  -- where the thread is now, it was before, except that it does not sleep
  have hsame : t.pc = s.pc ∨ t.pc = .check := by
    rw [hpc]
    unfold WakeState.wakeUpProcess
    split
    · exact .inl rfl
    · exact .inr rfl
    · exact .inl rfl
  have hawake : t.pc ≠ .asleep := by
    intro hasleep
    obtain hsame | hcheck := hsame
    · have hspc : s.pc = .asleep := by rw [← hsame, hasleep]
      rw [hpc] at hasleep
      simp [WakeState.wakeUpProcess, hspc, h.asleep hspc] at hasleep
    · rw [hcheck] at hasleep
      cases hasleep
  refine ⟨fun i count htest => ?_, fun hasleep => absurd hasleep hawake,
    hfresh.imp_right fun htesting hover => ?_⟩
  · obtain hsame | hcheck := hsame
    · rw [hwait]
      exact h.test i count (by rw [← hsame, htest])
    · rw [hcheck] at htest
      cases htest
  · obtain hsame | hcheck := hsame
    · cases hspc : s.pc with
      | test i count =>
        refine htesting (.inl ⟨i, count, hspc⟩) ?_
        simpa only [Overlooked, hsame, hspc, hbelow] using hover
      | tested =>
        refine htesting (.inr hspc) ?_
        simpa only [Overlooked, hsame, hspc, hcond] using hover
      | schedule => simp [Overlooked, hsame, hspc, hrun] at hover
      | asleep => exact hawake (hsame.trans hspc)
      | check | left | freed => simp [Overlooked, hsame, hspc] at hover
    · simp [Overlooked, hcheck] at hover

/-- Nothing that the thread looks at changes, and a wake-up is pending if one was. -/
theorem Inv.frame (h : s.Inv) (hpc : t.pc = s.pc) (htask : t.task = s.task)
    (hwait : t.wait = s.wait) (hfresh : t.WakePending ∨
      t.activated = s.activated ∧ ¬ s.WakePending) : t.Inv := by
  refine ⟨fun i count htest => ?_, fun hasleep => ?_, ?_⟩
  · rw [hwait]
    exact h.test i count (hpc ▸ htest)
  · rw [htask]
    exact h.asleep (hpc ▸ hasleep)
  · refine hfresh.imp_right ?_
    rintro ⟨hact, hnot⟩
    have hold := h.fresh.resolve_left hnot
    unfold Overlooked Condition activatedBelow at hold ⊢
    rwa [hpc, htask, hwait, hact]

/-- **The steps of `set_event`.** -/
theorem Inv.setterStep (h : s.Inv) (hcareful : s.Careful .setter)
    (hstep : s.setterStep = some t) : t.Inv := by
  unfold WakeState.setterStep at hstep
  split at hstep
  · cases hstep
  · next id stage hset =>
    cases hstep
    refine h.frame rfl rfl rfl (.inr ⟨rfl, ?_⟩)
    rintro ⟨ev, hev, htodo⟩
    rw [hset] at hev
    cases hev
    exact htodo rfl
  · cases hstep
    exact h.frame rfl rfl rfl (.inl ⟨_, rfl, List.cons_ne_nil _ _⟩)
  · cases hstep
    exact h.frame rfl rfl rfl (.inl ⟨_, rfl, List.cons_ne_nil _ _⟩)
  · next id i todo hset =>
    cases hstep
    exact h.woken rfl rfl s.wakeUpProcess_frame.1 s.wakeUpProcess_frame.2.1
      (.inr (hcareful id _ hset))

/-- A signal or the end of the timeout wakes the thread as well. -/
theorem Inv.wakeUp (h : s.Inv) (hpc : t.pc = s.wakeUpProcess.pc)
    (htask : t.task = s.wakeUpProcess.task) (hwait : t.wait = s.wakeUpProcess.wait)
    (hact : t.activated = s.wakeUpProcess.activated)
    (hsetter : t.setter = s.wakeUpProcess.setter) : t.Inv := by
  obtain ⟨hwait', hact', hsetter'⟩ := s.wakeUpProcess_frame
  refine h.woken hpc htask (hwait.trans hwait') (hact.trans hact') ?_
  rcases h.fresh with hpending | hnot
  · left
    unfold WakePending
    rwa [hsetter, hsetter']
  · exact .inr fun _ => hnot

/-- **Every step keeps the invariant.** -/
theorem Inv.step {op : WakeOp} (h : s.Inv) (hcareful : s.Careful op)
    (hstep : s.step op = some t) : t.Inv := by
  cases op with
  | waiter => exact h.waiterStep hstep
  | set id =>
    rw [WakeState.step] at hstep
    split_ifs at hstep with hnone
    cases hstep
    refine h.frame rfl rfl rfl (.inr ⟨rfl, ?_⟩)
    rintro ⟨ev, hev, -⟩
    simp [hev] at hnone
  | setter => exact h.setterStep hcareful hstep
  | signal =>
    cases hstep
    exact h.wakeUp rfl rfl rfl rfl rfl
  | timer =>
    rw [WakeState.step] at hstep
    split at hstep
    · cases hstep
      exact h.wakeUp rfl rfl rfl rfl rfl
    · cases hstep
      exact h.wakeUp rfl rfl rfl rfl rfl
    · cases hstep

end WakeState

/-- **Nobody is lost.** In every run in which no `wake_up_process` is called while the waiting
thread tests its condition, or has tested it and not yet changed its task state, and has overlooked
a waiter, the thread never sleeps with its condition true and no wake-up pending. -/
theorem wait_not_lost {s₀ s : WakeState} {ops : List WakeOp} (hstart : s₀.Started)
    (hrun : Run (Guarded (fun s op t => s.step op = some t) WakeState.Careful) s₀ ops s) :
    ¬ s.Lost := by
  have hinv : s.Inv := hrun.invariant WakeState.Inv
    (fun _ _ _ h hstep => h.step hstep.2 hstep.1) (.of_started hstart)
  rintro ⟨hasleep, hcond, hnone⟩
  refine hinv.fresh.resolve_left hnone ?_
  simpa only [WakeState.Overlooked, hasleep] using hcond

/-- A thread that waits for one event without a timeout. -/
def waitForever : WakeState where
  wait := ⟨true, 1⟩
  infinite := true
  expired := false
  signalPending := false
  pc := .check
  task := .running
  activated := fun _ => false
  signaled := fun _ => false
  autoReset := fun _ => true
  waiters := fun id => if id = 0 then [0] else []
  setter := none

/-- The event is set while the thread sleeps. -/
theorem wait_not_lost_asleep : ∃ s, waitForever.Started ∧ s.pc = .asleep ∧
    Run (Guarded (fun s op t => s.step op = some t) WakeState.Careful) waitForever
      [.waiter, .waiter, .waiter, .waiter, .waiter, .set 0] s ∧ ¬ s.Lost := by
  have heval : ([.waiter, .waiter, .waiter, .waiter, .waiter, .set 0].foldlM WakeState.step
      waitForever).map (·.pc) = some .asleep := by decide
  obtain ⟨s, hs, hasleep⟩ := Option.map_eq_some_iff.mp heval
  have hrun : Run (Guarded (fun s op t => s.step op = some t) WakeState.Careful) waitForever
      [.waiter, .waiter, .waiter, .waiter, .waiter, .set 0] s := by
    refine .of_foldlM (fun op hop s => ?_) hs
    cases op with
    | setter => simp at hop
    | _ => trivial
  exact ⟨s, ⟨rfl, rfl, rfl⟩, hasleep, hrun, wait_not_lost ⟨rfl, rfl, rfl⟩ hrun⟩

/-- The event is set after the thread has tested its condition. -/
def setAfterTest : List WakeOp :=
  [.waiter, .waiter, .waiter, .set 0, .setter, .setter, .setter, .setter, .waiter, .waiter]

/-- **A lost wake-up.** The thread has tested its condition; then the event is set, and
`wake_up_process` finds a task that is running. The thread goes to sleep, and nobody wakes it. -/
theorem wait_lost : ∃ s, waitForever.Started ∧
    Run (fun s op t => s.step op = some t) waitForever setAfterTest s ∧ s.Lost := by
  have heval : (setAfterTest.foldlM WakeState.step waitForever).map (fun s =>
      (s.pc, s.wait.all, s.wait.numEvents, s.activated 0, s.setter.isNone)) =
      some (.asleep, true, 1, true, true) := by decide
  obtain ⟨s, hrun, hend⟩ := Run.exists_of_eval heval
  simp only [Prod.mk.injEq] at hend
  obtain ⟨hasleep, hall, hnum, hact, hnone⟩ := hend
  refine ⟨s, ⟨rfl, rfl, rfl⟩, hrun, hasleep, ?_, ?_⟩
  · rw [WakeState.Condition, if_pos hall, hnum]
    intro i hi
    obtain rfl : i = 0 := Nat.lt_one_iff.mp hi
    exact hact
  · rintro ⟨ev, hev, -⟩
    simp [hev] at hnone

end Amdkfd
