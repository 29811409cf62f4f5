import AmdgpuPro.Kernel
import AmdgpuPro.Lib.Transition
import Mathlib.Tactic

set_option autoImplicit false

/-!
# Events of a process

A thread waits for events by queueing one waiter on each of them. `set_event` activates all
waiters that are queued on the event and takes them off the queue; an auto-reset event is left
signaled only if nobody was queued. A waiter that is queued on a signaled auto-reset event takes
the signal: it is activated at once, and the event is no longer signaled.

## Main definitions

* `Amdkfd.KfdEvent`, `KfdEventWaiter`, `EventState` — events, waiters, and the state of a process.
* `EventState.step` — one critical section of `event_mutex`.
* `EventState.SignalKept` — a call of `set_event` activates a waiter that was not activated, or
  leaves the event signaled until the signal is consumed.
* `EventState.WaiterLeft` — nobody is queued on the event, or somebody who did not take a signal.

## Main results

* `Amdkfd.EventState.Inv.step` — what is true of queued waiters in every state.
* `signalKept_iff` — a signal is kept exactly if a waiter is left for it.
* `signal_absorbed` — a waiter that took a signal stays queued, and absorbs the next one.

## Design

Everything happens under `event_mutex`, so a call is one step, except that a waiting thread leaves
its queues in a step of its own, at any time after it entered them. A waiter is named by the
thread and its index in the call. That a waiter took a signal when it was queued is remembered in
`tookSignal`, which the code does not have.
-/

namespace Amdkfd

open Amdgpu (Errno)
open Transition

/-! ## The state -/

/-- The types of events, `KFD_EVENT_TYPE_*`. -/
inductive KfdEventType
  | signal
  | hwException
  | debug
  | memory
  | other (type : ℕ)
  deriving DecidableEq

/-- The waiter of a thread for the event with an index in its call. -/
structure WaiterId where
  thread : ℕ
  index : ℕ
  deriving DecidableEq

/-- `struct kfd_event` -/
structure KfdEvent where
  type : KfdEventType
  autoReset : Bool
  signaled : Bool
  waiters : List WaiterId

/-- `struct kfd_event_waiter` -/
structure KfdEventWaiter where
  event : ℕ
  activated : Bool
  /-- the event was signaled when the waiter was queued on it -/
  tookSignal : Bool

/-- A call of `kfd_wait_on_events` that waits. -/
structure EventWait where
  all : Bool
  numEvents : ℕ

/-- The events of a process, its waiters, and the calls that wait. -/
structure EventState where
  events : ℕ → Option KfdEvent
  waiters : WaiterId → KfdEventWaiter
  waits : ℕ → Option EventWait

/-- `event_can_be_gpu_signaled` -/
def KfdEvent.canBeGpuSignaled (ev : KfdEvent) : Bool := ev.type = .signal || ev.type = .debug

/-- `event_can_be_cpu_signaled` -/
def KfdEvent.canBeCpuSignaled (ev : KfdEvent) : Bool := ev.type = .signal

namespace EventState

/-- `kfd_event_init_process` -/
def init : EventState where
  events := fun _ => none
  waiters := fun _ => ⟨0, false, false⟩
  waits := fun _ => none

/-- The event `id` is there and signaled. -/
def Signaled (s : EventState) (id : ℕ) : Prop := ∃ ev, s.events id = some ev ∧ ev.signaled = true

/-! ## The calls -/

/-- `set_event` -/
def setEvent (s : EventState) (id : ℕ) (ev : KfdEvent) : EventState :=
  { s with
    events := Function.update s.events id
      (some { ev with signaled := !ev.autoReset || ev.waiters.isEmpty, waiters := [] })
    waiters := fun w =>
      if w ∈ ev.waiters then { s.waiters w with activated := true } else s.waiters w }

/-- `reset_event` -/
def resetEvent (s : EventState) (id : ℕ) (ev : KfdEvent) : EventState :=
  { s with events := Function.update s.events id (some { ev with signaled := false }) }

/-- `init_event_waiter`, for an event that was found. -/
def initEventWaiter (s : EventState) (w : WaiterId) (id : ℕ) (ev : KfdEvent) : EventState :=
  { s with
    waiters := Function.update s.waiters w ⟨id, ev.signaled, ev.signaled⟩
    events := Function.update s.events id
      (some { ev with signaled := ev.signaled && !ev.autoReset, waiters := w :: ev.waiters }) }

/-- `free_waiters`, for the waiters of a thread. -/
def freeWaiters (s : EventState) (t : ℕ) : EventState :=
  { s with
    events := fun id => (s.events id).map fun ev =>
      { ev with waiters := ev.waiters.filter fun w => w.thread ≠ t } }

/-- The loop of `kfd_wait_on_events` that queues the waiters from index `i` on; an identifier that
cannot be copied from the user is `none`. The result tells whether all of them are queued. -/
def initEventWaiters (s : EventState) (t : ℕ) : ℕ → List (Option ℕ) → EventState × Bool
  | _, [] => (s, true)
  | _, none :: _ => (s, false)
  | i, some id :: ids =>
    match s.events id with
    | none => (s, false)
    | some ev => initEventWaiters (s.initEventWaiter ⟨t, i⟩ id ev) t (i + 1) ids

/-- `test_event_condition` -/
def testEventCondition (s : EventState) (t : ℕ) (wait : EventWait) : Bool :=
  if wait.all then (List.range wait.numEvents).all fun i => (s.waiters ⟨t, i⟩).activated
  else (List.range wait.numEvents).any (fun i => (s.waiters ⟨t, i⟩).activated) ||
    wait.numEvents = 0

end EventState

/-- Why a thread stops waiting. -/
inductive WaitEnd
  | complete
  | timeout
  | interrupted
  deriving DecidableEq

/-- The critical sections of `event_mutex`. -/
inductive EventOp
  /-- `kfd_event_create`, which chose the identifier `id` -/
  | create (id : ℕ) (type : KfdEventType) (autoReset : Bool)
  /-- `kfd_event_destroy` -/
  | destroy (id : ℕ)
  /-- `kfd_set_event` -/
  | set (id : ℕ)
  /-- `set_event_from_interrupt` -/
  | interrupt (id : ℕ)
  /-- `lookup_events_by_type_and_signal`, when it comes to the event `id` -/
  | exception (id : ℕ) (type : KfdEventType)
  /-- `kfd_reset_event` -/
  | reset (id : ℕ)
  /-- the first critical section of `kfd_wait_on_events` -/
  | wait (t : ℕ) (all : Bool) (ids : List (Option ℕ))
  /-- the last one -/
  | leave (t : ℕ) (how : WaitEnd)

namespace EventState

/-- The event that an operation calls `set_event` for. -/
def setBy (s : EventState) : EventOp → Option (ℕ × KfdEvent)
  | .set id => ((s.events id).filter (·.canBeCpuSignaled)).map (id, ·)
  | .interrupt id => ((s.events id).filter (·.canBeGpuSignaled)).map (id, ·)
  | .exception id type => ((s.events id).filter (·.type = type)).map (id, ·)
  | _ => none

/-- The first critical section of `kfd_wait_on_events`. -/
def waitOnEvents (s : EventState) (t : ℕ) (all : Bool) (ids : List (Option ℕ)) : EventState :=
  let r := s.initEventWaiters t 0 ids
  if r.2 then { r.1 with waits := Function.update s.waits t (some ⟨all, ids.length⟩) }
  else r.1.freeWaiters t

/-- One critical section, if it is possible. A call that fails changes nothing. -/
def step (s : EventState) : EventOp → Option EventState
  | .create id type autoReset =>
    if (s.events id).isSome then none
    else some { s with events := Function.update s.events id (some ⟨type, autoReset, false, []⟩) }
  | .destroy id => some { s with events := Function.update s.events id none }
  | .reset id =>
    match s.events id with
    | none => some s
    | some ev => some (if ev.canBeCpuSignaled then s.resetEvent id ev else s)
  | .wait t all ids => if (s.waits t).isSome then none else some (s.waitOnEvents t all ids)
  | .leave t how =>
    match s.waits t, how with
    | none, _ => none
    | some wait, .complete =>
      if s.testEventCondition t wait then
        some { s.freeWaiters t with waits := Function.update s.waits t none }
      else none
    | some _, _ => some { s.freeWaiters t with waits := Function.update s.waits t none }
  | op =>
    match s.setBy op with
    | some (id, ev) => some (s.setEvent id ev)
    | none => some s

end EventState

/-! ## What should hold -/

/-- The operations that can consume a signal of the event `id`: waiting for it, resetting it, and
destroying it. -/
def EventOp.Consumes (id : ℕ) : EventOp → Prop
  | .wait _ _ ids => some id ∈ ids
  | .reset id' => id' = id
  | .destroy id' => id' = id
  | _ => False

namespace EventState

/-- The signal that `set_event` is called with reaches a waiter that was not activated, or the
event is signaled afterwards and stays so until the signal is consumed. -/
def SignalKept (s : EventState) (id : ℕ) (ev : KfdEvent) : Prop :=
  (∃ w ∈ ev.waiters, (s.waiters w).activated = false ∧
      ((s.setEvent id ev).waiters w).activated = true) ∨
    ((s.setEvent id ev).Signaled id ∧
      ∀ ops t op u, Run (fun s op t => s.step op = some t) (s.setEvent id ev) ops t →
        t.step op = some u → t.Signaled id → ¬ u.Signaled id → op.Consumes id)

/-- Nobody is queued on the event, or somebody is who did not take a signal when they were
queued. -/
def WaiterLeft (s : EventState) (ev : KfdEvent) : Prop :=
  ev.waiters = [] ∨ ∃ w ∈ ev.waiters, (s.waiters w).tookSignal = false

/-! ## The invariant -/

theorem update_eq_some {ι α : Type*} [DecidableEq ι] {f : ι → Option α} {i j : ι} {new : Option α}
    {x : α} (h : Function.update f i new j = some x) :
    (j = i ∧ new = some x) ∨ (j ≠ i ∧ f j = some x) := by
  by_cases hj : j = i
  · subst hj
    rw [Function.update_self] at h
    exact .inl ⟨rfl, h⟩
  · rw [Function.update_of_ne hj] at h
    exact .inr ⟨hj, h⟩

/-- The queues are in order: every queued waiter is one of `live` and waits for the event it is
queued on, it is activated only if it took a signal, and nobody is queued on a signaled auto-reset
event. -/
structure QueuesOk (live : WaiterId → Prop) (s : EventState) : Prop where
  live : ∀ {id ev w}, s.events id = some ev → w ∈ ev.waiters → live w
  event : ∀ {id ev w}, s.events id = some ev → w ∈ ev.waiters → (s.waiters w).event = id
  activated : ∀ {id ev w}, s.events id = some ev → w ∈ ev.waiters →
    (s.waiters w).activated = (s.waiters w).tookSignal
  empty : ∀ {id ev}, s.events id = some ev → ev.autoReset = true → ev.signaled = true →
    ev.waiters = []

namespace QueuesOk

variable {live : WaiterId → Prop} {s : EventState}

/-- An event is replaced by one whose waiters were queued on the old one. -/
theorem updateEvent (h : s.QueuesOk live) {id : ℕ} {ev ev' : KfdEvent} (hev : s.events id = some ev)
    (hsub : ∀ w ∈ ev'.waiters, w ∈ ev.waiters)
    (hempty : ev'.autoReset = true → ev'.signaled = true → ev'.waiters = []) :
    QueuesOk live { s with events := Function.update s.events id (some ev') } := by
  -- the waiters of every event were queued on the event of the same identifier before
  have hold : ∀ {id' e w}, Function.update s.events id (some ev') id' = some e →
      w ∈ e.waiters → ∃ e', s.events id' = some e' ∧ w ∈ e'.waiters := by
    intro id' e w hlookup hw
    obtain ⟨rfl, hnew⟩ | ⟨-, hlookup⟩ := update_eq_some hlookup
    · cases hnew
      exact ⟨ev, hev, hsub w hw⟩
    · exact ⟨e, hlookup, hw⟩
  refine ⟨fun hl hw => ?_, fun hl hw => ?_, fun hl hw => ?_, fun hl hauto hsig => ?_⟩
  · obtain ⟨e, he, hwe⟩ := hold hl hw
    exact h.live he hwe
  · obtain ⟨e, he, hwe⟩ := hold hl hw
    exact h.event he hwe
  · obtain ⟨e, he, hwe⟩ := hold hl hw
    exact h.activated he hwe
  · obtain ⟨rfl, hnew⟩ | ⟨-, hl⟩ := update_eq_some hl
    · cases hnew
      exact hempty hauto hsig
    · exact h.empty hl hauto hsig

/-- An event without waiters is created, or an event is removed. -/
theorem updateEmpty (h : s.QueuesOk live) (id : ℕ) {new : Option KfdEvent}
    (hnew : ∀ ev, new = some ev → ev.waiters = []) :
    QueuesOk live { s with events := Function.update s.events id new } := by
  have hold : ∀ {id' ev}, Function.update s.events id new id' = some ev →
      ev.waiters = [] ∨ s.events id' = some ev := by
    intro id' ev hlookup
    obtain ⟨-, heq⟩ | ⟨-, hlookup⟩ := update_eq_some hlookup
    · exact .inl (hnew ev heq)
    · exact .inr hlookup
  refine ⟨fun hl hw => ?_, fun hl hw => ?_, fun hl hw => ?_, fun hl hauto hsig => ?_⟩
  · rcases hold hl with hnil | he
    · simp [hnil] at hw
    · exact h.live he hw
  · rcases hold hl with hnil | he
    · simp [hnil] at hw
    · exact h.event he hw
  · rcases hold hl with hnil | he
    · simp [hnil] at hw
    · exact h.activated he hw
  · rcases hold hl with hnil | he
    · exact hnil
    · exact h.empty he hauto hsig

/-- `set_event` takes all waiters off the queue, so that it activates no waiter that is still
queued. -/
theorem setEvent (h : s.QueuesOk live) {id : ℕ} {ev : KfdEvent} (hev : s.events id = some ev) :
    QueuesOk live (s.setEvent id ev) := by
  have hupd : QueuesOk live { s with events := (s.setEvent id ev).events } :=
    h.updateEvent hev (fun w hw => by simp at hw) (fun _ _ => rfl)
  have hother : ∀ {id' ev' w}, (s.setEvent id ev).events id' = some ev' → w ∈ ev'.waiters →
      (s.setEvent id ev).waiters w = s.waiters w := by
    intro id' ev' w hlookup hw
    have hid : (s.waiters w).event = id' := hupd.event hlookup hw
    refine if_neg fun hwev => ?_
    obtain rfl : id = id' := (h.event hev hwev).symm.trans hid
    simp only [EventState.setEvent, Function.update_self] at hlookup
    cases hlookup
    simp at hw
  refine ⟨fun hl hw => hupd.live hl hw, fun hl hw => ?_, fun hl hw => ?_, fun hl => hupd.empty hl⟩
  · rw [hother hl hw]
    exact hupd.event hl hw
  · rw [hother hl hw]
    exact hupd.activated hl hw

/-- A new waiter is queued. -/
theorem initEventWaiter (h : s.QueuesOk live) {w : WaiterId} (hw : ¬ live w) {id : ℕ}
    {ev : KfdEvent} (hev : s.events id = some ev) :
    QueuesOk (fun w' => live w' ∨ w' = w) (s.initEventWaiter w id ev) := by
  have hne : ∀ {id' ev' w'}, s.events id' = some ev' → w' ∈ ev'.waiters → w' ≠ w := by
    rintro id' ev' w' hl hw' rfl
    exact hw (h.live hl hw')
  -- a queued waiter is the new one, or was queued on the event before
  have hold : ∀ {id' ev' w'}, (s.initEventWaiter w id ev).events id' = some ev' →
      w' ∈ ev'.waiters →
      (w' = w ∧ id' = id) ∨ ∃ e, s.events id' = some e ∧ w' ∈ e.waiters := by
    intro id' ev' w' hlookup hw'
    obtain ⟨rfl, hnew⟩ | ⟨-, hlookup⟩ := update_eq_some hlookup
    · cases hnew
      rcases List.mem_cons.mp hw' with rfl | hw'
      · exact .inl ⟨rfl, rfl⟩
      · exact .inr ⟨ev, hev, hw'⟩
    · exact .inr ⟨ev', hlookup, hw'⟩
  have hwaiter : ∀ {w'}, w' ≠ w → (s.initEventWaiter w id ev).waiters w' = s.waiters w' :=
    fun hw' => Function.update_of_ne hw' _ _
  have hnew : (s.initEventWaiter w id ev).waiters w = ⟨id, ev.signaled, ev.signaled⟩ :=
    Function.update_self _ _ _
  refine ⟨fun hl hw' => ?_, fun hl hw' => ?_, fun hl hw' => ?_, fun hl hauto hsig => ?_⟩
  · obtain ⟨rfl, -⟩ | ⟨e, he, hwe⟩ := hold hl hw'
    · exact .inr rfl
    · exact .inl (h.live he hwe)
  · obtain ⟨rfl, rfl⟩ | ⟨e, he, hwe⟩ := hold hl hw'
    · rw [hnew]
    · rw [hwaiter (hne he hwe)]
      exact h.event he hwe
  · obtain ⟨rfl, rfl⟩ | ⟨e, he, hwe⟩ := hold hl hw'
    · rw [hnew]
    · rw [hwaiter (hne he hwe)]
      exact h.activated he hwe
  · obtain ⟨rfl, hupd⟩ | ⟨-, hl⟩ := update_eq_some hl
    · -- the waiter took the signal of the event
      cases hupd
      simp [show ev.autoReset = true from hauto] at hsig
    · exact h.empty hl hauto hsig

/-- The waiters of a thread are taken off their queues. -/
theorem freeWaiters (h : s.QueuesOk live) (t : ℕ) :
    QueuesOk (fun w => live w ∧ w.thread ≠ t) (s.freeWaiters t) := by
  have hold : ∀ {id ev}, (s.freeWaiters t).events id = some ev →
      ∃ e, s.events id = some e ∧ ev.autoReset = e.autoReset ∧ ev.signaled = e.signaled ∧
        ev.waiters = e.waiters.filter fun w => w.thread ≠ t := by
    intro id ev hlookup
    obtain ⟨e, he, rfl⟩ := Option.map_eq_some_iff.mp hlookup
    exact ⟨e, he, rfl, rfl, rfl⟩
  refine ⟨fun hl hw => ?_, fun hl hw => ?_, fun hl hw => ?_, fun hl hauto hsig => ?_⟩
  · obtain ⟨e, he, -, -, heq⟩ := hold hl
    rw [heq, List.mem_filter] at hw
    exact ⟨h.live he hw.1, by simpa using hw.2⟩
  · obtain ⟨e, he, -, -, heq⟩ := hold hl
    rw [heq, List.mem_filter] at hw
    exact h.event he hw.1
  · obtain ⟨e, he, -, -, heq⟩ := hold hl
    rw [heq, List.mem_filter] at hw
    exact h.activated he hw.1
  · obtain ⟨e, he, hauto', hsig', heq⟩ := hold hl
    rw [heq, h.empty he (hauto' ▸ hauto) (hsig' ▸ hsig), List.filter_nil]

theorem mono {live' : WaiterId → Prop} (h : s.QueuesOk live) (hle : ∀ w, live w → live' w) :
    s.QueuesOk live' :=
  ⟨fun hl hw => hle _ (h.live hl hw), h.event, h.activated, h.empty⟩

/-- The waiters of a call are queued one after the other. -/
theorem initEventWaiters {t i : ℕ} {ids : List (Option ℕ)} (h : s.QueuesOk live)
    (hfresh : ∀ j, i ≤ j → ¬ live ⟨t, j⟩) :
    QueuesOk (fun w => live w ∨ w.thread = t) (s.initEventWaiters t i ids).1 := by
  induction ids generalizing s live i with
  | nil => exact h.mono fun w hw => .inl hw
  | cons id ids ih =>
    rcases id with _ | id
    · exact h.mono fun w hw => .inl hw
    rw [EventState.initEventWaiters]
    cases hev : s.events id with
    | none => exact h.mono fun w hw => .inl hw
    | some ev =>
      refine (ih (h.initEventWaiter (hfresh i le_rfl) hev) ?_).mono ?_
      · rintro j hj (hlive | heq)
        · exact hfresh j (by omega) hlive
        · have : j = i := congrArg WaiterId.index heq
          omega
      · rintro w ((hlive | rfl) | hthread)
        · exact .inl hlive
        · exact .inr rfl
        · exact .inr hthread

end QueuesOk

/-- The invariant: the queues are in order, and only threads that wait are queued. -/
def Inv (s : EventState) : Prop := s.QueuesOk fun w => (s.waits w.thread).isSome = true

theorem Inv.init : init.Inv :=
  ⟨fun hl => by simp [EventState.init] at hl, fun hl => by simp [EventState.init] at hl,
    fun hl => by simp [EventState.init] at hl, fun hl => by simp [EventState.init] at hl⟩

section Steps

variable {s t : EventState} {op : EventOp}

/-- The event that an operation sets is there. -/
theorem events_of_setBy {id : ℕ} {ev : KfdEvent} (h : s.setBy op = some (id, ev)) :
    s.events id = some ev := by
  cases op with
  | set _ | interrupt _ | exception _ _ =>
    obtain ⟨e, he, heq⟩ := Option.map_eq_some_iff.mp h
    cases heq
    exact (Option.filter_eq_some_iff.mp he).1
  | create _ _ _ | destroy _ | reset _ | wait _ _ _ | leave _ _ => cases h

/-- Queueing waiters changes only the events they are queued on. -/
theorem initEventWaiters_frame {thread i : ℕ} {ids : List (Option ℕ)} :
    (s.initEventWaiters thread i ids).1.waits = s.waits ∧
      ∀ id, some id ∉ ids → (s.initEventWaiters thread i ids).1.events id = s.events id := by
  induction ids generalizing s i with
  | nil => exact ⟨rfl, fun _ _ => rfl⟩
  | cons id' ids ih =>
    rcases id' with _ | id'
    · exact ⟨rfl, fun _ _ => rfl⟩
    rw [EventState.initEventWaiters]
    cases hev : s.events id' with
    | none => exact ⟨rfl, fun _ _ => rfl⟩
    | some ev =>
      refine ⟨ih.1, fun id hid => ?_⟩
      rw [List.mem_cons, not_or] at hid
      rw [ih.2 id hid.2]
      exact Function.update_of_ne (fun heq => hid.1 (by rw [heq])) _ _

/-- The thread is not waiting any more once its waiters are off their queues. -/
theorem QueuesOk.leave {live : WaiterId → Prop} {thread : ℕ} (h : s.QueuesOk live)
    (hlive : ∀ w, live w → w.thread ≠ thread → (t.waits w.thread).isSome = true)
    (hevents : t.events = (s.freeWaiters thread).events) (hwaiters : t.waiters = s.waiters) :
    t.Inv := by
  have hfree := h.freeWaiters thread
  refine ⟨fun hl hw => ?_, fun hl hw => ?_, fun hl hw => ?_, fun hl => ?_⟩
  · obtain ⟨hw, hne⟩ := hfree.live (hevents ▸ hl) hw
    exact hlive _ hw hne
  · rw [hwaiters]
    exact hfree.event (hevents ▸ hl) hw
  · rw [hwaiters]
    exact hfree.activated (hevents ▸ hl) hw
  · exact hfree.empty (hevents ▸ hl)

/-- The first critical section of `kfd_wait_on_events` keeps the invariant: the thread was not
queued anywhere, so that its waiters are new. -/
theorem Inv.waitOnEvents (h : s.Inv) {thread : ℕ} (hwait : s.waits thread = none) (all : Bool)
    (ids : List (Option ℕ)) : (s.waitOnEvents thread all ids).Inv := by
  have hloop : QueuesOk _ (s.initEventWaiters thread 0 ids).1 :=
    QueuesOk.initEventWaiters h fun j _ => by simp [hwait]
  unfold EventState.waitOnEvents
  simp only
  split_ifs with hok
  · have hlive : (s.initEventWaiters thread 0 ids).1.QueuesOk fun w =>
        (Function.update s.waits thread (some ⟨all, ids.length⟩) w.thread).isSome = true := by
      refine hloop.mono fun w hw => ?_
      by_cases hw' : w.thread = thread
      · simp [hw']
      · simpa [Function.update_of_ne hw', hw'] using hw
    exact ⟨hlive.live, hlive.event, hlive.activated, hlive.empty⟩
  · refine hloop.leave (fun w hw hne => ?_) rfl rfl
    exact (congrArg (fun f => (f w.thread).isSome) initEventWaiters_frame.1).trans
      (hw.resolve_right hne)

/-- A thread that leaves keeps the invariant. -/
theorem Inv.freeWaiters (h : s.Inv) (thread : ℕ) :
    EventState.Inv { s.freeWaiters thread with waits := Function.update s.waits thread none } := by
  refine QueuesOk.leave h (fun w hw hne => ?_) rfl rfl
  exact (congrArg Option.isSome (Function.update_of_ne hne _ _)).trans hw

/-- Every step keeps the invariant. -/
theorem Inv.step (h : s.Inv) (hstep : s.step op = some t) : t.Inv := by
  cases op with
  | create id type autoReset =>
    rw [EventState.step] at hstep
    split_ifs at hstep
    cases hstep
    exact QueuesOk.updateEmpty h id fun ev hev => by cases hev; rfl
  | destroy id =>
    cases hstep
    exact QueuesOk.updateEmpty h id fun ev hev => by cases hev
  | reset id =>
    simp only [EventState.step] at hstep
    split at hstep
    · cases hstep
      exact h
    · next ev hev =>
      cases hstep
      split_ifs
      · exact QueuesOk.updateEvent h hev (fun w hw => hw) (fun _ hsig => by cases hsig)
      · exact h
  | wait thread all ids =>
    rw [EventState.step] at hstep
    split_ifs at hstep with hwait
    cases hstep
    exact h.waitOnEvents (by simpa using hwait) all ids
  | leave thread how =>
    simp only [EventState.step] at hstep
    split at hstep
    · cases hstep
    · split_ifs at hstep
      cases hstep
      exact h.freeWaiters thread
    · cases hstep
      exact h.freeWaiters thread
  | set _ | interrupt _ | exception _ _ =>
    simp only [EventState.step] at hstep
    split at hstep
    · next hset =>
      cases hstep
      exact QueuesOk.setEvent h (events_of_setBy hset)
    · cases hstep
      exact h

/-! ## Signals -/

/-- A signaled event stays signaled when waiters are taken off queues. -/
theorem Signaled.freeWaiters {id : ℕ} (h : s.Signaled id) (thread : ℕ) :
    (s.freeWaiters thread).Signaled id := by
  obtain ⟨ev, hev, hsig⟩ := h
  exact ⟨_, Option.map_eq_some_iff.mpr ⟨ev, hev, rfl⟩, hsig⟩

/-- A signaled event stays signaled when another event is replaced. -/
theorem Signaled.update {id id' : ℕ} (h : s.Signaled id) (hne : id ≠ id') (new : Option KfdEvent)
    (hevents : t.events = Function.update s.events id' new) : t.Signaled id := by
  obtain ⟨ev, hev, hsig⟩ := h
  exact ⟨ev, by rw [hevents, Function.update_of_ne hne, hev], hsig⟩

/-- A signaled event stays signaled when it or another one is set, because nobody is queued on a
signaled auto-reset event. -/
theorem Signaled.setEvent {id id' : ℕ} {ev : KfdEvent} (hinv : s.Inv) (h : s.Signaled id)
    (hev : s.events id' = some ev) : (s.setEvent id' ev).Signaled id := by
  by_cases hid : id = id'
  · subst hid
    obtain ⟨ev', hev', hsig⟩ := h
    obtain rfl : ev = ev' := Option.some.inj (hev.symm.trans hev')
    refine ⟨_, Function.update_self _ _ _, ?_⟩
    cases hauto : ev.autoReset with
    | false => rfl
    | true => simp [hinv.empty hev hauto hsig]
  · exact h.update hid _ rfl

/-- **Only waiting, resetting and destroying consume a signal.** -/
theorem consumes_of_not_signaled {id : ℕ} (hinv : s.Inv) (hstep : s.step op = some t)
    (hsig : s.Signaled id) (hnot : ¬ t.Signaled id) : op.Consumes id := by
  cases op with
  | create id' type autoReset =>
    rw [EventState.step] at hstep
    split_ifs at hstep with hnone
    cases hstep
    refine absurd (hsig.update (fun heq => ?_) _ rfl) hnot
    obtain ⟨ev, hev, -⟩ := hsig
    simp [← heq, hev] at hnone
  | destroy id' =>
    cases hstep
    by_contra hne
    exact hnot (hsig.update (fun heq => hne heq.symm) _ rfl)
  | reset id' =>
    by_contra hne
    simp only [EventState.step] at hstep
    split at hstep
    · cases hstep
      exact hnot hsig
    · cases hstep
      split_ifs at hnot
      · exact hnot (hsig.update (fun heq => hne heq.symm) _ rfl)
      · exact hnot hsig
  | wait thread all ids =>
    rw [EventState.step] at hstep
    split_ifs at hstep
    cases hstep
    by_contra hmem
    -- the event is not among those the thread waits for
    have hframe : (s.initEventWaiters thread 0 ids).1.events id = s.events id :=
      initEventWaiters_frame.2 id hmem
    have hsig' : (s.initEventWaiters thread 0 ids).1.Signaled id := by
      obtain ⟨ev, hev, hsig⟩ := hsig
      exact ⟨ev, hframe.trans hev, hsig⟩
    unfold waitOnEvents at hnot
    simp only at hnot
    split_ifs at hnot
    · exact hnot hsig'
    · exact hnot (hsig'.freeWaiters thread)
  | leave thread how =>
    simp only [EventState.step] at hstep
    split at hstep
    · cases hstep
    · split_ifs at hstep
      cases hstep
      exact absurd (hsig.freeWaiters thread) hnot
    · cases hstep
      exact absurd (hsig.freeWaiters thread) hnot
  | set _ | interrupt _ | exception _ _ =>
    simp only [EventState.step] at hstep
    split at hstep
    · next hset =>
      cases hstep
      exact absurd (Signaled.setEvent hinv hsig (events_of_setBy hset)) hnot
    · cases hstep
      exact absurd hsig hnot

end Steps

end EventState

/-! ## The signals that are kept -/

/-- **A signal is kept exactly if a waiter is left for it**: in every run, a call of `set_event` for
an auto-reset event activates a waiter that was not activated, or leaves the event signaled until
the signal is consumed, if and only if nobody is queued on the event or somebody is who did not
take a signal.

**Proof sketch.** Queued waiters are activated if and only if they took a signal. If nobody is
queued, the event is signaled afterwards, and only waiting, resetting and destroying can change
that. If all queued waiters are activated, the event is not signaled afterwards either. -/
theorem signalKept_iff {ops : List EventOp} {s : EventState}
    (hrun : Run (fun s op t => s.step op = some t) .init ops s) {op : EventOp} {id : ℕ}
    {ev : KfdEvent} (hset : s.setBy op = some (id, ev))
    (hauto : ev.autoReset = true) : s.SignalKept id ev ↔ s.WaiterLeft ev := by
  have hinv : s.Inv := hrun.invariant EventState.Inv (fun _ _ _ h => h.step) .init
  have hev := EventState.events_of_setBy hset
  have hinv' : (s.setEvent id ev).Inv := EventState.QueuesOk.setEvent hinv hev
  constructor
  · rintro (⟨w, hw, hact, -⟩ | ⟨⟨ev', hev', hsig'⟩, -⟩)
    · exact .inr ⟨w, hw, hinv.activated hev hw ▸ hact⟩
    · obtain ⟨-, hnew⟩ | ⟨hne, -⟩ := EventState.update_eq_some hev'
      swap
      · exact absurd rfl hne
      cases hnew
      simp only [hauto, Bool.not_true, Bool.false_or, List.isEmpty_iff] at hsig'
      exact .inl hsig'
  · rintro (hnil | ⟨w, hw, htook⟩)
    · refine .inr ⟨⟨_, Function.update_self _ _ _, by simp [hnil]⟩, ?_⟩
      intro ops' t op' u hrun' hstep hsig' hnot
      have ht : t.Inv := hrun'.invariant EventState.Inv (fun _ _ _ h => h.step) hinv'
      exact EventState.consumes_of_not_signaled ht hstep hsig' hnot
    · refine .inl ⟨w, hw, (hinv.activated hev hw).trans htook, ?_⟩
      simp [EventState.setEvent, hw]

/-- An auto-reset event was created. -/
def oneEvent (signaled : Bool) : EventState where
  events := Function.update EventState.init.events 0 (some ⟨.signal, true, signaled, []⟩)
  waiters := EventState.init.waiters
  waits := EventState.init.waits

/-- The event after thread `1` was queued on it. -/
def oneEventQueued : KfdEvent := ⟨.signal, true, false, [⟨1, 0⟩]⟩

/-- A thread that waits for an event that is not signaled gets the next signal. -/
theorem signalKept_iff_unsignaled :
    ((oneEvent false).waitOnEvents 1 false [some 0]).WaiterLeft oneEventQueued ∧
      (((oneEvent false).waitOnEvents 1 false [some 0]).SignalKept 0 oneEventQueued ↔
        ((oneEvent false).waitOnEvents 1 false [some 0]).WaiterLeft oneEventQueued) := by
  have hrun : Run (fun s op t => EventState.step s op = some t) .init
      [.create 0 .signal true, .wait 1 false [some 0]]
      ((oneEvent false).waitOnEvents 1 false [some 0]) :=
    .cons rfl (.cons rfl (.nil _))
  have hset : ((oneEvent false).waitOnEvents 1 false [some 0]).setBy (.set 0) =
      some (0, oneEventQueued) := rfl
  exact ⟨.inr ⟨⟨1, 0⟩, by simp [oneEventQueued], rfl⟩, signalKept_iff hrun hset rfl⟩

/-- An auto-reset event is set, and a thread waits for it. It takes the signal and stays queued
until it leaves. If the event is set again before, the signal is lost: the event is not signaled
and no other waiter is activated. -/
theorem signal_absorbed : ∃ ops s ev,
    Run (fun s op t => EventState.step s op = some t) .init ops s ∧
      s.setBy (.set 0) = some (0, ev) ∧ ev.autoReset = true ∧ ev.signaled = false ∧
      ¬ s.SignalKept 0 ev := by
  refine ⟨[.create 0 .signal true, .set 0, .wait 1 false [some 0]],
    ((oneEvent false).setEvent 0 ⟨.signal, true, false, []⟩).waitOnEvents 1 false [some 0],
    oneEventQueued, .cons rfl (.cons rfl (.cons rfl (.nil _))), rfl, rfl, rfl, ?_⟩
  rintro (⟨w, hw, hact, -⟩ | ⟨⟨ev, hev, hsig⟩, -⟩)
  · obtain rfl : w = ⟨1, 0⟩ := by simpa [oneEventQueued] using hw
    cases hact
  · cases hev
    cases hsig

end Amdkfd
