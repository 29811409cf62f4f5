import AmdgpuPro.Kfd.Events

set_option autoImplicit false

/-!
# Calls that fail to wait for events

`kfd_wait_on_events` copies the identifiers of the events from the user one after the other, and
queues a waiter on each event before it copies the next one. If an identifier cannot be copied or
is unknown, the waiters are taken off their queues again and the call returns.

## Main definitions

* `Amdkfd.EventState.kfdWaitOnEvents` — the call up to the point where it begins to wait.
* `EventState.FailsCleanly` — a failure is reported and leaves all events as they were.

## Main results

* `Amdkfd.kfdWaitOnEvents_clean_iff` — a failure is clean exactly if it is due to an unknown
  identifier and no waiter that was queued before took the signal of an auto-reset event.
* `kfdWaitOnEvents_takes_signal` — a signal that is lost by a failure.
-/

namespace Amdkfd

open Amdgpu (Errno)

/-- What the first part of `kfd_wait_on_events` comes to: the thread waits, or the call returns the
value of `ret`, which is `none` for `0`. -/
inductive WaitStart
  | waits
  | failed (ret : Option Errno)
  deriving DecidableEq

namespace EventState

/-- The value of `ret` after the loop of `kfd_wait_on_events` that queues the waiters. -/
def initEventWaitersRet (s : EventState) (t : ℕ) : ℕ → List (Option ℕ) → WaitStart
  | _, [] => .waits
  -- `copy_from_user` failed; `ret` is as `init_event_waiter` left it
  | _, none :: _ => .failed none
  | i, some id :: ids =>
    match s.events id with
    | none => .failed (some .EINVAL)
    | some ev => initEventWaitersRet (s.initEventWaiter ⟨t, i⟩ id ev) t (i + 1) ids

/-- `kfd_wait_on_events` up to the loop in which it waits. `alloc` tells whether there is memory for
the waiters. -/
def kfdWaitOnEvents (s : EventState) (t : ℕ) (alloc all : Bool) (ids : List (Option ℕ)) :
    EventState × WaitStart :=
  if alloc then (s.waitOnEvents t all ids, s.initEventWaitersRet t 0 ids)
  else (s, .failed (some .ENOMEM))

/-- A call that fails returns an error and leaves the events signaled as they were. -/
def FailsCleanly (s : EventState) (out : EventState × WaitStart) : Prop :=
  ∀ ret, out.2 = .failed ret → ret ≠ none ∧
    ∀ id, (out.1.events id).map (·.signaled) = (s.events id).map (·.signaled)

/-- The entry of the user array can be read and names an event. -/
def Known (s : EventState) (entry : Option ℕ) : Prop :=
  ∃ id ev, entry = some id ∧ s.events id = some ev

/-- The waiters for `before` were queued: the auto-reset events among them are not signaled any
more. -/
def Registered (before : List (Option ℕ)) (s s' : EventState) : Prop :=
  ∀ id, (s'.events id).map (fun ev => (ev.autoReset, ev.signaled)) =
    (s.events id).map fun ev =>
      (ev.autoReset, ev.signaled && !(ev.autoReset && decide (some id ∈ before)))

variable {s s' : EventState} {t i : ℕ} {before after ids : List (Option ℕ)} {bad : Option ℕ}

/-- The same identifiers are known after waiters were queued. -/
theorem Registered.known_iff (h : Registered before s s') (entry : Option ℕ) :
    s'.Known entry ↔ s.Known entry := by
  have hsome : ∀ id, (∃ ev, s'.events id = some ev) ↔ ∃ ev, s.events id = some ev := by
    intro id
    have := congrArg Option.isSome (h id)
    rw [Option.isSome_map, Option.isSome_map] at this
    rw [← Option.isSome_iff_exists, ← Option.isSome_iff_exists, this]
  constructor
  · rintro ⟨id, ev, rfl, hev⟩
    obtain ⟨ev', hev'⟩ := (hsome id).mp ⟨ev, hev⟩
    exact ⟨id, ev', rfl, hev'⟩
  · rintro ⟨id, ev, rfl, hev⟩
    obtain ⟨ev', hev'⟩ := (hsome id).mpr ⟨ev, hev⟩
    exact ⟨id, ev', rfl, hev'⟩

/-- The signaled state is the same if no auto-reset event was signaled. -/
theorem Registered.signaled_iff (h : Registered before s s') :
    (∀ id, (s'.events id).map (·.signaled) = (s.events id).map (·.signaled)) ↔
      ∀ id ev, some id ∈ before → s.events id = some ev →
        ¬ (ev.autoReset = true ∧ ev.signaled = true) := by
  have hsig : ∀ id, (s'.events id).map (·.signaled) = (s.events id).map fun ev =>
      ev.signaled && !(ev.autoReset && decide (some id ∈ before)) := by
    intro id
    have := congrArg (Option.map Prod.snd) (h id)
    simpa only [Option.map_map, Function.comp_def] using this
  constructor
  · rintro hall id ev hmem hev ⟨hauto, hset⟩
    have := (hsig id).symm.trans (hall id)
    simp [hev, hauto, hset, hmem] at this
  · intro hnone id
    rw [hsig id]
    cases hev : s.events id with
    | none => rfl
    | some ev =>
      have := hnone id ev
      by_cases hmem : some id ∈ before
      · have hnot := this hmem hev
        cases hset : ev.signaled <;> simp_all
      · simp [hmem]

theorem Registered.nil : Registered [] s s := by
  intro id
  simp

/-- One more waiter is queued. -/
theorem Registered.cons {id : ℕ} {ev : KfdEvent} (hev : s.events id = some ev)
    (h : Registered before (s.initEventWaiter ⟨t, i⟩ id ev) s') :
    Registered (some id :: before) s s' := by
  intro id'
  rw [h id']
  by_cases hid : id' = id
  · subst hid
    simp only [initEventWaiter, Function.update_self, hev, Option.map_some, List.mem_cons,
      true_or, decide_true]
    cases ev.autoReset <;> simp
  · simp [initEventWaiter, hid]

/-- **Queueing the first waiters**: the loop goes on with the rest in a state in which the signals
of the auto-reset events are taken. -/
theorem initEventWaiters_append (hknown : ∀ entry ∈ before, s.Known entry)
    (rest : List (Option ℕ)) :
    ∃ s' j, Registered before s s' ∧
      s.initEventWaiters t i (before ++ rest) = s'.initEventWaiters t j rest ∧
      s.initEventWaitersRet t i (before ++ rest) = s'.initEventWaitersRet t j rest := by
  induction before generalizing s i with
  | nil => exact ⟨s, i, .nil, rfl, rfl⟩
  | cons entry before ih =>
    obtain ⟨id, ev, rfl, hev⟩ := hknown entry List.mem_cons_self
    have hone : Registered [some id] s (s.initEventWaiter ⟨t, i⟩ id ev) := .cons hev .nil
    obtain ⟨s', j, hreg, hloop, hret⟩ := ih (i := i + 1) fun entry' hentry =>
      (hone.known_iff entry').mpr (hknown entry' (List.mem_cons_of_mem _ hentry))
    refine ⟨s', j, .cons hev hreg, ?_, ?_⟩
    · rw [List.cons_append, initEventWaiters, hev]
      exact hloop
    · rw [List.cons_append, initEventWaitersRet, hev]
      exact hret

/-- The entries of the user array are all good, or there is a first bad one. -/
theorem known_or_bad (s : EventState) (ids : List (Option ℕ)) : (∀ entry ∈ ids, s.Known entry) ∨
    ∃ before bad after, ids = before ++ bad :: after ∧ (∀ entry ∈ before, s.Known entry) ∧
      ¬ s.Known bad := by
  induction ids with
  | nil => exact .inl (List.forall_mem_nil _)
  | cons entry ids ih =>
    by_cases hentry : s.Known entry
    · rcases ih with hall | ⟨before, bad, after, rfl, hbefore, hbad⟩
      · exact .inl (List.forall_mem_cons.mpr ⟨hentry, hall⟩)
      · exact .inr ⟨entry :: before, bad, after, rfl,
          List.forall_mem_cons.mpr ⟨hentry, hbefore⟩, hbad⟩
    · exact .inr ⟨[], entry, ids, rfl, List.forall_mem_nil _, hentry⟩

/-- **A call with a bad entry** returns an error if the entry could be read, and undoes nothing but
the queueing. -/
theorem kfdWaitOnEvents_bad (all : Bool) (hknown : ∀ entry ∈ before, s.Known entry)
    (hbad : ¬ s.Known bad) :
    ∃ s', Registered before s s' ∧
      s.kfdWaitOnEvents t true all (before ++ bad :: after) =
        (s'.freeWaiters t, .failed (if bad = none then none else some .EINVAL)) := by
  obtain ⟨s', j, hreg, hloop, hret⟩ :=
    initEventWaiters_append (t := t) (i := 0) hknown (bad :: after)
  have hbad' : ¬ s'.Known bad := fun h => hbad ((hreg.known_iff bad).mp h)
  have hstop : s'.initEventWaiters t j (bad :: after) = (s', false) ∧
      s'.initEventWaitersRet t j (bad :: after) =
        .failed (if bad = none then none else some .EINVAL) := by
    cases bad with
    | none => exact ⟨rfl, rfl⟩
    | some id =>
      have hnone : s'.events id = none := by
        by_contra hne
        obtain ⟨ev, hev⟩ := Option.ne_none_iff_exists'.mp hne
        exact hbad' ⟨id, ev, rfl, hev⟩
      simp [initEventWaiters, initEventWaitersRet, hnone]
  refine ⟨s', hreg, ?_⟩
  simp [kfdWaitOnEvents, waitOnEvents, hloop, hret, hstop]

/-- A call whose entries are all good begins to wait. -/
theorem kfdWaitOnEvents_waits (all : Bool) (hknown : ∀ entry ∈ ids, s.Known entry) :
    (s.kfdWaitOnEvents t true all ids).2 = .waits := by
  obtain ⟨s', j, -, -, hret⟩ := initEventWaiters_append (t := t) (i := 0) hknown []
  rw [List.append_nil] at hret
  exact hret

theorem freeWaiters_signaled (s : EventState) (t id : ℕ) :
    ((s.freeWaiters t).events id).map (·.signaled) = (s.events id).map (·.signaled) := by
  simp [freeWaiters, Function.comp_def]

end EventState

open EventState

/-- **Failing to wait.** A call that fails because of an entry of the user array returns an error
and leaves all events signaled as they were if and only if the first bad entry could be read, and
no entry before it names an auto-reset event that is signaled. -/
theorem kfdWaitOnEvents_clean_iff (s : EventState) (t : ℕ) (all : Bool) (ids : List (Option ℕ)) :
    s.FailsCleanly (s.kfdWaitOnEvents t true all ids) ↔
      ∀ before bad after, ids = before ++ bad :: after → (∀ entry ∈ before, s.Known entry) →
        ¬ s.Known bad → bad ≠ none ∧ ∀ id ev, some id ∈ before → s.events id = some ev →
          ¬ (ev.autoReset = true ∧ ev.signaled = true) := by
  -- what the two sides say about one way to split the array
  have hsplit : ∀ {before bad after}, ids = before ++ bad :: after →
      (∀ entry ∈ before, s.Known entry) → ¬ s.Known bad →
      (s.FailsCleanly (s.kfdWaitOnEvents t true all ids) ↔ bad ≠ none ∧
        ∀ id ev, some id ∈ before → s.events id = some ev →
          ¬ (ev.autoReset = true ∧ ev.signaled = true)) := by
    rintro before bad after rfl hbefore hbad
    obtain ⟨s', hreg, hcall⟩ := kfdWaitOnEvents_bad all hbefore hbad
    rw [hcall, ← hreg.signaled_iff]
    simp only [FailsCleanly, freeWaiters_signaled]
    constructor
    · intro hclean
      obtain ⟨hret, hsig⟩ := hclean _ rfl
      refine ⟨?_, hsig⟩
      rintro rfl
      exact hret rfl
    · rintro ⟨hne, hsig⟩ ret hret
      rw [if_neg hne] at hret
      cases hret
      exact ⟨Option.some_ne_none _, hsig⟩
  constructor
  · intro hclean before bad after hids hbefore hbad
    exact (hsplit hids hbefore hbad).mp hclean
  · intro hall
    rcases s.known_or_bad ids with hknown | ⟨before, bad, after, hids, hbefore, hbad⟩
    · intro ret hret
      rw [kfdWaitOnEvents_waits all hknown] at hret
      cases hret
    · exact (hsplit hids hbefore hbad).mpr (hall before bad after hids hbefore hbad)

/-- A process with one event, which is signaled and an auto-reset event. -/
def oneSignaledEvent : EventState :=
  { EventState.init with
    events := fun id => if id = 1 then some ⟨.signal, true, true, []⟩ else none }

/-- **A signal is lost.** The event `1` is signaled; a call that waits for it and for the unknown
event `2` fails, and the event is not signaled any more. If the second entry cannot be read
instead, the call even returns `0`. -/
theorem kfdWaitOnEvents_takes_signal :
    ¬ oneSignaledEvent.FailsCleanly
        (oneSignaledEvent.kfdWaitOnEvents 0 true false [some 1, some 2]) ∧
      (oneSignaledEvent.kfdWaitOnEvents 0 true false [some 1, none]).2 = .failed none := by
  refine ⟨fun hclean => ?_, by decide⟩
  have hret : (oneSignaledEvent.kfdWaitOnEvents 0 true false [some 1, some 2]).2 =
      .failed (some .EINVAL) := by decide
  have hlost : ((oneSignaledEvent.kfdWaitOnEvents 0 true false [some 1, some 2]).1.events 1).map
      (·.signaled) ≠ (oneSignaledEvent.events 1).map (·.signaled) := by decide
  exact hlost ((hclean _ hret).2 1)

end Amdkfd
