import AmdgpuPro.Kernel
import AmdgpuPro.Lib.Transition
import Mathlib.Tactic

set_option autoImplicit false

/-!
# The queues of a process

A process has queues on any number of devices, all on one list. The queue manager of a device
must know the processes that have queues on it, so `pqm_create_queue` registers the process with
the device if the list is empty, and `pqm_destroy_queue` unregisters it when the list becomes
empty. The list is one for all devices, however, and the registration is one per device.

## Main definitions

* `Amdkfd.PqmState` — the queues of a process, the identifiers in use, and the registrations.
* `PqmState.RegisteredWhereQueues` — the process is registered with the devices it has queues on,
  and with no other one.
* `PqmOp.OneDevice` — a queue is created on a device other than that of the queues that are there
  only if it is not going to be created.

## Main results

* `Amdkfd.PqmState.Inv.createQueue_error` — a call that fails changes nothing.
* `pqm_registered` — what holds as long as a process uses one device at a time.
* `pqm_not_registered` — with queues on two devices the second one does not know the process.

## Design

What the allocations and the queue manager of the device answer is an argument of a call. Only the
nodes of this process on the list `queues` of a device's queue manager are modelled, by their
number.
-/

namespace Amdkfd

open Amdgpu (Errno)
open Transition

/-! ## The state -/

/-- The types of queues that a process can create. -/
inductive PqmQueueType
  | compute
  | sdma
  | diq
  deriving DecidableEq

/-- `struct process_queue_node`, with the identifier, the device and the type of its queue. -/
structure ProcessQueueNode where
  qid : ℕ
  dev : ℕ
  type : PqmQueueType
  deriving DecidableEq

/-- `struct process_queue_manager`, and the registrations of the process. -/
structure PqmState where
  queues : List ProcessQueueNode
  /-- `queue_slot_bitmap` -/
  slots : ℕ → Bool
  /-- the number of nodes of the process on the list `queues` of a device's queue manager -/
  registered : ℕ → ℕ

/-- What a call of `pqm_create_queue` gets from elsewhere. -/
structure CreateEnv where
  /-- `kfd_get_process_device_data` finds the data of the process on the device -/
  pdd : Bool
  /-- `pdd->qpd.is_debug` -/
  isDebug : Bool
  /-- `max_no_of_hqd` of the device -/
  maxNoOfHqd : ℕ
  /-- `register_process` has memory for its node -/
  allocNode : Bool
  /-- there is memory for the new node on the list of queues -/
  allocPqn : Bool
  /-- over-subscription is not allowed, and would happen -/
  overSubscribed : Bool
  /-- the answer of `create_cp_queue`, or of `kernel_queue_init` -/
  initQueue : Option Errno
  /-- the answer of `create_queue` or `create_kernel_queue` of the device's queue manager -/
  dqmCreate : Option Errno

/-- What a call of `pqm_destroy_queue` gets from elsewhere. -/
structure DestroyEnv where
  pdd : Bool
  /-- the answer of `destroy_queue` of the device's queue manager -/
  dqmDestroy : Option Errno

/-- `KFD_MAX_NUM_OF_QUEUES_PER_PROCESS` -/
def maxNumOfQueuesPerProcess : ℕ := 1024

/-- The part of `pqm_create_queue` after the registration: from the allocation of the node to the
answer of the device's queue manager. -/
def CreateEnv.createNode (env : CreateEnv) (type : PqmQueueType) : Option Errno :=
  if !env.allocPqn then some .ENOMEM
  else
    match type with
    | .diq => if env.initQueue.isSome then some .ENOMEM else env.dqmCreate
    | _ =>
      if env.overSubscribed then some .EPERM
      else env.initQueue.or env.dqmCreate

namespace PqmState

/-- `pqm_init` -/
def init : PqmState where
  queues := []
  slots := fun _ => false
  registered := fun _ => 0

/-- `find_available_queue_slot`, without marking the slot. -/
def findAvailableQueueSlot (s : PqmState) : Option ℕ :=
  (List.range' 0 maxNumOfQueuesPerProcess).find? fun qid => !s.slots qid

/-- The number of queues on the list `queues_list` of the process on a device. -/
def numQueues (s : PqmState) (dev : ℕ) : ℕ :=
  (s.queues.filter fun n => n.dev = dev && n.type ≠ .diq).length

/-- `register_process`; its result is not looked at. -/
def registerProcess (s : PqmState) (dev : ℕ) (alloc : Bool) : PqmState :=
  if alloc then { s with registered := Function.update s.registered dev (s.registered dev + 1) }
  else s

/-- `unregister_process` -/
def unregisterProcess (s : PqmState) (dev : ℕ) : PqmState :=
  { s with registered := Function.update s.registered dev (s.registered dev - 1) }

/-- Mark a slot as used or free. -/
def setSlot (s : PqmState) (qid : ℕ) (used : Bool) : PqmState :=
  { s with slots := Function.update s.slots qid used }

/-- `pqm_create_queue` from where it has a free slot: mark it, register the process if it has no
queues, and create the queue or undo this. -/
def createWithSlot (s : PqmState) (qid dev : ℕ) (type : PqmQueueType) (env : CreateEnv) :
    PqmState × Except Errno ℕ :=
  let s := s.setSlot qid true
  let s := if s.queues.isEmpty then s.registerProcess dev env.allocNode else s
  match env.createNode type with
  | some e =>
    let s := s.setSlot qid false
    (if s.queues.isEmpty then s.unregisterProcess dev else s, .error e)
  | none => ({ s with queues := ⟨qid, dev, type⟩ :: s.queues }, .ok qid)

/-- `pqm_create_queue`: the state afterwards, and the identifier of the queue or the error. -/
def createQueue (s : PqmState) (dev : ℕ) (type : PqmQueueType) (env : CreateEnv) :
    PqmState × Except Errno ℕ :=
  if !env.pdd then (s, .error .EPERM)
  else if (env.isDebug || type = .diq) && env.maxNoOfHqd / 2 ≤ s.numQueues dev then
    (s, .error .ENOSPC)
  else
    match s.findAvailableQueueSlot with
    | none => (s, .error .ENOMEM)
    | some qid => s.createWithSlot qid dev type env

/-- `pqm_destroy_queue` -/
def destroyQueue (s : PqmState) (qid : ℕ) (env : DestroyEnv) : PqmState × Option Errno :=
  match s.queues.find? fun n => n.qid = qid with
  | none => (s, some .EINVAL)
  | some n =>
    if !env.pdd then (s, some .EPERM)
    else if n.type ≠ .diq ∧ env.dqmDestroy.isSome then (s, env.dqmDestroy)
    else
      let s := { s with queues := s.queues.erase n }.setSlot qid false
      (if s.queues.isEmpty then s.unregisterProcess n.dev else s, none)

end PqmState

/-- The calls of a process. -/
inductive PqmOp
  | create (dev : ℕ) (type : PqmQueueType) (env : CreateEnv)
  | destroy (qid : ℕ) (env : DestroyEnv)

namespace PqmState

/-- The state after a call. -/
def step (s : PqmState) : PqmOp → PqmState
  | .create dev type env => (s.createQueue dev type env).1
  | .destroy qid env => (s.destroyQueue qid env).1

/-! ## What should hold -/

/-- The process is registered with a device exactly when it has a queue there. -/
def RegisteredWhereQueues (s : PqmState) : Prop :=
  ∀ dev, 0 < s.registered dev ↔ ∃ n ∈ s.queues, n.dev = dev

end PqmState

/-- A queue that is going to be created is on the device of the queues that are there; if there are
none, there is memory for the registration. -/
def PqmOp.OneDevice (s : PqmState) : PqmOp → Prop
  | .create dev type env => env.createNode type = none →
      (∀ n ∈ s.queues, n.dev = dev) ∧ (s.queues = [] → env.allocNode = true)
  | .destroy _ _ => True

namespace PqmState

/-! ## The invariant -/

/-- All queues are on one device, and the process is registered there once, and nowhere else. -/
structure Inv (s : PqmState) : Prop where
  one_device : ∀ n ∈ s.queues, ∀ m ∈ s.queues, n.dev = m.dev
  registered : ∀ dev, s.registered dev = if ∃ n ∈ s.queues, n.dev = dev then 1 else 0

theorem Inv.init : init.Inv := ⟨by simp [PqmState.init], by simp [PqmState.init]⟩

theorem Inv.registeredWhereQueues {s : PqmState} (h : s.Inv) : s.RegisteredWhereQueues := by
  intro dev
  rw [h.registered dev]
  split_ifs with hq <;> simp [hq]

section Calls

variable {s : PqmState} {dev qid : ℕ} {type : PqmQueueType}

theorem slots_of_findAvailableQueueSlot (h : s.findAvailableQueueSlot = some qid) :
    s.slots qid = false := by
  simpa using List.find?_some h

/-- Without queues the process is not registered. -/
theorem Inv.registered_of_nil (h : s.Inv) (hnil : s.queues = []) (dev : ℕ) :
    s.registered dev = 0 := by
  simp [h.registered dev, hnil]

/-- A call of `pqm_create_queue` fails before it changes anything, or takes a free slot. -/
theorem createQueue_cases (s : PqmState) (dev : ℕ) (type : PqmQueueType) (env : CreateEnv) :
    (∃ e, s.createQueue dev type env = (s, .error e)) ∨
      ∃ qid, s.slots qid = false ∧
        s.createQueue dev type env = s.createWithSlot qid dev type env := by
  unfold createQueue
  split_ifs with hpdd hlimit
  · exact .inl ⟨_, rfl⟩
  · exact .inl ⟨_, rfl⟩
  · cases hslot : s.findAvailableQueueSlot with
    | none => exact .inl ⟨_, rfl⟩
    | some qid => exact .inr ⟨qid, slots_of_findAvailableQueueSlot hslot, rfl⟩

@[simp] theorem queues_setSlot (used : Bool) : (s.setSlot qid used).queues = s.queues := rfl

@[simp] theorem queues_registerProcess (alloc : Bool) :
    (s.registerProcess dev alloc).queues = s.queues := by
  cases alloc <;> rfl

theorem registerProcess_setSlot (used alloc : Bool) :
    (s.setSlot qid used).registerProcess dev alloc =
      (s.registerProcess dev alloc).setSlot qid used := by
  cases alloc <;> rfl

/-- A slot that is marked and freed again is as before. -/
theorem setSlot_setSlot (h : s.slots qid = false) : (s.setSlot qid true).setSlot qid false = s := by
  have hslots : Function.update s.slots qid false = s.slots :=
    Function.update_eq_self_iff.mpr h.symm
  simp [setSlot, hslots]

/-- Registering a process that is not registered, and unregistering it again, changes nothing, even
if there was no memory to register it. -/
theorem unregisterProcess_registerProcess (h : s.registered dev = 0) (alloc : Bool) :
    (s.registerProcess dev alloc).unregisterProcess dev = s := by
  have hreg : Function.update s.registered dev 0 = s.registered :=
    Function.update_eq_self_iff.mpr h.symm
  cases alloc <;> simp [registerProcess, unregisterProcess, h, hreg]

/-- If the queue cannot be created, what was done before is undone. -/
theorem Inv.createWithSlot_error (h : s.Inv) (hslot : s.slots qid = false) {env : CreateEnv}
    {e : Errno} (hnode : env.createNode type = some e) :
    s.createWithSlot qid dev type env = (s, .error e) := by
  unfold createWithSlot
  cases hq : s.queues with
  | nil =>
    have hslot' : (s.registerProcess dev env.allocNode).slots qid = false := by
      cases env.allocNode <;> exact hslot
    simp only [queues_setSlot, hq, List.isEmpty_nil, if_true, hnode, queues_registerProcess,
      registerProcess_setSlot, setSlot_setSlot hslot',
      unregisterProcess_registerProcess (h.registered_of_nil hq dev)]
  | cons n ns =>
    simp only [queues_setSlot, hq, List.isEmpty_cons, Bool.false_eq_true, if_false, hnode,
      setSlot_setSlot hslot]

/-- **A call of `pqm_create_queue` that fails changes nothing.** -/
theorem Inv.createQueue_error (h : s.Inv) {env : CreateEnv} {e : Errno} {t : PqmState}
    (hcreate : s.createQueue dev type env = (t, .error e)) : t = s := by
  obtain ⟨e', he'⟩ | ⟨qid, hslot, heq⟩ := createQueue_cases s dev type env
  · rw [he'] at hcreate
    cases hcreate
    rfl
  · rw [heq] at hcreate
    cases hnode : env.createNode type with
    | some e' =>
      rw [h.createWithSlot_error hslot hnode] at hcreate
      cases hcreate
      rfl
    | none =>
      unfold createWithSlot at hcreate
      rw [hnode] at hcreate
      cases hcreate

/-- A queue is created on the device of the others, or the process had none and is registered. -/
theorem Inv.createWithSlot (h : s.Inv) (hslot : s.slots qid = false) {env : CreateEnv}
    (hone : PqmOp.OneDevice s (.create dev type env)) :
    (s.createWithSlot qid dev type env).1.Inv := by
  cases hnode : env.createNode type with
  | some e =>
    rw [h.createWithSlot_error hslot hnode]
    exact h
  | none =>
    obtain ⟨hdev, halloc⟩ := hone hnode
    unfold PqmState.createWithSlot
    cases hq : s.queues with
    | nil =>
      simp only [hnode, queues_setSlot, hq, List.isEmpty_nil, if_true, halloc hq, registerProcess]
      refine ⟨by simp, fun d => ?_⟩
      have hreg := h.registered_of_nil hq
      by_cases hd : d = dev
      · simp [hd, setSlot, hreg]
      · simp [Function.update_of_ne hd, setSlot, hreg, Ne.symm hd]
    | cons n ns =>
      have hn : n.dev = dev := hdev n (by simp [hq])
      simp only [hnode, queues_setSlot, hq, List.isEmpty_cons, Bool.false_eq_true, if_false]
      refine ⟨?_, fun d => ?_⟩
      · have hall : ∀ m ∈ (⟨qid, dev, type⟩ : ProcessQueueNode) :: n :: ns, m.dev = dev := by
          rw [List.forall_mem_cons, ← hq]
          exact ⟨rfl, hdev⟩
        intro m hm m' hm'
        rw [hall m hm, hall m' hm']
      · -- the device of the new queue had a queue already
        have hiff : (∃ m ∈ (⟨qid, dev, type⟩ : ProcessQueueNode) :: n :: ns, m.dev = d) ↔
            ∃ m ∈ s.queues, m.dev = d := by
          rw [hq]
          simp [hn]
        simp only [hiff]
        exact h.registered d

/-- A call of `pqm_destroy_queue` fails and changes nothing, or removes a queue. -/
theorem destroyQueue_cases (s : PqmState) (qid : ℕ) (env : DestroyEnv) :
    (s.destroyQueue qid env).1 = s ∨ ∃ n ∈ s.queues, (s.destroyQueue qid env).1 =
      (let t := { s with queues := s.queues.erase n }.setSlot qid false
       if t.queues.isEmpty then t.unregisterProcess n.dev else t) := by
  unfold destroyQueue
  cases hfind : s.queues.find? fun n => n.qid = qid with
  | none => exact .inl rfl
  | some n =>
    simp only
    split_ifs
    · exact .inl rfl
    · exact .inl rfl
    · exact .inr ⟨n, List.mem_of_find?_eq_some hfind, by simp_all⟩
    · exact .inr ⟨n, List.mem_of_find?_eq_some hfind, by simp_all⟩

/-- A queue is removed; with the last one the process is unregistered. -/
theorem Inv.erase (h : s.Inv) {n : ProcessQueueNode} (hn : n ∈ s.queues) :
    Inv (let t := { s with queues := s.queues.erase n }.setSlot qid false
         if t.queues.isEmpty then t.unregisterProcess n.dev else t) := by
  have hsub : ∀ m ∈ s.queues.erase n, m ∈ s.queues := fun m hm => List.mem_of_mem_erase hm
  have hone : ∀ m ∈ s.queues.erase n, ∀ m' ∈ s.queues.erase n, m.dev = m'.dev :=
    fun m hm m' hm' => h.one_device m (hsub m hm) m' (hsub m' hm')
  cases hq : s.queues.erase n with
  | nil =>
    refine ⟨by simp [setSlot, unregisterProcess], fun d => ?_⟩
    have hreg := h.registered d
    by_cases hd : d = n.dev
    · subst hd
      rw [if_pos ⟨n, hn, rfl⟩] at hreg
      simp [setSlot, unregisterProcess, hreg]
    · have hnot : ¬ ∃ m ∈ s.queues, m.dev = d := by
        rintro ⟨m, hm, rfl⟩
        exact hd (h.one_device m hm n hn)
      rw [if_neg hnot] at hreg
      simp [setSlot, unregisterProcess, Function.update_of_ne hd, hreg]
  | cons m ms =>
    have hm : m ∈ s.queues.erase n := by simp [hq]
    simp only [setSlot, List.isEmpty_cons, Bool.false_eq_true, if_false]
    rw [← hq]
    refine ⟨hone, fun d => ?_⟩
    -- another queue is left on the device
    have hiff : (∃ m ∈ s.queues.erase n, m.dev = d) ↔ ∃ m ∈ s.queues, m.dev = d := by
      constructor
      · rintro ⟨m', hm', rfl⟩
        exact ⟨m', hsub m' hm', rfl⟩
      · rintro ⟨m', hm', rfl⟩
        exact ⟨m, hm, h.one_device m (hsub m hm) m' hm'⟩
    simp only [hiff]
    exact h.registered d

/-- Every call keeps the invariant. -/
theorem Inv.step {op : PqmOp} (h : s.Inv) (hone : op.OneDevice s) : (s.step op).Inv := by
  cases op with
  | create dev type env =>
    rw [PqmState.step]
    obtain ⟨e, he⟩ | ⟨qid, hslot, heq⟩ := createQueue_cases s dev type env
    · rw [he]
      exact h
    · rw [heq]
      exact h.createWithSlot hslot hone
  | destroy qid env =>
    rw [PqmState.step]
    obtain heq | ⟨n, hn, heq⟩ := destroyQueue_cases s qid env
    · rw [heq]
      exact h
    · rw [heq]
      exact h.erase hn

end Calls

end PqmState

/-! ## Registrations over whole runs -/

/-- **Registrations**: as long as a process creates queues on one device at a time, it is registered
with the devices it has queues on and with no other one, and a call of `pqm_create_queue` that
fails leaves everything as it was. -/
theorem pqm_registered {ops : List PqmOp} {s : PqmState}
    (hrun : Run (Guarded (fun s op t => PqmState.step s op = t) fun s op => op.OneDevice s)
      .init ops s) :
    s.RegisteredWhereQueues ∧
      ∀ dev type env t e, s.createQueue dev type env = (t, .error e) → t = s := by
  have hinv : s.Inv := by
    refine hrun.invariant PqmState.Inv ?_ .init
    rintro s op t h ⟨rfl, hone⟩
    exact h.step hone
  exact ⟨hinv.registeredWhereQueues, fun dev type env t e => hinv.createQueue_error⟩

/-- Everything works. -/
def CreateEnv.granted : CreateEnv where
  pdd := true
  isDebug := false
  maxNoOfHqd := 24
  allocNode := true
  allocPqn := true
  overSubscribed := false
  initQueue := none
  dqmCreate := none

/-- A process creates two queues on a device, and destroys the first one. -/
theorem pqm_registered_oneDevice :
    PqmState.RegisteredWhereQueues (((PqmState.init.step (.create 0 .compute .granted)).step
      (.create 0 .sdma .granted)).step (.destroy 0 ⟨true, none⟩)) := by
  have hrun : Run (Guarded (fun s op t => PqmState.step s op = t) fun s op => op.OneDevice s) .init
      [.create 0 .compute .granted, .create 0 .sdma .granted, .destroy 0 ⟨true, none⟩] _ :=
    .cons ⟨rfl, fun _ => ⟨by simp [PqmState.init], fun _ => rfl⟩⟩
      (.cons ⟨rfl, fun _ => ⟨by decide, fun _ => rfl⟩⟩ (.cons ⟨rfl, trivial⟩ (.nil _)))
  exact (pqm_registered hrun).1

/-- A process creates a queue on device `0` and one on device `1`. Device `1` does not know the
process. When the queue on device `0` is destroyed and then the other one, the process stays
registered with device `0`. -/
theorem pqm_not_registered : ∃ ops s t,
    Run (fun s op t => PqmState.step s op = t) .init ops s ∧ ¬ s.RegisteredWhereQueues ∧
      Run (fun s op t => PqmState.step s op = t) s
        [.destroy 0 ⟨true, none⟩, .destroy 1 ⟨true, none⟩] t ∧
      t.queues = [] ∧ 0 < t.registered 0 := by
  refine ⟨[.create 0 .compute .granted, .create 1 .compute .granted], _, _,
    .cons rfl (.cons rfl (.nil _)), fun h => ?_, .cons rfl (.cons rfl (.nil _)), ?_, ?_⟩
  · exact absurd ((h 1).mpr ⟨⟨1, 1, .compute⟩, by decide, rfl⟩) (by decide)
  · decide
  · decide

end Amdkfd
