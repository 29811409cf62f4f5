import AmdgpuPro.Kfd.GttSaHeap

set_option autoImplicit false

/-!
# Queues under the hardware scheduler

With the hardware scheduler, the driver gives the command processor a list of all processes and
their queues, the runlist. Whenever a queue is created, changed or destroyed, the running queues are
preempted and a new runlist is submitted. Both can fail: the command processor may not answer, and
there may be no memory for the list.

## Main definitions

* `Amdkfd.Hws` — the queue manager of a device, with the queues of the processes.
* `Hws.executeQueuesCpsch` — preempt, and submit a new runlist.
* `initMqd`, `Hws.createQueueGtt` — `create_queue_cpsch` with the GTT memory.
* `Hws.Unchanged` — the lists, the counters and the memory are as before.

## Main results

* `Amdkfd.Hws.executeQueuesCpsch_ne_none_iff` — when `execute_queues_cpsch` fails.
* `createQueueGtt_unchanged_iff` — a failed creation leaves everything as it was unless there is no
  free range of GTT memory, or the preemption or the submission fails.
* `createQueueGtt_leaves_queue` — a queue that could not be started stays on the list.

## Design

What the command processor, `pm_send_runlist` and, in `Hws.createQueueCpsch`, `init_mqd` answer is
an argument of a call. The queues of a process on the device are two lists, one for the queues of
the user and one for those of the kernel; a queue is named by its position. The counters are natural
numbers, which count elements of these lists.
-/

namespace Amdkfd

open Amdgpu (Errno)

/-! ## The state -/

/-- The types of queues that are given to the scheduler. -/
inductive HwsQueueType
  | compute
  | sdma
  | diq
  deriving DecidableEq

/-- `struct queue_properties` -/
structure QueueProperties where
  type : HwsQueueType
  queueAddress : BitVec 64
  queueSize : BitVec 64
  queuePercent : BitVec 32
  isActive : Bool
  deriving DecidableEq

/-- What makes a queue active. -/
def QueueProperties.Runs (p : QueueProperties) : Bool :=
  0 < p.queueSize && p.queueAddress != 0 && 0 < p.queuePercent

/-- What `update_mqd` does to the properties; it always succeeds. -/
def updateMqd (p : QueueProperties) : QueueProperties := { p with isActive := p.Runs }

/-- `struct queue`, with the number of its descriptor in GTT memory. -/
structure HwsQueue where
  mqd : ℕ
  properties : QueueProperties
  deriving DecidableEq

/-- `struct qcm_process_device`: the queues of a process on the device. -/
structure Qpd where
  pasid : ℕ
  queuesList : List HwsQueue
  privQueueList : List HwsQueue
  isDebug : Bool

/-- `struct device_queue_manager`, with the data of the processes. -/
structure Hws where
  /-- the processes on the list `queues` -/
  queues : List ℕ
  qpd : ℕ → Qpd
  processesCount : ℕ
  queueCount : ℕ
  sdmaQueueCount : ℕ
  totalQueueCount : ℕ
  activeRunlist : Bool
  /-- the queue descriptors in GTT memory -/
  mqds : List ℕ

/-- The answers that an operation gets. -/
structure HwsEnv where
  /-- `get_mqd_manager` has a manager -/
  manager : Bool
  /-- the answer of `init_mqd`; see `initMqd` -/
  initMqd : Option Errno
  /-- the answer of `pm_send_unmap_queue` for the compute queues -/
  unmapQueue : Option Errno
  /-- the answer of `amdkfd_fence_wait_timeout` -/
  fenceWait : Option Errno
  sendRunlist : Option Errno

/-- Everything succeeds. -/
def HwsEnv.granted : HwsEnv := ⟨true, none, none, none, none⟩

namespace Hws

variable (s : Hws)

/-- `initialize_cpsch` -/
def init (pasid : ℕ → ℕ) : Hws where
  queues := []
  qpd p := ⟨pasid p, [], [], false⟩
  processesCount := 0
  queueCount := 0
  sdmaQueueCount := 0
  totalQueueCount := 0
  activeRunlist := false
  mqds := []

/-- Change the data of a process. -/
def setQpd (p : ℕ) (qpd : Qpd) : Hws := { s with qpd := Function.update s.qpd p qpd }

/-! ## The operations -/

/-- `destroy_queues_cpsch`. What becomes of the SDMA queues is not looked at. -/
def destroyQueuesCpsch (env : HwsEnv) : Hws × Option Errno :=
  if !s.activeRunlist then (s, none)
  else
    match env.unmapQueue with
    | some e => (s, some e)
    | none =>
      match env.fenceWait with
      | some e => (s, some e)
      | none => ({ s with activeRunlist := false }, none)

/-- `execute_queues_cpsch` -/
def executeQueuesCpsch (env : HwsEnv) : Hws × Option Errno :=
  match s.destroyQueuesCpsch env with
  | (s, some e) => (s, some e)
  | (s, none) =>
    if s.queueCount = 0 ∨ s.processesCount = 0 then (s, none)
    else if s.activeRunlist then (s, none)
    else
      match env.sendRunlist with
      | some e => (s, some e)
      | none => ({ s with activeRunlist := true }, none)

/-- A queue with its descriptor is added to the list of a process. -/
def linkQueue (p : ℕ) (q : HwsQueue) : Hws :=
  { s.setQpd p { s.qpd p with queuesList := q :: (s.qpd p).queuesList } with
    mqds := q.mqd :: s.mqds }

/-- The end of `create_queue_cpsch`: the queue is counted. -/
def countQueue (q : HwsQueue) : Hws :=
  { s with
    sdmaQueueCount :=
      if q.properties.type = .sdma then s.sdmaQueueCount + 1 else s.sdmaQueueCount
    totalQueueCount := s.totalQueueCount + 1 }

/-- `create_queue_cpsch` from where the queue is on the list. -/
def startQueue (q : HwsQueue) (env : HwsEnv) : Hws × Option Errno :=
  let started :=
    if q.properties.isActive then
      executeQueuesCpsch { s with queueCount := s.queueCount + 1 } env
    else (s, none)
  (started.1.countQueue q, started.2)

/-- `create_queue_cpsch`; `init_mqd` calls `update_mqd`. -/
def createQueueCpsch (maxNumOfQueuesPerDevice p mqd : ℕ) (properties : QueueProperties)
    (env : HwsEnv) : Hws × Option Errno :=
  if maxNumOfQueuesPerDevice ≤ s.totalQueueCount then (s, some .EPERM)
  else if !env.manager then (s, some .ENOMEM)
  else
    match env.initMqd with
    | some e => (s, some e)
    | none =>
      let q : HwsQueue := ⟨mqd, updateMqd properties⟩
      (s.linkQueue p q).startQueue q env

/-- `destroy_queue_cpsch` up to the preemption: the queue is taken off its list. -/
def unlinkQueue (p i : ℕ) (q : HwsQueue) : Hws :=
  { s.setQpd p { s.qpd p with queuesList := (s.qpd p).queuesList.eraseIdx i } with
    sdmaQueueCount :=
      if q.properties.type = HwsQueueType.sdma then s.sdmaQueueCount - 1 else s.sdmaQueueCount
    queueCount := if q.properties.isActive then s.queueCount - 1 else s.queueCount }

/-- `destroy_queue_cpsch` from the preemption on. -/
def uninitQueue (q : HwsQueue) : Hws :=
  { s with mqds := s.mqds.erase q.mqd, totalQueueCount := s.totalQueueCount - 1 }

/-- `destroy_queue_cpsch`, for the queue `q` at position `i` of its list. -/
def destroyQueueCpsch (p i : ℕ) (q : HwsQueue) (env : HwsEnv) : Hws × Option Errno :=
  if (s.qpd p).isDebug then (s, some .EBUSY)
  else if !env.manager then (s, some .ENOMEM)
  else (((s.unlinkQueue p i q).executeQueuesCpsch env).1.uninitQueue q, none)

/-- `update_queue` up to the preemption: the queue `q` becomes `q'`. -/
def replaceQueue (p i : ℕ) (q q' : HwsQueue) : Hws :=
  { s.setQpd p { s.qpd p with queuesList := (s.qpd p).queuesList.set i q' } with
    queueCount :=
      if q'.properties.isActive ∧ ¬ q.properties.isActive then s.queueCount + 1
      else if ¬ q'.properties.isActive ∧ q.properties.isActive then s.queueCount - 1
      else s.queueCount }

/-- `update_queue`, for the queue `q` at position `i` of its list and new properties. -/
def updateQueue (p i : ℕ) (q : HwsQueue) (properties : QueueProperties) (env : HwsEnv) :
    Hws × Option Errno :=
  if !env.manager then (s, some .ENOMEM)
  else
    (s.replaceQueue p i q { q with properties := updateMqd properties }).executeQueuesCpsch env

/-- `create_kernel_queue_cpsch` up to the preemption: the queue is put on its list. -/
def linkKernelQueue (p : ℕ) (kq : HwsQueue) : Hws :=
  { s.setQpd p
      { s.qpd p with privQueueList := kq :: (s.qpd p).privQueueList, isDebug := true } with
    totalQueueCount := s.totalQueueCount + 1
    queueCount := s.queueCount + 1 }

/-- `create_kernel_queue_cpsch`; the answer of `execute_queues_cpsch` is not looked at. -/
def createKernelQueueCpsch (maxNumOfQueuesPerDevice p : ℕ) (kq : HwsQueue) (env : HwsEnv) :
    Hws × Option Errno :=
  if maxNumOfQueuesPerDevice ≤ s.totalQueueCount then (s, some .EPERM)
  else (((s.linkKernelQueue p kq).executeQueuesCpsch env).1, none)

/-- `destroy_kernel_queue_cpsch` between the two preemptions: the queue is taken off its list. -/
def unlinkKernelQueue (p i : ℕ) : Hws :=
  { s.setQpd p
      { s.qpd p with
        privQueueList := (s.qpd p).privQueueList.eraseIdx i
        isDebug := false } with
    queueCount := s.queueCount - 1 }

/-- `destroy_kernel_queue_cpsch`, for the queue at position `i` of its list. -/
def destroyKernelQueueCpsch (p i : ℕ) (env env' : HwsEnv) : Hws :=
  let s' := (((s.destroyQueuesCpsch env).1.unlinkKernelQueue p i).executeQueuesCpsch env').1
  { s' with totalQueueCount := s'.totalQueueCount - 1 }

/-- `register_process_nocpsch`; `kzalloc` is whether there is memory for the node. -/
def registerProcess (p : ℕ) (kzalloc : Bool) : Hws × Option Errno :=
  if kzalloc then
    ({ s with queues := p :: s.queues, processesCount := s.processesCount + 1 }, none)
  else (s, some .ENOMEM)

/-- `unregister_process_nocpsch`; `false` when the process is not on the list. -/
def unregisterProcess (p : ℕ) : Hws × Bool :=
  if p ∈ s.queues then
    ({ s with queues := s.queues.erase p, processesCount := s.processesCount - 1 }, true)
  else (s, false)

/-! ## Preemption and submission -/

/-- Nothing changes but whether there is an active runlist. -/
structure SameQueues (s t : Hws) : Prop where
  queues : t.queues = s.queues
  qpd : t.qpd = s.qpd
  processesCount : t.processesCount = s.processesCount
  queueCount : t.queueCount = s.queueCount
  sdmaQueueCount : t.sdmaQueueCount = s.sdmaQueueCount
  totalQueueCount : t.totalQueueCount = s.totalQueueCount
  mqds : t.mqds = s.mqds

variable {s} {env : HwsEnv}

/-- Nothing happens. -/
theorem SameQueues.refl (s : Hws) : SameQueues s s := ⟨rfl, rfl, rfl, rfl, rfl, rfl, rfl⟩

/-- The runlist becomes active, or not. -/
theorem SameQueues.setActive (s : Hws) (b : Bool) :
    SameQueues s { s with activeRunlist := b } := ⟨rfl, rfl, rfl, rfl, rfl, rfl, rfl⟩

/-- One after the other. -/
theorem SameQueues.trans {s t u : Hws} (h : SameQueues s t) (h' : SameQueues t u) :
    SameQueues s u where
  queues := h'.queues.trans h.queues
  qpd := h'.qpd.trans h.qpd
  processesCount := h'.processesCount.trans h.processesCount
  queueCount := h'.queueCount.trans h.queueCount
  sdmaQueueCount := h'.sdmaQueueCount.trans h.sdmaQueueCount
  totalQueueCount := h'.totalQueueCount.trans h.totalQueueCount
  mqds := h'.mqds.trans h.mqds

/-- A preemption keeps the queues. -/
theorem destroyQueuesCpsch_sameQueues (s : Hws) (env : HwsEnv) :
    SameQueues s (s.destroyQueuesCpsch env).1 := by
  unfold destroyQueuesCpsch
  split
  · exact .refl s
  · split
    · exact .refl s
    · split
      · exact .refl s
      · exact .setActive s false

/-- Preemption and submission do not change the queues. -/
theorem executeQueuesCpsch_sameQueues (s : Hws) (env : HwsEnv) :
    SameQueues s (s.executeQueuesCpsch env).1 := by
  have hpre := destroyQueuesCpsch_sameQueues s env
  unfold executeQueuesCpsch
  generalize s.destroyQueuesCpsch env = r at hpre
  obtain ⟨t, _ | e⟩ := r
  · simp only at hpre ⊢
    split_ifs
    · exact hpre
    · exact hpre
    · split
      · exact hpre
      · exact hpre.trans (.setActive t true)
  · exact hpre

end Hws

/-- The preemption of the running queues or the submission of the new runlist fails. -/
def HwsEnv.ExecuteFails (env : HwsEnv) (s : Hws) : Prop :=
  (s.activeRunlist = true ∧ (env.unmapQueue ≠ none ∨ env.fenceWait ≠ none)) ∨
    (0 < s.queueCount ∧ 0 < s.processesCount ∧ env.sendRunlist ≠ none)

namespace Hws

variable {s : Hws} {env : HwsEnv}

/-- When `execute_queues_cpsch` fails. -/
theorem executeQueuesCpsch_ne_none_iff :
    (s.executeQueuesCpsch env).2 ≠ none ↔ env.ExecuteFails s := by
  obtain ⟨manager, initMqd, unmapQueue, fenceWait, sendRunlist⟩ := env
  simp only [executeQueuesCpsch, destroyQueuesCpsch, HwsEnv.ExecuteFails]
  cases hactive : s.activeRunlist with
  | false =>
    by_cases hidle : s.queueCount = 0 ∨ s.processesCount = 0
    · simp only [Bool.not_false, if_true, if_pos hidle]
      simp
      omega
    · cases sendRunlist <;> simp [hactive, hidle]; omega
  | true =>
    cases unmapQueue with
    | some e => simp
    | none =>
      cases fenceWait with
      | some e => simp
      | none =>
        by_cases hidle : s.queueCount = 0 ∨ s.processesCount = 0
        · simp [hidle]
          omega
        · cases sendRunlist <;> simp [hidle]; omega

/-! ## A creation that fails -/

/-- The lists of queues, the counters and the queue descriptors are as before. -/
structure Unchanged (s t : Hws) : Prop where
  lists : ∀ p, (t.qpd p).queuesList = (s.qpd p).queuesList
  queueCount : t.queueCount = s.queueCount
  sdmaQueueCount : t.sdmaQueueCount = s.sdmaQueueCount
  totalQueueCount : t.totalQueueCount = s.totalQueueCount
  mqds : t.mqds = s.mqds

/-- Nothing happens. -/
theorem Unchanged.refl (s : Hws) : Unchanged s s := ⟨fun _ => rfl, rfl, rfl, rfl, rfl⟩

/-- The answer of a creation that links the queue is that of the start. -/
theorem startQueue_snd (s : Hws) (q : HwsQueue) (env : HwsEnv) :
    (s.startQueue q env).2 ≠ none ↔
      q.properties.isActive = true ∧
        env.ExecuteFails { s with queueCount := s.queueCount + 1 } := by
  unfold startQueue
  by_cases hactive : q.properties.isActive = true
  · simp only [hactive, if_true, true_and]
    exact executeQueuesCpsch_ne_none_iff
  · simp [hactive]

/-- A creation that links the queue counts it. -/
theorem startQueue_totalQueueCount (q : HwsQueue) :
    (s.startQueue q env).1.totalQueueCount = s.totalQueueCount + 1 := by
  unfold startQueue countQueue
  by_cases hactive : q.properties.isActive = true
  · simp only [hactive, if_true]
    rw [(executeQueuesCpsch_sameQueues _ _).totalQueueCount]
  · simp [hactive]

end Hws

/-- The number of queues and the manager let a creation come to `init_mqd`. -/
def HwsEnv.CallsInitMqd (env : HwsEnv) (s : Hws) (maxNumOfQueuesPerDevice : ℕ) : Prop :=
  s.totalQueueCount < maxNumOfQueuesPerDevice ∧ env.manager = true

instance (env : HwsEnv) (s : Hws) (n : ℕ) : Decidable (env.CallsInitMqd s n) :=
  inferInstanceAs (Decidable (_ ∧ _))

/-- The queue is to run, and the preemption or the submission fails. -/
def HwsEnv.StartFails (env : HwsEnv) (s : Hws) (properties : QueueProperties) : Prop :=
  properties.Runs = true ∧
    ((s.activeRunlist = true ∧ (env.unmapQueue ≠ none ∨ env.fenceWait ≠ none)) ∨
      (0 < s.processesCount ∧ env.sendRunlist ≠ none))

/-- **What a creation does**: nothing if it does not get past `init_mqd`; otherwise the queue is
counted, and the answer is that of its start. -/
theorem Hws.createQueueCpsch_spec (s : Hws) (maxNumOfQueuesPerDevice p mqd : ℕ)
    (properties : QueueProperties) (env : HwsEnv) {r : Hws × Option Errno}
    (hr : s.createQueueCpsch maxNumOfQueuesPerDevice p mqd properties env = r) :
    (¬ env.CallsInitMqd s maxNumOfQueuesPerDevice → r.1 = s) ∧
    (env.CallsInitMqd s maxNumOfQueuesPerDevice → ∀ e, env.initMqd = some e → r = (s, some e)) ∧
    (env.CallsInitMqd s maxNumOfQueuesPerDevice → env.initMqd = none →
      (r.2 ≠ none ↔ env.StartFails s properties) ∧ ¬ s.Unchanged r.1) := by
  unfold Hws.createQueueCpsch at hr
  by_cases hcalls : env.CallsInitMqd s maxNumOfQueuesPerDevice
  · rw [if_neg (not_le.mpr hcalls.1), hcalls.2] at hr
    refine ⟨fun h => absurd hcalls h, fun _ e he => ?_, fun _ hinit => ?_⟩
    · rw [he] at hr
      exact hr.symm
    · rw [hinit] at hr
      subst hr
      refine ⟨(Hws.startQueue_snd _ _ _).trans (and_congr_right fun _ => ?_), fun h => ?_⟩
      · simp [HwsEnv.ExecuteFails, Hws.linkQueue, Hws.setQpd]
      · -- the queue is counted whatever happens
        have htotal := h.totalQueueCount
        exact absurd ((Hws.startQueue_totalQueueCount _).symm.trans htotal) (Nat.succ_ne_self _)
  · refine ⟨fun _ => ?_, fun h => absurd h hcalls, fun h => absurd h hcalls⟩
    subst hr
    split_ifs with hmax hmanager
    · rfl
    · rfl
    · exact absurd ⟨not_le.mp hmax, by simpa using hmanager⟩ hcalls

/-! ## The memory of the queue -/

section Gtt

variable {dev : GttDev}

/-- `init_mqd` of the managers, which differ in the size of the queue descriptor: it allocates GTT
memory, and the rest succeeds. `kmalloc` is for the descriptor of the memory. The search for it
needs no more rounds than there are chunks. -/
def initMqd (heap : GttHeap dev) (mqdSize : BitVec 32) (kmalloc : Option ℕ) :
    Option (GttHeap dev × Option Errno) :=
  (kfdGttSaAllocate (dev.numOfChunks + 1) heap.sa mqdSize kmalloc).map fun r =>
    (heap.allocated r, r.ret.map fun _ => .ENOMEM)

/-- `create_queue_cpsch` with the GTT memory of the device. The variable for which memory is
allocated is a field of the queue. -/
def Hws.createQueueGtt (s : Hws) (heap : GttHeap dev) (maxNumOfQueuesPerDevice p : ℕ)
    (mqdSize : BitVec 32) (kmalloc : Option ℕ) (properties : QueueProperties) (env : HwsEnv) :
    Option (Hws × GttHeap dev × Option Errno) :=
  let called := if env.CallsInitMqd s maxNumOfQueuesPerDevice then initMqd heap mqdSize kmalloc
    else some (heap, none)
  called.map fun (heap, ret) =>
    let r := s.createQueueCpsch maxNumOfQueuesPerDevice p (kmalloc.getD 0) properties
      { env with initMqd := ret }
    (r.1, heap, r.2)

/-- **A failed creation leaves everything as it was** exactly if a request for memory that is not
refused finds a free range, and the queue can then be started. With no free range, the descriptor of
the memory is leaked and a field of the queue is passed to `kfree`. A creation that cannot start the
queue leaves it on the list, the counters incremented and the memory allocated. -/
theorem createQueueGtt_unchanged_iff (s : Hws) (heap : GttHeap dev)
    (maxNumOfQueuesPerDevice p : ℕ) (mqdSize : BitVec 32) (kmalloc : Option ℕ)
    (properties : QueueProperties) (env : HwsEnv) :
    ∃ t heap' ret, s.createQueueGtt heap maxNumOfQueuesPerDevice p mqdSize kmalloc properties env =
        some (t, heap', ret) ∧
      ((ret ≠ none → s.Unchanged t ∧ heap' = heap) ↔
        (env.CallsInitMqd s maxNumOfQueuesPerDevice → ¬ dev.Refused mqdSize kmalloc →
          heap.Room mqdSize ∧ ¬ env.StartFails s properties)) := by
  unfold Hws.createQueueGtt
  by_cases hcalls : env.CallsInitMqd s maxNumOfQueuesPerDevice
  · rw [if_pos hcalls, initMqd]
    rcases kfdGttSaAllocate_spec (Nat.lt_succ_self _) heap.sa mqdSize kmalloc with
      ⟨hrefused, e, -, heq⟩ | ⟨hnot, d, -, ⟨a, b, hfree, heq⟩ | ⟨hnone, heq⟩⟩ <;>
      refine ⟨_, _, _, by rw [heq]; rfl, ?_⟩
    · obtain ⟨-, hfails, -⟩ := s.createQueueCpsch_spec maxNumOfQueuesPerDevice p (kmalloc.getD 0)
        properties { env with initMqd := some .ENOMEM } rfl
      refine iff_of_true (fun _ => ⟨?_, rfl⟩) fun _ hnot => absurd hrefused hnot
      exact (hfails hcalls .ENOMEM rfl) ▸ .refl s
    · obtain ⟨-, -, hstart⟩ := s.createQueueCpsch_spec maxNumOfQueuesPerDevice p (kmalloc.getD 0)
        properties { env with initMqd := none } rfl
      obtain ⟨hret, hchanged⟩ := hstart hcalls rfl
      refine ⟨fun hsafe _ _ => ⟨⟨a, b, hfree⟩, fun hfails => hchanged (hsafe (hret.mpr hfails)).1⟩,
        fun hsafe hfails => absurd (hret.mp hfails) (hsafe hcalls hnot).2⟩
    · obtain ⟨-, hfails, -⟩ := s.createQueueCpsch_spec maxNumOfQueuesPerDevice p (kmalloc.getD 0)
        properties { env with initMqd := some .ENOMEM } rfl
      refine iff_of_false (fun hsafe => ?_) fun hsafe =>
        GttHeap.not_room hnone (hsafe hcalls hnot).1
      have hheap := (hsafe (by simp [hfails hcalls .ENOMEM rfl])).2
      exact absurd (congrArg (·.callerFrees) hheap) (Nat.succ_ne_self _)
  · obtain ⟨hsame, -⟩ := s.createQueueCpsch_spec maxNumOfQueuesPerDevice p (kmalloc.getD 0)
      properties { env with initMqd := none } rfl
    rw [if_neg hcalls]
    refine ⟨_, _, _, rfl, iff_of_true (fun _ => ⟨?_, rfl⟩) fun h => absurd h hcalls⟩
    rw [hsame hcalls]
    exact .refl s

end Gtt

/-- A compute queue of one page that runs. -/
def QueueProperties.running : QueueProperties := ⟨.compute, 0x1000, 0x1000, 100, false⟩

/-- A process with one running queue. -/
def Hws.oneQueue : Hws :=
  (((Hws.init id).registerProcess 1 true).1.createQueueCpsch 4096 1 0 .running .granted).1

/-- **A queue that could not be started stays on the list.** There is no memory for the runlist with
a second queue. The creation fails, but the queue is on the list and counted, and its memory is not
released. -/
theorem createQueueGtt_leaves_queue :
    (∃ t heap, Hws.oneQueue.createQueueGtt (.start eightChunks fun _ => false) 4096 1 4096 (some 1)
          .running { HwsEnv.granted with sendRunlist := some .ENOMEM } =
        some (t, heap, some .ENOMEM) ∧
      (t.qpd 1).queuesList.length = 2 ∧ t.totalQueueCount = 2 ∧ heap.descs = [1]) ∧
    (Hws.oneQueue.qpd 1).queuesList.length = 1 ∧ Hws.oneQueue.totalQueueCount = 1 :=
  ⟨⟨_, _, rfl, by decide, by decide, by decide⟩, by decide, by decide⟩

end Amdkfd
