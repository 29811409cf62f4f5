import AmdgpuPro.Kfd.Hws
import AmdgpuPro.Lib.Tally

set_option autoImplicit false

/-!
# The runlist

The runlist is a buffer of packets: for each process a packet that maps the process, which announces
the number of its queues, and then a packet for each queue that is active. The buffer is allocated
before it is filled, with a size computed from the counters of the queue manager.

## Main definitions

* `Amdkfd.Hws.pmCreateRunlistIb` — the runlist, or a `BUG` when the buffer is too small.
* `Hws.RunlistOk` — what a runlist should be.
* `HwsOp`, `Hws.step` — the operations that succeed.
* `HwsOp.Simple` — a process is registered once and debugged once at a time, and its queues are
  active and fewer than 1024.

## Main results

* `Amdkfd.Hws.pmCreateRunlistIb_eq` — the runlist is complete if the counters cover the lists.
* `runlist_ok` — in every run of simple operations, all runlists are right.
* `runlist_announces_inactive` — a process with a queue that is not active announces more queues
  than follow.

## Design

The invariant bounds the counter `queue_count` from below by what any set of processes has: the
active queues of the user and all queues of the kernel.
-/

namespace Amdkfd

open Amdgpu (Errno)

/-! ## The packets -/

/-- The packets of a runlist: the process with its id, whether it is debugged and the number of
queues that is announced; a queue and whether it is static; and the packet that makes the list start
again. -/
inductive RunlistPacket
  | mapProcess (pasid : ℕ) (diqEnable : Bool) (numQueues : ℕ)
  | mapQueue (mqd : ℕ) (type : HwsQueueType) (useStatic : Bool)
  | runlist (ibSizeInDwords : ℕ)
  deriving DecidableEq

/-- The sizes of `struct pm4_map_process`, `struct pm4_map_queues` and `struct pm4_runlist`. -/
def RunlistPacket.size : RunlistPacket → ℕ
  | mapProcess .. => 40
  | mapQueue .. => 28
  | runlist .. => 16

/-- `pm_create_map_process`: all queues of the user are counted, and the field has 10 bits. -/
def pmCreateMapProcess (qpd : Qpd) : RunlistPacket :=
  .mapProcess qpd.pasid qpd.isDebug (if qpd.isDebug then 0 else qpd.queuesList.length % 1024)

/-- `pm_create_map_queue` and `pm_create_map_queue_vi`, whose packets have the same size: there are
no static queues under SDMA. -/
def pmCreateMapQueue (isStatic : Bool) (q : HwsQueue) : RunlistPacket :=
  .mapQueue q.mqd q.properties.type (isStatic && q.properties.type ≠ .sdma)

/-- `inc_wptr`; `none` is the `BUG`. -/
def incWptr (wptr incrementBytes bufferSizeBytes : ℕ) : Option ℕ :=
  let temp := wptr + incrementBytes / 4
  if bufferSizeBytes < temp * 4 then none else some temp

/-- The buffer: `rl_wptr`, which counts dwords, and what was written. -/
structure RlBuffer where
  wptr : ℕ
  packets : List RunlistPacket

/-- The loop over the queues of a list. -/
def mapQueueList (allocSizeBytes : ℕ) (isDebug : Bool) : List HwsQueue → RlBuffer → Option RlBuffer
  | [], b => some b
  | q :: qs, b =>
    if !q.properties.isActive then mapQueueList allocSizeBytes isDebug qs b
    else
      match incWptr b.wptr 28 allocSizeBytes with
      | none => none
      | some wptr =>
        mapQueueList allocSizeBytes isDebug qs ⟨wptr, b.packets ++ [pmCreateMapQueue isDebug q]⟩

/-- A runlist, an error or a `BUG`. -/
inductive RunlistIb
  | ok (packets : List RunlistPacket)
  | error (e : Errno)
  | bug

namespace Hws

/-- `pm_calc_rlib_size`: the size, and whether there is over-subscription. The packets for queues
have the same size on both chips. -/
def pmCalcRlibSize (s : Hws) : ℕ × Bool :=
  let overSubscription := decide (1 < s.processesCount ∨ 3 * 8 < s.queueCount)
  let rlibSize := s.processesCount * 40 + s.queueCount * 28
  (if overSubscription then rlibSize + 16 else rlibSize, overSubscription)

/-- The loop over the processes. -/
def mapProcessList (s : Hws) (allocSizeBytes : ℕ) : List ℕ → ℕ → RlBuffer → RunlistIb
  | [], _, b => .ok b.packets
  | p :: ps, processesMapped, b =>
    if s.processesCount ≤ processesMapped then .error .ENOMEM
    else
      match incWptr b.wptr 40 allocSizeBytes with
      | none => .bug
      | some wptr =>
        match mapQueueList allocSizeBytes (s.qpd p).isDebug (s.qpd p).privQueueList
            ⟨wptr, b.packets ++ [pmCreateMapProcess (s.qpd p)]⟩ with
        | none => .bug
        | some b =>
          match mapQueueList allocSizeBytes (s.qpd p).isDebug (s.qpd p).queuesList b with
          | none => .bug
          | some b => mapProcessList s allocSizeBytes ps (processesMapped + 1) b

/-- `pm_create_runlist_ib`; `alloc` is the answer of `kfd_gtt_sa_allocate`. -/
def pmCreateRunlistIb (s : Hws) (alloc : Option Errno) : RunlistIb :=
  match alloc with
  | some e => .error e
  | none =>
    match s.mapProcessList s.pmCalcRlibSize.1 s.queues 0 ⟨0, []⟩ with
    | .ok packets =>
      .ok (if s.pmCalcRlibSize.2 then packets ++ [.runlist (s.pmCalcRlibSize.1 / 4)] else packets)
    | .error e => .error e
    | .bug => .bug

/-! ## What a runlist should be -/

/-- The queues of a process that are active, in the order of the packets. -/
def activeQueues (s : Hws) (p : ℕ) : List HwsQueue :=
  ((s.qpd p).privQueueList ++ (s.qpd p).queuesList).filter fun q => q.properties.isActive

/-- The packets of a process: one for the process, and one for each active queue. -/
def processPackets (s : Hws) (p : ℕ) : List RunlistPacket :=
  pmCreateMapProcess (s.qpd p) :: (s.activeQueues p).map (pmCreateMapQueue (s.qpd p).isDebug)

/-- What a runlist should be: the packets of the processes, each process once, and at the end the
packet for over-subscription; a process that is not debugged announces as many queues as follow; and
the list fits into the buffer. -/
structure RunlistOk (s : Hws) : Prop where
  built : s.pmCreateRunlistIb none = .ok (s.queues.flatMap s.processPackets ++
    if s.pmCalcRlibSize.2 then [.runlist (s.pmCalcRlibSize.1 / 4)] else [])
  nodup : s.queues.Nodup
  announced : ∀ p ∈ s.queues, (s.qpd p).isDebug = false → pmCreateMapProcess (s.qpd p) =
    .mapProcess (s.qpd p).pasid false (s.activeQueues p).length
  fits : tally RunlistPacket.size (s.queues.flatMap s.processPackets ++
    if s.pmCalcRlibSize.2 then [.runlist (s.pmCalcRlibSize.1 / 4)] else []) ≤ s.pmCalcRlibSize.1

end Hws

/-! ## The runlist is complete -/

theorem incWptr_eq_some {wptr size : ℕ} (k : ℕ) (h : 4 * wptr + 4 * k ≤ size) :
    incWptr wptr (4 * k) size = some (wptr + k) := by
  have hk : 4 * k / 4 = k := by omega
  simp only [incWptr, hk]
  exact if_neg (by omega)

/-- The packets of a list of queues fit if there is room for the active ones. -/
theorem mapQueueList_eq {size : ℕ} {isDebug : Bool} (qs : List HwsQueue) (b : RlBuffer)
    (hfit : 4 * b.wptr + 28 * (qs.filter fun q => q.properties.isActive).length ≤ size) :
    mapQueueList size isDebug qs b =
      some ⟨b.wptr + 7 * (qs.filter fun q => q.properties.isActive).length,
        b.packets ++
          (qs.filter fun q => q.properties.isActive).map (pmCreateMapQueue isDebug)⟩ := by
  induction qs generalizing b with
  | nil => simp [mapQueueList]
  | cons q qs ih =>
    cases hactive : q.properties.isActive with
    | false =>
      simp only [hactive, List.filter_cons, Bool.false_eq_true, if_false] at hfit ⊢
      rw [mapQueueList, hactive]
      exact ih b hfit
    | true =>
      simp only [hactive, List.filter_cons, if_true, List.length_cons] at hfit ⊢
      have hinc : incWptr b.wptr 28 size = some (b.wptr + 7) := incWptr_eq_some 7 (by omega)
      rw [mapQueueList, hactive]
      simp only [Bool.not_true, Bool.false_eq_true, if_false, hinc]
      rw [ih _ (by simp only; omega)]
      simp only [List.map_cons, List.append_assoc, List.singleton_append, Option.some.injEq,
        RlBuffer.mk.injEq, and_true]
      omega

namespace Hws

variable {s : Hws}

/-- The packets of processes fit if there is room for all of them. -/
theorem mapProcessList_eq {size : ℕ} (ps : List ℕ) (mapped : ℕ) (b : RlBuffer)
    (hcount : mapped + ps.length ≤ s.processesCount)
    (hfit : 4 * b.wptr + 40 * ps.length + 28 * tally (fun p => (s.activeQueues p).length) ps ≤
      size) :
    s.mapProcessList size ps mapped b = .ok (b.packets ++ ps.flatMap s.processPackets) := by
  induction ps generalizing mapped b with
  | nil => simp [mapProcessList]
  | cons p ps ih =>
    simp only [List.length_cons, tally_cons] at hcount hfit
    have hactive : (s.activeQueues p).length =
        ((s.qpd p).privQueueList.filter fun q => q.properties.isActive).length +
          ((s.qpd p).queuesList.filter fun q => q.properties.isActive).length := by
      rw [activeQueues, List.filter_append, List.length_append]
    have hinc : incWptr b.wptr 40 size = some (b.wptr + 10) := incWptr_eq_some 10 (by omega)
    rw [mapProcessList, if_neg (by omega)]
    simp only [hinc]
    rw [mapQueueList_eq _ _ (by simp only; omega)]
    simp only
    rw [mapQueueList_eq _ _ (by simp only; omega)]
    simp only
    rw [ih _ _ (by omega) (by simp only; omega)]
    simp only [processPackets, activeQueues, List.filter_append, List.map_append,
      List.flatMap_cons, List.cons_append, List.append_assoc, List.nil_append]

/-- **The runlist is complete** if the counters cover the lists. -/
theorem pmCreateRunlistIb_eq (hcount : s.queues.length ≤ s.processesCount)
    (hqueues : tally (fun p => (s.activeQueues p).length) s.queues ≤ s.queueCount) :
    s.pmCreateRunlistIb none = .ok (s.queues.flatMap s.processPackets ++
      if s.pmCalcRlibSize.2 then [.runlist (s.pmCalcRlibSize.1 / 4)] else []) := by
  have hsize : s.processesCount * 40 + s.queueCount * 28 ≤ s.pmCalcRlibSize.1 := by
    simp only [pmCalcRlibSize]
    split <;> omega
  rw [pmCreateRunlistIb, mapProcessList_eq s.queues 0 ⟨0, []⟩ (by omega) (by simp only; omega)]
  simp only [List.nil_append]
  cases s.pmCalcRlibSize.2 <;> simp

/-- The size of the packets of a process. -/
theorem tally_size_processPackets (p : ℕ) :
    tally RunlistPacket.size (s.processPackets p) = 40 + 28 * (s.activeQueues p).length := by
  have hqueues : ∀ qs : List HwsQueue,
      tally RunlistPacket.size (qs.map (pmCreateMapQueue (s.qpd p).isDebug)) = 28 * qs.length := by
    intro qs
    induction qs with
    | nil => rfl
    | cons q qs ih =>
      rw [List.map_cons, tally_cons, ih, List.length_cons, pmCreateMapQueue, RunlistPacket.size]
      omega
  rw [processPackets, tally_cons, hqueues, pmCreateMapProcess, RunlistPacket.size]

/-- The runlist fits into the buffer. -/
theorem tally_size_le (hcount : s.queues.length ≤ s.processesCount)
    (hqueues : tally (fun p => (s.activeQueues p).length) s.queues ≤ s.queueCount) :
    tally RunlistPacket.size (s.queues.flatMap s.processPackets ++
      if s.pmCalcRlibSize.2 then [.runlist (s.pmCalcRlibSize.1 / 4)] else []) ≤
        s.pmCalcRlibSize.1 := by
  have hall : ∀ ps : List ℕ, tally RunlistPacket.size (ps.flatMap s.processPackets) =
      40 * ps.length + 28 * tally (fun p => (s.activeQueues p).length) ps := by
    intro ps
    induction ps with
    | nil => rfl
    | cons p ps ih =>
      rw [List.flatMap_cons, tally_append, ih, tally_size_processPackets, tally_cons,
        List.length_cons]
      omega
  rw [tally_append, hall]
  simp only [pmCalcRlibSize]
  split
  · simp only [tally_cons, tally_nil, RunlistPacket.size]
    omega
  · simp only [tally_nil]
    omega

end Hws

/-! ## Runs -/

/-- The operations on queues and processes. A queue is named by its process and its position. -/
inductive HwsOp
  | register (p : ℕ) (kzalloc : Bool)
  | unregister (p : ℕ)
  | create (p mqd : ℕ) (properties : QueueProperties) (env : HwsEnv)
  | destroy (p i : ℕ) (env : HwsEnv)
  | update (p i : ℕ) (properties : QueueProperties) (env : HwsEnv)
  | createKernel (p : ℕ) (kq : HwsQueue) (env : HwsEnv)
  | destroyKernel (p i : ℕ) (env env' : HwsEnv)

namespace Hws

/-- The state of a call that returned 0. -/
def succeeded (r : Hws × Option Errno) : Option Hws :=
  match r.2 with
  | none => some r.1
  | some _ => none

/-- An operation that succeeds. -/
def step (maxNumOfQueuesPerDevice : ℕ) (s : Hws) : HwsOp → Option Hws
  | .register p kzalloc => succeeded (s.registerProcess p kzalloc)
  | .unregister p => if (s.unregisterProcess p).2 then some (s.unregisterProcess p).1 else none
  | .create p mqd properties env =>
    succeeded (s.createQueueCpsch maxNumOfQueuesPerDevice p mqd properties env)
  | .destroy p i env =>
    match (s.qpd p).queuesList[i]? with
    | none => none
    | some q => succeeded (s.destroyQueueCpsch p i q env)
  | .update p i properties env =>
    match (s.qpd p).queuesList[i]? with
    | none => none
    | some q => succeeded (s.updateQueue p i q properties env)
  | .createKernel p kq env =>
    succeeded (s.createKernelQueueCpsch maxNumOfQueuesPerDevice p kq env)
  | .destroyKernel p i env env' =>
    match (s.qpd p).privQueueList[i]? with
    | none => none
    | some _ => some (s.destroyKernelQueueCpsch p i env env')

end Hws

/-- A process is registered once, has at most one queue of the kernel and fewer than 1024 queues of
the user, and these are all active. -/
def HwsOp.Simple (s : Hws) : HwsOp → Prop
  | .register p _ => p ∉ s.queues
  | .create p _ properties _ => properties.Runs = true ∧ (s.qpd p).queuesList.length < 1023
  | .update _ _ properties _ => properties.Runs = true
  | .createKernel p _ _ => (s.qpd p).privQueueList = []
  | _ => True

namespace Hws

/-- 1 for a queue that is active. -/
def activeWeight (q : HwsQueue) : ℕ := if q.properties.isActive then 1 else 0

/-- What a process has in the counter `queue_count`: its active queues, and all queues of the
kernel. -/
def load (s : Hws) (p : ℕ) : ℕ :=
  tally activeWeight (s.qpd p).queuesList + (s.qpd p).privQueueList.length

/-- What the lists of a process should be. -/
structure QpdOk (qpd : Qpd) : Prop where
  active : ∀ q ∈ qpd.queuesList, q.properties.isActive = true
  length : qpd.queuesList.length < 1024
  kernel : qpd.privQueueList.length ≤ 1
  debug : qpd.isDebug = false → qpd.privQueueList = []

/-- The invariant. -/
structure Inv (s : Hws) : Prop where
  nodup : s.queues.Nodup
  processes : s.processesCount = s.queues.length
  covers : Covers s.queueCount s.load
  qpd : ∀ p, QpdOk (s.qpd p)

theorem init_inv (pasid : ℕ → ℕ) : (init pasid).Inv where
  nodup := List.nodup_nil
  processes := rfl
  covers := Covers.zero fun _ => rfl
  qpd _ := ⟨by simp [init], by simp [init], by simp [init], by simp [init]⟩

/-- The active queues are at most what is counted. -/
theorem length_activeQueues_le (s : Hws) (p : ℕ) : (s.activeQueues p).length ≤ s.load p := by
  have huser : ∀ qs : List HwsQueue,
      (qs.filter fun q => q.properties.isActive).length = tally activeWeight qs := by
    intro qs
    induction qs with
    | nil => rfl
    | cons q qs ih =>
      rw [tally_cons, ← ih, List.filter_cons, activeWeight]
      split <;> simp [Nat.add_comm]
  have hkernel := List.length_filter_le (fun q : HwsQueue => q.properties.isActive)
    (s.qpd p).privQueueList
  rw [activeQueues, List.filter_append, List.length_append, huser (s.qpd p).queuesList, load]
  omega

/-- **The invariant makes runlists right.** -/
theorem Inv.runlistOk {s : Hws} (h : s.Inv) : s.RunlistOk := by
  have hqueues : tally (fun p => (s.activeQueues p).length) s.queues ≤ s.queueCount :=
    (tally_le_tally fun p _ => s.length_activeQueues_le p).trans (h.covers.tally_le h.nodup)
  refine ⟨pmCreateRunlistIb_eq h.processes.ge hqueues, h.nodup, fun p _ hdebug => ?_,
    tally_size_le h.processes.ge hqueues⟩
  have hp := h.qpd p
  -- without a queue of the kernel, the active queues are the queues of the user
  have hactive : s.activeQueues p = (s.qpd p).queuesList := by
    rw [activeQueues, hp.debug hdebug, List.nil_append]
    exact List.filter_eq_self.mpr hp.active
  simp only [pmCreateMapProcess, hactive, hdebug, Bool.false_eq_true, if_false,
    Nat.mod_eq_of_lt hp.length]

/-! ## The operations keep the invariant -/

variable {s t : Hws}

/-- Preemption and submission keep the invariant. -/
theorem Inv.sameQueues (h : s.Inv) (hsame : SameQueues s t) : t.Inv where
  nodup := by rw [hsame.queues]; exact h.nodup
  processes := by rw [hsame.processesCount, hsame.queues]; exact h.processes
  covers := by
    have hload : t.load = s.load := by
      funext p
      rw [load, load, hsame.qpd]
    rw [hsame.queueCount, hload]
    exact h.covers
  qpd p := by rw [hsame.qpd]; exact h.qpd p

/-- The lists of one process change, and the counter with them. -/
theorem Inv.change (h : s.Inv) {p : ℕ} {qpd : Qpd} (hqueues : t.queues = s.queues)
    (hprocesses : t.processesCount = s.processesCount)
    (hqpd : t.qpd = Function.update s.qpd p qpd) (hok : QpdOk qpd)
    (hcount : tally activeWeight qpd.queuesList + qpd.privQueueList.length + s.queueCount =
      s.load p + t.queueCount) : t.Inv where
  nodup := by rw [hqueues]; exact h.nodup
  processes := by rw [hprocesses, hqueues]; exact h.processes
  covers := by
    refine h.covers.update p (fun q hq => ?_) ?_
    · rw [load, load, hqpd, Function.update_of_ne hq]
    · rw [load, hqpd, Function.update_self]
      exact hcount
  qpd q := by
    rw [hqpd]
    by_cases hq : q = p
    · rw [hq, Function.update_self]
      exact hok
    · rw [Function.update_of_ne hq]
      exact h.qpd q

theorem succeeded_eq_some {r : Hws × Option Errno} :
    succeeded r = some t ↔ r = (t, none) := by
  obtain ⟨s, _ | e⟩ := r <;> simp [succeeded]

theorem activeWeight_of_active {q : HwsQueue} (h : q.properties.isActive = true) :
    activeWeight q = 1 := if_pos h

variable {maxNumOfQueuesPerDevice p i : ℕ} {env : HwsEnv}

/-- A queue that is active is created. -/
theorem Inv.create (h : s.Inv) {mqd : ℕ} {properties : QueueProperties}
    (hruns : properties.Runs = true) (hlength : (s.qpd p).queuesList.length < 1023)
    (hstep : s.createQueueCpsch maxNumOfQueuesPerDevice p mqd properties env = (t, none)) :
    t.Inv := by
  have hactive : (HwsQueue.mk mqd (updateMqd properties)).properties.isActive = true := hruns
  unfold createQueueCpsch at hstep
  split_ifs at hstep
  · simp at hstep
  · simp at hstep
  cases hinit : env.initMqd with
  | some e => simp [hinit] at hstep
  | none =>
    simp only [hinit, startQueue, if_pos hactive, Prod.mk.injEq] at hstep
    obtain ⟨rfl, -⟩ := hstep
    have hq : QpdOk { s.qpd p with
        queuesList := ⟨mqd, updateMqd properties⟩ :: (s.qpd p).queuesList } := by
      have hp := h.qpd p
      refine ⟨fun q hq => ?_, by simp only [List.length_cons]; omega, hp.kernel, hp.debug⟩
      rcases List.mem_cons.mp hq with rfl | hq
      · exact hactive
      · exact hp.active q hq
    have hlinked : Inv { s.linkQueue p ⟨mqd, updateMqd properties⟩ with
        queueCount := (s.linkQueue p ⟨mqd, updateMqd properties⟩).queueCount + 1 } := by
      refine h.change rfl rfl rfl hq ?_
      simp only [tally_cons, activeWeight_of_active hactive, load, linkQueue, setQpd]
      omega
    have hexec := hlinked.sameQueues (executeQueuesCpsch_sameQueues _ env)
    exact ⟨hexec.nodup, hexec.processes, hexec.covers, hexec.qpd⟩

/-- A queue is destroyed. -/
theorem Inv.destroy (h : s.Inv) {q : HwsQueue} (hget : (s.qpd p).queuesList[i]? = some q)
    (hstep : s.destroyQueueCpsch p i q env = (t, none)) : t.Inv := by
  have hp := h.qpd p
  have hactive : q.properties.isActive = true := hp.active q (List.mem_of_getElem? hget)
  have htally := tally_eraseIdx activeWeight hget
  have hle := h.covers.le p
  rw [activeWeight_of_active hactive] at htally
  rw [load] at hle
  unfold destroyQueueCpsch at hstep
  split_ifs at hstep
  · simp at hstep
  · simp at hstep
  simp only [Prod.mk.injEq, and_true] at hstep
  subst hstep
  have hq : QpdOk { s.qpd p with queuesList := (s.qpd p).queuesList.eraseIdx i } := by
    refine ⟨fun q hq => hp.active q (List.mem_of_mem_eraseIdx hq), ?_, hp.kernel, hp.debug⟩
    exact (List.length_eraseIdx_le _ _).trans_lt hp.length
  have hunlinked : (s.unlinkQueue p i q).Inv := by
    refine h.change rfl rfl rfl hq ?_
    simp only [unlinkQueue, hactive, if_true, load]
    omega
  have hexec := hunlinked.sameQueues (executeQueuesCpsch_sameQueues _ env)
  exact ⟨hexec.nodup, hexec.processes, hexec.covers, hexec.qpd⟩

/-- A queue is changed and stays active. -/
theorem Inv.update (h : s.Inv) {q : HwsQueue} {properties : QueueProperties}
    (hget : (s.qpd p).queuesList[i]? = some q) (hruns : properties.Runs = true)
    (hstep : s.updateQueue p i q properties env = (t, none)) : t.Inv := by
  have hp := h.qpd p
  have hactive : q.properties.isActive = true := hp.active q (List.mem_of_getElem? hget)
  have hactive' : (HwsQueue.mk q.mqd (updateMqd properties)).properties.isActive = true := hruns
  have htally := tally_set activeWeight hget ⟨q.mqd, updateMqd properties⟩
  rw [activeWeight_of_active hactive, activeWeight_of_active hactive'] at htally
  unfold updateQueue at hstep
  split_ifs at hstep
  · simp at hstep
  have hq : QpdOk { s.qpd p with
      queuesList := (s.qpd p).queuesList.set i ⟨q.mqd, updateMqd properties⟩ } := by
    refine ⟨fun q' hq' => ?_, by simpa using hp.length, hp.kernel, hp.debug⟩
    rcases List.mem_or_eq_of_mem_set hq' with hq' | rfl
    · exact hp.active q' hq'
    · exact hactive'
  have hreplaced : (s.replaceQueue p i q ⟨q.mqd, updateMqd properties⟩).Inv := by
    refine h.change rfl rfl rfl hq ?_
    have hruns' : (updateMqd properties).isActive = true := hruns
    simp only [replaceQueue, hactive, hruns', not_true_eq_false, and_false, false_and, if_false,
      load]
    omega
  have hexec := hreplaced.sameQueues (executeQueuesCpsch_sameQueues _ env)
  rw [hstep] at hexec
  exact hexec

/-- A queue of the kernel is created. -/
theorem Inv.createKernel (h : s.Inv) {kq : HwsQueue} (hnone : (s.qpd p).privQueueList = [])
    (hstep : s.createKernelQueueCpsch maxNumOfQueuesPerDevice p kq env = (t, none)) : t.Inv := by
  have hp := h.qpd p
  unfold createKernelQueueCpsch at hstep
  split_ifs at hstep
  · simp at hstep
  simp only [Prod.mk.injEq, and_true] at hstep
  subst hstep
  have hq : QpdOk { s.qpd p with
      privQueueList := kq :: (s.qpd p).privQueueList, isDebug := true } :=
    ⟨hp.active, hp.length, by simp [hnone], by simp⟩
  have hlinked : (s.linkKernelQueue p kq).Inv := by
    refine h.change rfl rfl rfl hq ?_
    simp only [linkKernelQueue, load, List.length_cons]
    omega
  exact hlinked.sameQueues (executeQueuesCpsch_sameQueues _ env)

/-- A queue of the kernel is destroyed. -/
theorem Inv.destroyKernel (h : s.Inv) {kq : HwsQueue} {env' : HwsEnv}
    (hget : (s.qpd p).privQueueList[i]? = some kq) :
    (s.destroyKernelQueueCpsch p i env env').Inv := by
  have hpre := destroyQueuesCpsch_sameQueues s env
  have h' := h.sameQueues hpre
  rw [← hpre.qpd] at hget
  unfold destroyKernelQueueCpsch
  generalize (s.destroyQueuesCpsch env).1 = u at h' hget
  have hp := h'.qpd p
  have hlt : i < (u.qpd p).privQueueList.length := (List.getElem?_eq_some_iff.mp hget).1
  have hlen : ((u.qpd p).privQueueList.eraseIdx i).length = 0 := by
    rw [List.length_eraseIdx_of_lt hlt]
    have := hp.kernel
    omega
  have hle := h'.covers.le p
  rw [load] at hle
  have hq : QpdOk { u.qpd p with
      privQueueList := (u.qpd p).privQueueList.eraseIdx i, isDebug := false } :=
    ⟨hp.active, hp.length, by simp only [hlen]; omega, fun _ => List.length_eq_zero_iff.mp hlen⟩
  have hunlinked : (u.unlinkKernelQueue p i).Inv := by
    refine h'.change rfl rfl rfl hq ?_
    have := hp.kernel
    simp only [unlinkKernelQueue, load, hlen]
    omega
  have hexec := hunlinked.sameQueues (executeQueuesCpsch_sameQueues _ env')
  exact ⟨hexec.nodup, hexec.processes, hexec.covers, hexec.qpd⟩

/-- **Every simple operation keeps the invariant.** -/
theorem Inv.step (h : s.Inv) {op : HwsOp} (hsimple : op.Simple s)
    (hstep : s.step maxNumOfQueuesPerDevice op = some t) : t.Inv := by
  cases op with
  | register p kzalloc =>
    simp only [Hws.step, succeeded_eq_some, registerProcess] at hstep
    split_ifs at hstep
    · cases hstep
      exact ⟨List.nodup_cons.mpr ⟨hsimple, h.nodup⟩, by simp [h.processes], h.covers, h.qpd⟩
    · simp at hstep
  | unregister p =>
    by_cases hmem : p ∈ s.queues
    · simp only [Hws.step, unregisterProcess, if_pos hmem, if_true, Option.some.injEq] at hstep
      subst hstep
      refine ⟨h.nodup.erase p, ?_, h.covers, h.qpd⟩
      simp only [List.length_erase_of_mem hmem, h.processes]
    · simp [Hws.step, unregisterProcess, hmem] at hstep
  | create p mqd properties env =>
    exact h.create hsimple.1 hsimple.2 (succeeded_eq_some.mp hstep)
  | destroy p i env =>
    simp only [Hws.step] at hstep
    cases hget : (s.qpd p).queuesList[i]? with
    | none => simp [hget] at hstep
    | some q =>
      simp only [hget] at hstep
      exact h.destroy hget (succeeded_eq_some.mp hstep)
  | update p i properties env =>
    simp only [Hws.step] at hstep
    cases hget : (s.qpd p).queuesList[i]? with
    | none => simp [hget] at hstep
    | some q =>
      simp only [hget] at hstep
      exact h.update hget hsimple (succeeded_eq_some.mp hstep)
  | createKernel p kq env =>
    exact h.createKernel hsimple (succeeded_eq_some.mp hstep)
  | destroyKernel p i env env' =>
    simp only [Hws.step] at hstep
    cases hget : (s.qpd p).privQueueList[i]? with
    | none => simp [hget] at hstep
    | some kq =>
      simp only [hget, Option.some.injEq] at hstep
      subst hstep
      exact h.destroyKernel hget

end Hws

/-- **Runlists are right in every run of simple operations.** -/
theorem runlist_ok {maxNumOfQueuesPerDevice : ℕ} {pasid : ℕ → ℕ} {ops : List HwsOp} {s : Hws}
    (h : Transition.Run (Transition.Guarded
      (fun s op t => Hws.step maxNumOfQueuesPerDevice s op = some t) (fun s op => op.Simple s))
      (Hws.init pasid) ops s) : s.RunlistOk :=
  (h.invariant Hws.Inv (fun _ _ _ hinv hstep => hinv.step hstep.2 hstep.1)
    (Hws.init_inv pasid)).runlistOk

/-- A process with one running queue. -/
theorem runlist_ok_oneQueue :
    ∃ s, Transition.Run (Transition.Guarded
        (fun s op t => Hws.step 4096 s op = some t) (fun s op => op.Simple s)) (Hws.init id)
        [.register 1 true, .create 1 0 .running .granted] s ∧
      s.pmCreateRunlistIb none = .ok [.mapProcess 1 false 1, .mapQueue 0 .compute false] ∧
      s.RunlistOk := by
  obtain ⟨s, hrun, hlist⟩ : ∃ s, Transition.Run (Transition.Guarded
      (fun s op t => Hws.step 4096 s op = some t) (fun s op => op.Simple s)) (Hws.init id)
      [.register 1 true, .create 1 0 .running .granted] s ∧
      s.pmCreateRunlistIb none = .ok [.mapProcess 1 false 1, .mapQueue 0 .compute false] :=
    ⟨_, .cons ⟨rfl, List.not_mem_nil⟩ (.single ⟨rfl, by decide, by decide⟩), rfl⟩
  exact ⟨s, hrun, hlist, runlist_ok hrun⟩

/-- **A process announces queues that do not follow.** The second queue gets no time, so it is not
active. It is counted in the packet of the process, but there is no packet for it. -/
theorem runlist_announces_inactive :
    ∃ s, Transition.Run (fun s op t => Hws.step 4096 s op = some t) (Hws.init id)
        [.register 1 true, .create 1 0 .running .granted,
          .create 1 1 { QueueProperties.running with queuePercent := 0 } .granted] s ∧
      (s.qpd 1).isDebug = false ∧
      s.pmCreateRunlistIb none = .ok [.mapProcess 1 false 2, .mapQueue 0 .compute false] :=
  ⟨_, .cons rfl (.cons rfl (.single rfl)), rfl, rfl⟩

end Amdkfd
