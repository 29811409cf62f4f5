import AmdgpuPro.Lib.Transition
import Mathlib.Tactic

set_option autoImplicit false

/-!
# Preamble IBs

An IB that is flagged as preamble sets up the state of a context. `amdgpu_ib_schedule` drops it if
the last job on the ring came from the same context, unless the job is marked as the one with the
first preamble of its context. `amdgpu_cs_ib_fill` sets the mark; but it tests the flags of the IB
of the job, which are zero at this time, before it stores the flags of the chunk there.

## Main definitions

* `Amdgpu.RingJobs.Step` — submissions of all contexts to a ring.
* `RunJob.Ok` — the first preamble of a context is emitted, and a preamble is dropped only behind a
  job of the same context.

## Main results

* `Amdgpu.preamble_ok_iff` — the jobs of every run.
-/

namespace Amdgpu

open Transition

/-! ## The two functions -/

/-- `AMDGPU_IB_FLAG_PREAMBLE` -/
def ibFlagPreamble : BitVec 32 := 2

/-- `AMDGPU_PREAMBLE_IB_PRESENT` -/
def preambleIbPresent : BitVec 32 := 1

/-- `AMDGPU_PREAMBLE_IB_PRESENT_FIRST` -/
def preambleIbPresentFirst : BitVec 32 := 2

/-- `AMDGPU_HAVE_CTX_SWITCH` -/
def haveCtxSwitch : BitVec 32 := 4

/-- `ctx->preamble_presented`, and of the job `preamble_status` and the flags of its IBs. -/
structure PreambleFill where
  presented : Bool
  status : BitVec 32
  flags : List (BitVec 32)

/-- An IB in the loop of `amdgpu_cs_ib_fill`: the flags it has, and those of its chunk. -/
def csIbFillIb (ib chunk : BitVec 32) (st : PreambleFill) : PreambleFill :=
  let st :=
    if ib &&& ibFlagPreamble = 0 then st
    else
      { st with
        presented := true
        status := st.status ||| preambleIbPresent |||
          if st.presented then 0 else preambleIbPresentFirst }
  { st with flags := st.flags ++ [chunk] }

/-- The loop of `amdgpu_cs_ib_fill` over the chunks with IBs. `amdgpu_job_alloc` fills the job, with
its IBs, with zeros. -/
def csIbFillFlags (presented : Bool) (chunks : List (BitVec 32)) : PreambleFill :=
  chunks.foldl (fun st chunk => csIbFillIb 0 chunk st) ⟨presented, 0, []⟩

/-- The loop of `amdgpu_ib_schedule` over the IBs of a job, for a ring that emits context control:
each IB with whether it is emitted. -/
def ibScheduleEmits (currentCtx fenceCtx : ℕ) (preambleStatus : BitVec 32)
    (flags : List (BitVec 32)) : List (BitVec 32 × Bool) :=
  let skipPreamble := currentCtx = fenceCtx
  let status := (if currentCtx ≠ fenceCtx then haveCtxSwitch else 0) ||| preambleStatus
  flags.map fun f =>
    (f, !(f &&& ibFlagPreamble ≠ 0 && skipPreamble && status &&& preambleIbPresentFirst = 0))

/-! ## A ring -/

/-- A job that was submitted; `first` says that its context had submitted no preamble before. -/
structure PreambleJob where
  ctx : ℕ
  status : BitVec 32
  flags : List (BitVec 32)
  first : Bool

/-- A job that was put on the ring: the context of the job before, and the IBs with whether they
were emitted. -/
structure RunJob where
  job : PreambleJob
  prev : ℕ
  ibs : List (BitVec 32 × Bool)

/-- The contexts and their jobs on a ring. A context is named by its fence context. -/
structure RingJobs where
  /-- `ctx->preamble_presented` -/
  presented : ℕ → Bool
  /-- the context has submitted a preamble -/
  submitted : ℕ → Bool
  queue : List PreambleJob
  /-- `ring->current_ctx` -/
  currentCtx : ℕ
  run : List RunJob

/-- A new ring. -/
def RingJobs.init : RingJobs := ⟨fun _ => false, fun _ => false, [], 0, []⟩

/-- What can happen. -/
inductive RingJobOp
  | submit (ctx : ℕ) (chunks : List (BitVec 32))
  | schedule (job : PreambleJob)
  | drop (job : PreambleJob)
  | ringTest

/-- A submission of a context is filled, a job is put on the ring or fails there, or the ring is
tested, which is done without a job. The scheduler may take the first job of any context. -/
inductive RingJobs.Step : RingJobs → RingJobOp → RingJobs → Prop
  | submit (s : RingJobs) (ctx : ℕ) (chunks : List (BitVec 32)) (hctx : ctx ≠ 0) :
      Step s (.submit ctx chunks)
        { s with
          presented := Function.update s.presented ctx
            (csIbFillFlags (s.presented ctx) chunks).presented
          submitted := Function.update s.submitted ctx
            (s.submitted ctx || chunks.any fun f => f &&& ibFlagPreamble ≠ 0)
          queue := s.queue ++ [⟨ctx, (csIbFillFlags (s.presented ctx) chunks).status,
            (csIbFillFlags (s.presented ctx) chunks).flags, !s.submitted ctx⟩] }
  | schedule (s : RingJobs) (job : PreambleJob)
      (hjob : s.queue.find? (·.ctx = job.ctx) = some job) :
      Step s (.schedule job)
        { s with
          queue := s.queue.eraseP fun j => j.ctx = job.ctx
          currentCtx := job.ctx
          run := ⟨job, s.currentCtx,
            ibScheduleEmits s.currentCtx job.ctx job.status job.flags⟩ :: s.run }
  | drop (s : RingJobs) (job : PreambleJob) (hjob : s.queue.find? (·.ctx = job.ctx) = some job) :
      Step s (.drop job) { s with queue := s.queue.eraseP fun j => j.ctx = job.ctx }
  | ringTest (s : RingJobs) : Step s .ringTest { s with currentCtx := 0 }

/-- The first preamble in a job that has the first one of its context is emitted, and a preamble is
dropped only if the job before came from the same context. -/
def RunJob.Ok (r : RunJob) : Prop :=
  (r.job.first = true → ∀ ib, (r.ibs.find? fun ib => ib.1 &&& ibFlagPreamble ≠ 0) = some ib →
    ib.2 = true) ∧
  ∀ ib ∈ r.ibs, ib.1 &&& ibFlagPreamble ≠ 0 → ib.2 = false → r.prev = r.job.ctx

/-! ## Runs -/

/-- The flags of an IB are zero when they are tested, so that nothing is marked. -/
theorem csIbFillFlags_eq (presented : Bool) (chunks : List (BitVec 32)) :
    csIbFillFlags presented chunks = ⟨presented, 0, chunks⟩ := by
  have hloop : ∀ flags, chunks.foldl (fun st chunk => csIbFillIb 0 chunk st) ⟨presented, 0, flags⟩ =
      ⟨presented, 0, flags ++ chunks⟩ := by
    induction chunks with
    | nil => simp
    | cons chunk chunks ih =>
      intro flags
      rw [List.foldl_cons, show csIbFillIb 0 chunk ⟨presented, 0, flags⟩ =
        ⟨presented, 0, flags ++ [chunk]⟩ from rfl, ih, List.append_assoc, List.singleton_append]
  exact (hloop []).trans (by rw [List.nil_append])

/-- Without the mark a preamble is emitted if and only if the context changes. -/
theorem ibScheduleEmits_eq (currentCtx fenceCtx : ℕ) (flags : List (BitVec 32)) :
    ibScheduleEmits currentCtx fenceCtx 0 flags =
      flags.map fun f =>
        (f, !(decide (f &&& ibFlagPreamble ≠ 0) && decide (currentCtx = fenceCtx))) := by
  unfold ibScheduleEmits
  by_cases hctx : currentCtx = fenceCtx <;> simp [hctx]

/-- The invariant: no job is marked. -/
structure RingJobs.Inv (s : RingJobs) : Prop where
  status : ∀ job ∈ s.queue, job.status = 0
  run : ∀ r ∈ s.run, r.ibs = ibScheduleEmits r.prev r.job.ctx 0 r.job.flags

theorem RingJobs.Inv.step {s t : RingJobs} {op : RingJobOp} (h : s.Inv) (hstep : s.Step op t) :
    t.Inv := by
  cases hstep with
  | submit ctx chunks hctx =>
    refine ⟨fun job hjob => ?_, h.run⟩
    rcases List.mem_append.mp hjob with hjob | hjob
    · exact h.status job hjob
    · rw [List.mem_singleton.mp hjob, csIbFillFlags_eq]
  | schedule job hjob =>
    refine ⟨fun j hj => h.status j (List.mem_of_mem_eraseP hj),
      List.forall_mem_cons.mpr ⟨?_, h.run⟩⟩
    simp only [h.status job (List.mem_of_find?_eq_some hjob)]
  | drop job hjob => exact ⟨fun j hj => h.status j (List.mem_of_mem_eraseP hj), h.run⟩
  | ringTest => exact ⟨h.status, h.run⟩

/-- **Preambles on a ring.** In every run, the first preamble of each context is emitted and
preambles are dropped only behind a job of the same context, if and only if no job with the first
preamble of its context comes directly behind a job of the context. -/
theorem preamble_ok_iff {ops : List RingJobOp} {s : RingJobs}
    (hrun : Run RingJobs.Step .init ops s) :
    (∀ r ∈ s.run, r.Ok) ↔ ∀ r ∈ s.run, r.job.first = true →
      (∃ f ∈ r.job.flags, f &&& ibFlagPreamble ≠ 0) → r.prev ≠ r.job.ctx := by
  have h : s.Inv := hrun.invariant RingJobs.Inv (fun _ _ _ h hstep => h.step hstep)
    ⟨fun _ hj => absurd hj List.not_mem_nil, fun _ hr => absurd hr List.not_mem_nil⟩
  refine forall₂_congr fun r hr => ?_
  rw [RunJob.Ok, h.run r hr, ibScheduleEmits_eq]
  constructor
  · rintro ⟨hfirst, -⟩ hjob ⟨f, hf, hflag⟩ heq
    -- there is a first preamble, and it is dropped
    obtain ⟨ib, hib⟩ : ∃ ib, ((r.job.flags.map fun f => (f, !(decide (f &&& ibFlagPreamble ≠ 0) &&
        decide (r.prev = r.job.ctx)))).find? fun ib => ib.1 &&& ibFlagPreamble ≠ 0) = some ib :=
      Option.isSome_iff_exists.mp (List.find?_isSome.mpr
        ⟨_, List.mem_map_of_mem hf, by simpa using hflag⟩)
    have hemitted := hfirst hjob ib hib
    have hpreamble := List.find?_some hib
    obtain ⟨f', -, rfl⟩ := List.mem_map.mp (List.mem_of_find?_eq_some hib)
    simp_all
  · intro hno
    refine ⟨fun hjob ib hib => ?_, fun ib hib hflag hdropped => ?_⟩
    · have hpreamble := List.find?_some hib
      obtain ⟨f, hf, rfl⟩ := List.mem_map.mp (List.mem_of_find?_eq_some hib)
      have hne := hno hjob ⟨f, hf, by simpa using hpreamble⟩
      simp [hne]
    · obtain ⟨f, -, rfl⟩ := List.mem_map.mp hib
      simp_all

/-- A job of the context `1` with the flags `flags`. -/
def ctxOneJob (flags : BitVec 32) : PreambleJob := ⟨1, 0, [flags], true⟩

/-- The first job of a context is a preamble. -/
theorem preamble_ok_firstJob : ∃ s, Run RingJobs.Step .init
    [.submit 1 [2], .schedule (ctxOneJob 2)] s ∧ s.run.length = 1 ∧ ∀ r ∈ s.run, r.Ok := by
  have hrun : Run RingJobs.Step .init [.submit 1 [2], .schedule (ctxOneJob 2)] _ :=
    .cons (.submit _ 1 [2] (by decide)) (.cons (.schedule _ _ rfl) (.nil _))
  refine ⟨_, hrun, rfl, (preamble_ok_iff hrun).mpr ?_⟩
  simp [ctxOneJob, RingJobs.init]

/-- The first preamble of a context is dropped behind a job without one. -/
theorem preamble_dropped : ∃ s, Run RingJobs.Step .init
    [.submit 1 [0], .submit 1 [2], .schedule (ctxOneJob 0), .schedule (ctxOneJob 2)] s ∧
      ∃ r ∈ s.run, r.job.first = true ∧ r.ibs = [(2, false)] ∧ ¬ r.Ok := by
  have hrun : Run RingJobs.Step .init
      [.submit 1 [0], .submit 1 [2], .schedule (ctxOneJob 0), .schedule (ctxOneJob 2)] _ :=
    .cons (.submit _ 1 [0] (by decide)) (.cons (.submit _ 1 [2] (by decide))
      (.cons (.schedule _ _ rfl) (.cons (.schedule _ _ rfl) (.nil _))))
  refine ⟨_, hrun, _, List.mem_cons_self, rfl, rfl, fun hok => ?_⟩
  have hemitted := hok.1 rfl (2, false) rfl
  cases hemitted

end Amdgpu
