import AmdgpuPro.Kernel
import AmdgpuPro.Lib.Align
import AmdgpuPro.Lib.CircularLog
import AmdgpuPro.Lib.Transition

set_option autoImplicit false

/-!
# Ring buffers

Jobs write their commands into a ring buffer that the GPU reads. `amdgpu_ring_init` makes it large
enough for `hw_submission` jobs of `max_dw` dwords each, with a size that is a power of two; the
write pointer is masked. A job allocates room, writes, and commits, which adds padding up to the
next multiple of `align_mask + 1` dwords, or undoes. No more than `hw_submission` jobs are between
their allocation and the signal of their fence, and the fences of a ring signal in order.

The product for the size is computed in 32 bits and may overflow.

## Main definitions

* `Amdgpu.ringInit` — the parameters of a new ring.
* `ringAlloc`, `ringWrite`, `ringCommit`, `ringUndo` — the functions.
* `RingState`, `RingState.step` — a ring with its jobs, and the steps of a run.
* `RingState.Safe` — no dword of a job is overwritten, and the pointer is as it should be.

## Main results

* `Amdgpu.ringInit_fits` — without an overflow the ring has room for its jobs.
* `ring_safe` — every run is safe if the size does not overflow.
* `ring_overwritten` — a job is overwritten when it does.
-/

namespace Amdgpu

open CircularLog
open Transition

/-! ## Making a ring -/

/-- The arguments of `amdgpu_ring_init` and `amdgpu_sched_hw_submission`. Every caller aligns to a
power of two that is not more than `max_dw`. -/
structure RingConfig where
  maxDw : ℕ
  maxDw_lt : maxDw < 2 ^ 32
  /-- `align_mask` is `2 ^ alignLog - 1` -/
  alignLog : ℕ
  align_le : 2 ^ alignLog ≤ maxDw
  hwSubmission : ℕ
  hwSubmission_lt : hwSubmission < 2 ^ 32

/-- What `amdgpu_ring_init` leaves in a ring. -/
structure RingParams where
  ptrMask : ℕ
  alignMask : ℕ
  maxDw : ℕ

/-- `fls_long`, the number of bits -/
def flsLong (n : ℕ) : ℕ := if n = 0 then 0 else n.log2 + 1

/-- `roundup_pow_of_two`; its result for `0` is not defined. -/
def roundupPowOfTwo (undefined n : ℕ) : ℕ := if n = 0 then undefined else 2 ^ flsLong (n - 1)

/-- What the functions answer that `amdgpu_ring_init` calls. -/
structure RingInitEnv where
  /-- `kcalloc`, `amdgpu_wb_get`, `amdgpu_fence_driver_start_ring` and others before the size -/
  early : Option Errno
  /-- `amdgpu_bo_create_kernel` for a size that is not `0` -/
  boCreate : Option Errno
  /-- what `roundup_pow_of_two` gives for `0` -/
  undefined : ℕ

/-- `amdgpu_ring_init`, with the check of `amdgpu_fence_driver_init_ring` -/
def ringInit (cfg : RingConfig) (env : RingInitEnv) : Except Errno RingParams :=
  if cfg.hwSubmission &&& (cfg.hwSubmission - 1) ≠ 0 then .error .EINVAL
  else
    match env.early with
    | some e => .error e
    | none =>
      let ringSize :=
        roundupPowOfTwo env.undefined (cfg.maxDw * 4 * cfg.hwSubmission % 2 ^ 32) % 2 ^ 32
      -- a buffer object needs a page
      if ringSize = 0 then .error .EINVAL
      else
        match env.boCreate with
        | some e => .error e
        | none => .ok ⟨ringSize / 4 - 1, 2 ^ cfg.alignLog - 1, cfg.maxDw⟩

/-! ## The functions -/

/-- The fields of `struct amdgpu_ring` that change. -/
structure Ring where
  ring : ℕ → BitVec 32
  wptr : ℕ
  wptrOld : ℕ
  countDw : ℤ

/-- What `insert_nop` of a ring writes. -/
structure NopFuncs where
  nop : BitVec 32
  burst : Option (ℕ → BitVec 32)

section

variable (p : RingParams)

/-- `(ndw + align_mask) & ~align_mask` -/
def RingParams.alignDw (ndw : ℕ) : ℕ :=
  (ndw + p.alignMask) % 2 ^ 32 - ((ndw + p.alignMask) % 2 ^ 32 &&& p.alignMask)

/-- `amdgpu_ring_alloc` -/
def ringAlloc (r : Ring) (ndw : ℕ) : Except Errno Ring :=
  if p.maxDw < p.alignDw ndw then .error .ENOMEM
  else .ok { r with countDw := p.alignDw ndw, wptrOld := r.wptr }

/-- `amdgpu_ring_write` -/
def ringWrite (r : Ring) (v : BitVec 32) : Ring :=
  { r with
    ring := Function.update r.ring r.wptr v
    wptr := (r.wptr + 1) &&& p.ptrMask
    countDw := r.countDw - 1 }

/-- The number of dwords of padding that `amdgpu_ring_commit` adds. -/
def padCount (r : Ring) : ℕ :=
  (p.alignMask + 1 - (r.wptr &&& p.alignMask)) % (p.alignMask + 1)

/-- The dwords that `insert_nop` of the ring writes: all of them are `nop`, but SDMA engines with
`burst_nop` have the number of the others in the first one. -/
def NopFuncs.words (f : NopFuncs) (count : ℕ) : List (BitVec 32) :=
  (List.range count).map fun i =>
    match f.burst, i with
    | some headerCount, 0 => f.nop ||| headerCount (count - 1)
    | _, _ => f.nop

/-- `amdgpu_ring_commit` -/
def ringCommit (nops : NopFuncs) (r : Ring) : Ring :=
  (nops.words (padCount p r)).foldl (ringWrite p) r

/-- `amdgpu_ring_undo` -/
def ringUndo (r : Ring) : Ring := { r with wptr := r.wptrOld }

end

/-! ## Runs -/

/-- A job: how many dwords it asked for, where it starts, and what it wrote. -/
structure RingJob where
  ndw : ℕ
  seg : Segment (BitVec 32)

/-- A ring, the job that is being written, and those that are committed and whose fences have not
signaled. -/
structure RingState where
  ring : Ring
  cur : Option RingJob
  inFlight : List RingJob

/-- The steps: the functions, and the signal of the next fence. -/
inductive RingOp
  | alloc (ndw : ℕ)
  | write (v : BitVec 32)
  | commit
  | undo
  | signal

/-- One more dword. -/
def RingJob.push (j : RingJob) (v : BitVec 32) : RingJob := { j with seg := j.seg.push v }

namespace RingState

/-- The jobs whose fences have not signaled, and the one that is being written. -/
def jobs (s : RingState) : List RingJob := s.inFlight ++ s.cur.toList

variable (p : RingParams) (hwSubmission : ℕ) (nops : NopFuncs)

/-- A new ring. -/
def init : RingState where
  ring := ⟨fun _ => 0, 0, 0, 0⟩
  cur := none
  inFlight := []

/-- One step, if it is possible. A job is allocated when the one before is done with writing and
there are less than `hw_submission` jobs; it asks for at most `max_dw` dwords and does not write
more than it asked for. -/
def step (s : RingState) : RingOp → Option RingState
  | .alloc ndw =>
    if s.cur.isNone ∧ s.inFlight.length < hwSubmission ∧ ndw ≤ p.maxDw then
      match ringAlloc p s.ring ndw with
      | .error _ => some s
      | .ok r => some { s with ring := r, cur := some ⟨ndw, ⟨s.ring.wptr, []⟩⟩ }
    else none
  | .write v =>
    match s.cur with
    | some j =>
      if j.seg.data.length < j.ndw then
        some { s with ring := ringWrite p s.ring v, cur := some (j.push v) }
      else none
    | none => none
  | .commit =>
    match s.cur with
    | some j =>
      some {
        ring := ringCommit p nops s.ring
        cur := none
        inFlight := s.inFlight ++ [(nops.words (padCount p s.ring)).foldl RingJob.push j] }
    | none => none
  | .undo =>
    match s.cur with
    | some _ => some { s with ring := ringUndo s.ring, cur := none }
    | none => none
  | .signal =>
    match s.inFlight with
    | _ :: js => some { s with inFlight := js }
    | [] => none

/-- The dwords of all jobs are at different places of the ring and are what the jobs wrote; the
write pointer is aligned when no job is being written, and else an undo gives it the value it had
before the allocation. -/
structure Safe (s : RingState) : Prop where
  slots_nodup : (s.jobs.flatMap fun j => j.seg.slots (p.ptrMask + 1)).Nodup
  stored : ∀ j ∈ s.jobs, Stored (p.ptrMask + 1) s.ring.ring j.seg
  aligned : s.cur = none → s.ring.wptr &&& p.alignMask = 0
  undo : ∀ j, s.cur = some j → (ringUndo s.ring).wptr = j.seg.start

end RingState

/-! ## Room for the jobs -/

/-- The sizes of a ring fit: they are powers of two, the ring is a multiple of the alignment, and
all jobs have room. -/
structure RingParams.Fits (p : RingParams) (hwSubmission : ℕ) : Prop where
  size : ∃ d, p.ptrMask + 1 = 2 ^ d
  align : ∃ a, p.alignMask + 1 = 2 ^ a
  dvd : p.alignMask + 1 ∣ p.ptrMask + 1
  room : p.maxDw * hwSubmission ≤ p.ptrMask + 1
  small : p.maxDw + p.alignMask < 2 ^ 32

theorem and_mask_eq_mod {mask k : ℕ} (h : mask + 1 = 2 ^ k) (n : ℕ) :
    n &&& mask = n % (mask + 1) := by
  rw [h, ← Nat.and_two_pow_sub_one_eq_mod, ← h, Nat.add_sub_cancel]

theorem le_roundupPowOfTwo (undefined : ℕ) {n : ℕ} (hn : n ≠ 0) :
    n ≤ roundupPowOfTwo undefined n ∧ ∃ k, roundupPowOfTwo undefined n = 2 ^ k := by
  rw [roundupPowOfTwo, if_neg hn]
  refine ⟨?_, _, rfl⟩
  unfold flsLong
  split_ifs with hone
  · omega
  · have := Nat.lt_log2_self (n := n - 1)
    omega

/-- What is known of a ring that was made. -/
theorem ringInit_eq_ok {cfg : RingConfig} {env : RingInitEnv} {p : RingParams}
    (hinit : ringInit cfg env = .ok p) : ∃ ringSize ≠ 0,
      ringSize =
        roundupPowOfTwo env.undefined (cfg.maxDw * 4 * cfg.hwSubmission % 2 ^ 32) % 2 ^ 32 ∧
      p = ⟨ringSize / 4 - 1, 2 ^ cfg.alignLog - 1, cfg.maxDw⟩ := by
  unfold ringInit at hinit
  split_ifs at hinit
  split at hinit
  · cases hinit
  simp only at hinit
  split_ifs at hinit with hsize
  split at hinit
  · cases hinit
  cases hinit
  exact ⟨_, hsize, rfl, rfl⟩

theorem ringInit_align {cfg : RingConfig} {env : RingInitEnv} {p : RingParams}
    (hinit : ringInit cfg env = .ok p) : ∃ a, p.alignMask + 1 = 2 ^ a := by
  obtain ⟨ringSize, -, -, rfl⟩ := ringInit_eq_ok hinit
  exact ⟨cfg.alignLog, Nat.sub_add_cancel (Nat.two_pow_pos _)⟩

/-- **Without an overflow the ring has room for its jobs.** -/
theorem ringInit_fits {cfg : RingConfig} {env : RingInitEnv} {p : RingParams}
    (hinit : ringInit cfg env = .ok p) (hpos : 0 < cfg.hwSubmission)
    (hlt : cfg.maxDw * 4 * cfg.hwSubmission < 2 ^ 32) : p.Fits cfg.hwSubmission := by
  have hmaxDw : 0 < cfg.maxDw := (Nat.two_pow_pos _).trans_le cfg.align_le
  have hprod : 0 < cfg.maxDw * cfg.hwSubmission := Nat.mul_pos hmaxDw hpos
  have hcomm : cfg.maxDw * 4 * cfg.hwSubmission = 4 * (cfg.maxDw * cfg.hwSubmission) := by ring
  have hne : cfg.maxDw * 4 * cfg.hwSubmission ≠ 0 := by omega
  obtain ⟨hle, k, hk⟩ := le_roundupPowOfTwo env.undefined hne
  obtain ⟨ringSize, hsize, rfl, rfl⟩ := ringInit_eq_ok hinit
  rw [Nat.mod_eq_of_lt hlt, hk] at hsize ⊢
  rw [hk, hcomm] at hle
  -- the size did not overflow when it was rounded up
  have hk32 : k < 32 := by
    by_contra! h32
    exact hsize (Nat.mod_eq_zero_of_dvd (pow_dvd_pow 2 h32))
  have hk2 : 2 ≤ k := by
    by_contra! h2
    have : 2 ^ k ≤ 2 ^ 1 := Nat.pow_le_pow_right (by decide) (by omega)
    omega
  have hmod : 2 ^ k % 2 ^ 32 = 2 ^ k :=
    Nat.mod_eq_of_lt (Nat.pow_lt_pow_right (by decide) hk32)
  have hquarter : 2 ^ k / 4 = 2 ^ (k - 2) := by
    rw [show 4 = 2 ^ 2 from rfl, Nat.pow_div hk2 (by decide)]
  have hsucc : 2 ^ k % 2 ^ 32 / 4 - 1 + 1 = 2 ^ (k - 2) := by
    rw [hmod, hquarter]
    exact Nat.sub_add_cancel (Nat.two_pow_pos _)
  have halign : 2 ^ cfg.alignLog - 1 + 1 = 2 ^ cfg.alignLog :=
    Nat.sub_add_cancel (Nat.two_pow_pos _)
  have hroom : cfg.maxDw * cfg.hwSubmission ≤ 2 ^ (k - 2) := by
    rw [← hquarter]
    omega
  have hmaxDw' : cfg.maxDw ≤ cfg.maxDw * cfg.hwSubmission := Nat.le_mul_of_pos_right _ hpos
  refine ⟨⟨k - 2, hsucc⟩, ⟨cfg.alignLog, halign⟩, ?_, by rw [hsucc]; exact hroom, ?_⟩
  · simp only [hsucc, halign]
    refine pow_dvd_pow 2 ?_
    have hpow : 2 ^ cfg.alignLog ≤ 2 ^ (k - 2) := cfg.align_le.trans (hmaxDw'.trans hroom)
    exact (Nat.pow_le_pow_iff_right (by decide)).mp hpow
  · have := cfg.align_le
    simp only
    omega

namespace RingParams.Fits

variable {p : RingParams} {hwSubmission : ℕ}

theorem align_pos (_ : p.Fits hwSubmission) : 0 < p.alignMask + 1 := Nat.succ_pos _

/-- The room of a job is a multiple of the alignment. -/
theorem dvd_alignDw (h : p.Fits hwSubmission) (ndw : ℕ) : p.alignMask + 1 ∣ p.alignDw ndw := by
  obtain ⟨a, ha⟩ := h.align
  rw [alignDw, and_mask_eq_mod ha]
  exact Nat.dvd_sub_mod _

/-- The room of a job is at least what it asked for. -/
theorem le_alignDw (h : p.Fits hwSubmission) {ndw : ℕ} (hle : ndw ≤ p.maxDw) :
    ndw ≤ p.alignDw ndw := by
  obtain ⟨a, ha⟩ := h.align
  have hsmall := h.small
  have hmod := Nat.mod_lt (ndw + p.alignMask) h.align_pos
  rw [alignDw, and_mask_eq_mod ha, Nat.mod_eq_of_lt (show ndw + p.alignMask < 2 ^ 32 by omega)]
  omega

end RingParams.Fits

/-! ## The invariant -/

namespace RingState

variable {p : RingParams} {hwSubmission : ℕ} {nops : NopFuncs} {s t : RingState} {j : RingJob}

/-- The invariant. The committed jobs are from position `v` to `w`, and the job that is being
written is from `w` to `u`. -/
structure Inv (p : RingParams) (hwSubmission : ℕ) (s : RingState) : Prop where
  laid : ∃ v w u, p.alignMask + 1 ∣ w ∧
    Laid (p.ptrMask + 1) v (s.inFlight.map RingJob.seg) w ∧
    Laid (p.ptrMask + 1) w (s.cur.toList.map RingJob.seg) u ∧ s.ring.wptr = u % (p.ptrMask + 1)
  stored : ∀ j ∈ s.jobs, Stored (p.ptrMask + 1) s.ring.ring j.seg
  committed : ∀ j ∈ s.inFlight, j.seg.data.length ≤ p.maxDw
  written : ∀ j, s.cur = some j → j.seg.data.length ≤ p.alignDw j.ndw ∧
    p.alignDw j.ndw ≤ p.maxDw ∧ j.ndw ≤ p.maxDw ∧ s.ring.wptrOld = j.seg.start
  aligned : s.cur = none → p.alignMask + 1 ∣ s.ring.wptr
  count : s.jobs.length ≤ hwSubmission

theorem Inv.init : Inv p hwSubmission init where
  laid := ⟨0, 0, 0, by simp, rfl, rfl, by simp [RingState.init]⟩
  stored := by simp [RingState.init, jobs]
  committed := by simp [RingState.init]
  written := by simp [RingState.init]
  aligned _ := by simp [RingState.init]
  count := by simp [RingState.init, jobs]

theorem jobs_eq_of_cur (h : s.cur = some j) : s.jobs = s.inFlight ++ [j] := by
  simp [jobs, h]

/-- The committed jobs use not more than their share. -/
theorem Inv.committed_le {v w : ℕ} (h : Inv p hwSubmission s)
    (hlaid : Laid (p.ptrMask + 1) v (s.inFlight.map RingJob.seg) w) :
    w ≤ v + p.maxDw * s.inFlight.length := by
  have hsum := List.sum_le_card_nsmul (s.inFlight.map fun j => j.seg.data.length) p.maxDw (by
    intro n hn
    obtain ⟨j, hj, rfl⟩ := List.mem_map.mp hn
    exact h.committed j hj)
  have hw := hlaid.eq_add_sum
  rw [List.map_map] at hw
  rw [List.length_map, smul_eq_mul, Nat.mul_comm] at hsum
  exact hw.trans_le (Nat.add_le_add_left hsum v)

/-- **A write in the room of the job keeps the invariant.** -/
theorem Inv.write (h : Inv p hwSubmission s) (hfits : p.Fits hwSubmission) (hcur : s.cur = some j)
    (hlt : j.seg.data.length < p.alignDw j.ndw) (v : BitVec 32) :
    Inv p hwSubmission { s with ring := ringWrite p s.ring v, cur := some (j.push v) } := by
  obtain ⟨v₀, w, u, hw, hlaid, hlaidCur, hwptr⟩ := h.laid
  obtain ⟨hlen, hmax, hndw, hold⟩ := h.written j hcur
  have hcount := h.count
  rw [hcur] at hlaidCur
  obtain ⟨hstart, rfl⟩ := hlaidCur
  rw [jobs_eq_of_cur hcur, List.length_append, List.length_singleton] at hcount
  have hlaidCur' : Laid (p.ptrMask + 1) w [j.seg.push v] (w + j.seg.data.length + 1) :=
    ⟨hstart, by rw [Segment.length_data_push]; rfl⟩
  have hroom : w + j.seg.data.length + 1 ≤ v₀ + (p.ptrMask + 1) := by
    have hused := h.committed_le hlaid
    have hshare := Nat.mul_le_mul_left p.maxDw hcount
    rw [Nat.mul_add, Nat.mul_one] at hshare
    have := hfits.room
    omega
  have hplace : (j.seg.start + j.seg.data.length) % (p.ptrMask + 1) = s.ring.wptr := by
    rw [hstart, Nat.mod_add_mod, hwptr]
  refine ⟨⟨v₀, w, _, hw, hlaid, hlaidCur', ?_⟩, ?_, h.committed, ?_, by simp, ?_⟩
  · obtain ⟨d, hd⟩ := hfits.size
    simp only [ringWrite, and_mask_eq_mod hd, hwptr]
    exact Nat.mod_add_mod _ _ _
  · have hbefore : ∀ seg ∈ s.inFlight.map RingJob.seg ++ [j.seg],
        Stored (p.ptrMask + 1) s.ring.ring seg := by
      intro seg hseg
      rw [← List.map_singleton, ← List.map_append, ← jobs_eq_of_cur hcur] at hseg
      obtain ⟨j', hj', rfl⟩ := List.mem_map.mp hseg
      exact h.stored j' hj'
    have hafter := Stored.write_push hbefore ((hlaid.append hlaidCur').nodup_slots hroom)
    rw [hplace] at hafter
    intro j' hj'
    refine hafter j'.seg ?_
    simp only [jobs, Option.toList_some, List.mem_append, List.mem_singleton] at hj'
    rcases hj' with hj' | rfl
    · exact List.mem_append_left _ (List.mem_map_of_mem hj')
    · exact List.mem_append_right _ (List.mem_singleton_self _)
  · rintro j' hj'
    cases hj'
    simp only [RingJob.push, Segment.length_data_push]
    exact ⟨hlt, hmax, hndw, hold⟩
  · simpa [jobs] using hcount

/-- Several writes in the room of the job. -/
theorem Inv.writes (h : Inv p hwSubmission s) (hfits : p.Fits hwSubmission) (hcur : s.cur = some j)
    (vs : List (BitVec 32)) (hle : j.seg.data.length + vs.length ≤ p.alignDw j.ndw) :
    Inv p hwSubmission
      { s with ring := vs.foldl (ringWrite p) s.ring, cur := some (vs.foldl RingJob.push j) } := by
  induction vs generalizing s j with
  | nil =>
    rw [List.foldl_nil, List.foldl_nil, ← hcur]
    exact h
  | cons v vs ih =>
    rw [List.length_cons] at hle
    have hwrite := h.write hfits hcur (by omega) v
    refine ih (j := j.push v) hwrite rfl ?_
    change (j.seg.push v).data.length + vs.length ≤ p.alignDw j.ndw
    rw [Segment.length_data_push]
    omega

/-- The length of a job after several writes. -/
theorem length_foldl_push (vs : List (BitVec 32)) (j : RingJob) :
    (vs.foldl RingJob.push j).seg.data.length = j.seg.data.length + vs.length ∧
      (vs.foldl RingJob.push j).ndw = j.ndw := by
  induction vs generalizing j with
  | nil => exact ⟨rfl, rfl⟩
  | cons v vs ih =>
    obtain ⟨hlength, hndw⟩ := ih (j.push v)
    refine ⟨?_, hndw⟩
    rw [List.foldl_cons, hlength, RingJob.push, Segment.length_data_push, List.length_cons]
    omega

/-- The padding is that of the length of the job. -/
theorem Inv.padCount_eq (h : Inv p hwSubmission s) (hfits : p.Fits hwSubmission)
    (hcur : s.cur = some j) :
    padCount p s.ring = Align.pad (p.alignMask + 1) j.seg.data.length := by
  obtain ⟨v, w, u, hw, -, hlaidCur, hwptr⟩ := h.laid
  obtain ⟨a, ha⟩ := hfits.align
  rw [hcur] at hlaidCur
  obtain ⟨-, rfl⟩ := hlaidCur
  rw [padCount, and_mask_eq_mod ha, hwptr, Nat.mod_mod_of_dvd _ hfits.dvd]
  obtain ⟨k, rfl⟩ := hw
  rw [Nat.mul_add_mod, Align.pad]

/-- **A commit keeps the invariant.** -/
theorem Inv.commit (h : Inv p hwSubmission s) (hfits : p.Fits hwSubmission)
    (hcur : s.cur = some j) : Inv p hwSubmission
      ⟨ringCommit p nops s.ring, none,
        s.inFlight ++ [(nops.words (padCount p s.ring)).foldl RingJob.push j]⟩ := by
  obtain ⟨hlen, hmax, -, -⟩ := h.written j hcur
  have hwords : (nops.words (padCount p s.ring)).length =
      Align.pad (p.alignMask + 1) j.seg.data.length := by
    rw [← h.padCount_eq hfits hcur, NopFuncs.words, List.length_map, List.length_range]
  have hle : j.seg.data.length + (nops.words (padCount p s.ring)).length ≤ p.alignDw j.ndw := by
    rw [hwords]
    exact Align.add_pad_le hfits.align_pos (hfits.dvd_alignDw j.ndw) hlen
  have hwrites := h.writes hfits hcur (nops.words (padCount p s.ring)) hle
  obtain ⟨hlength, -⟩ := length_foldl_push (nops.words (padCount p s.ring)) j
  set j' := (nops.words (padCount p s.ring)).foldl RingJob.push j with hj'
  have hdvd : p.alignMask + 1 ∣ j'.seg.data.length := by
    rw [hlength, hwords]
    exact Align.dvd_add_pad hfits.align_pos _
  obtain ⟨v, w, u, hw, hlaid, hlaidCur, hwptr⟩ := hwrites.laid
  obtain ⟨hstart, rfl⟩ := hlaidCur
  have hw' : p.alignMask + 1 ∣ w + j'.seg.data.length := Nat.dvd_add hw hdvd
  refine ⟨⟨v, _, _, hw', ?_, rfl, hwptr⟩, ?_, ?_, by simp, fun _ => ?_, ?_⟩
  · rw [List.map_append]
    exact hlaid.append ⟨hstart, rfl⟩
  · simpa [jobs, ringCommit] using hwrites.stored
  · intro j'' hj''
    rcases List.mem_append.mp hj'' with hj'' | hj''
    · exact h.committed j'' hj''
    · rw [List.mem_singleton.mp hj'', hlength]
      exact hle.trans hmax
  · rw [ringCommit, hwptr]
    exact (Nat.dvd_mod_iff hfits.dvd).mpr hw'
  · simpa [jobs] using hwrites.count

/-- **Every step keeps the invariant.** -/
theorem Inv.step {op : RingOp} (h : Inv p hwSubmission s)
    (hfits : 0 < hwSubmission → p.Fits hwSubmission)
    (hstep : s.step p hwSubmission nops op = some t) : Inv p hwSubmission t := by
  have hpos : ∀ j, s.cur = some j → 0 < hwSubmission := by
    intro j hcur
    have hcount := h.count
    rw [jobs_eq_of_cur hcur, List.length_append, List.length_singleton] at hcount
    omega
  cases op with
  | alloc ndw =>
    simp only [RingState.step] at hstep
    split_ifs at hstep with hcond
    obtain ⟨hnone, hcount, hndw⟩ := hcond
    rw [Option.isNone_iff_eq_none] at hnone
    unfold ringAlloc at hstep
    split_ifs at hstep with hmax
    · cases hstep
      exact h
    · cases hstep
      obtain ⟨v, w, u, hw, hlaid, hlaidCur, hwptr⟩ := h.laid
      rw [hnone] at hlaidCur
      cases hlaidCur
      refine ⟨⟨v, w, w, hw, hlaid, ⟨hwptr, rfl⟩, hwptr⟩, ?_, h.committed, ?_, by simp, ?_⟩
      · intro j hj
        simp only [jobs, Option.toList_some, List.mem_append, List.mem_singleton] at hj
        rcases hj with hj | rfl
        · exact h.stored j (List.mem_append_left _ hj)
        · exact Stored.nil _ _ _
      · rintro j hj
        cases hj
        exact ⟨Nat.zero_le _, not_lt.mp hmax, hndw, rfl⟩
      · simpa [jobs] using hcount
  | write v =>
    simp only [RingState.step] at hstep
    split at hstep
    · rename_i j hcur
      split_ifs at hstep with hlt
      cases hstep
      have hfits := hfits (hpos j hcur)
      obtain ⟨-, -, hndw, -⟩ := h.written j hcur
      exact h.write hfits hcur (hlt.trans_le (hfits.le_alignDw hndw)) v
    · cases hstep
  | commit =>
    simp only [RingState.step] at hstep
    split at hstep
    · rename_i j hcur
      cases hstep
      exact h.commit (hfits (hpos j hcur)) hcur
    · cases hstep
  | undo =>
    simp only [RingState.step] at hstep
    split at hstep
    · rename_i j hcur
      cases hstep
      obtain ⟨v, w, u, hw, hlaid, hlaidCur, hwptr⟩ := h.laid
      obtain ⟨-, -, -, hold⟩ := h.written j hcur
      rw [hcur] at hlaidCur
      have hwptr' : (ringUndo s.ring).wptr = w % (p.ptrMask + 1) := hold.trans hlaidCur.1
      refine ⟨⟨v, w, w, hw, hlaid, rfl, hwptr'⟩, ?_, h.committed, by simp, fun _ => ?_, ?_⟩
      · intro j' hj'
        refine h.stored j' (List.mem_append_left _ ?_)
        simpa [jobs] using hj'
      · rw [hwptr']
        exact (Nat.dvd_mod_iff (hfits (hpos j hcur)).dvd).mpr hw
      · have hcount := h.count
        rw [jobs_eq_of_cur hcur, List.length_append] at hcount
        simp only [jobs, Option.toList_none, List.append_nil]
        omega
    · cases hstep
  | signal =>
    simp only [RingState.step] at hstep
    split at hstep
    · rename_i j js hinFlight
      cases hstep
      obtain ⟨v, w, u, hw, hlaid, hlaidCur, hwptr⟩ := h.laid
      rw [hinFlight] at hlaid
      refine ⟨⟨_, w, u, hw, hlaid.2, hlaidCur, hwptr⟩, ?_, ?_, h.written, h.aligned, ?_⟩
      · intro j' hj'
        refine h.stored j' ?_
        rw [jobs, hinFlight]
        exact List.mem_cons_of_mem _ hj'
      · intro j' hj'
        refine h.committed j' ?_
        rw [hinFlight]
        exact List.mem_cons_of_mem _ hj'
      · have hcount := h.count
        rw [jobs, hinFlight, List.cons_append, List.length_cons] at hcount
        exact Nat.le_of_succ_le hcount
    · cases hstep

/-- The invariant says that nothing is overwritten. -/
theorem Inv.safe (h : Inv p hwSubmission s) (hfits : 0 < hwSubmission → p.Fits hwSubmission)
    (halign : ∃ a, p.alignMask + 1 = 2 ^ a) : s.Safe p := by
  refine ⟨?_, h.stored, fun hnone => ?_, fun j hcur => (h.written j hcur).2.2.2⟩
  · obtain ⟨v, w, u, -, hlaid, hlaidCur, -⟩ := h.laid
    have hle : u ≤ v + p.maxDw * s.jobs.length := by
      have hcommitted := h.committed_le hlaid
      cases hcur : s.cur with
      | none =>
        rw [hcur] at hlaidCur
        cases hlaidCur
        simpa [jobs, hcur] using hcommitted
      | some j =>
        rw [hcur] at hlaidCur
        obtain ⟨-, rfl⟩ := hlaidCur
        obtain ⟨hlen, hmax, -, -⟩ := h.written j hcur
        rw [jobs_eq_of_cur hcur, List.length_append, List.length_singleton, Nat.mul_add]
        omega
    have hroom : u ≤ v + (p.ptrMask + 1) := by
      rcases Nat.eq_zero_or_pos hwSubmission with hzero | hpos
      · have hcount := h.count
        rw [hzero, Nat.le_zero] at hcount
        rw [hcount] at hle
        omega
      · have := Nat.mul_le_mul_left p.maxDw h.count
        have := (hfits hpos).room
        omega
    have hnodup := (hlaid.append hlaidCur).nodup_slots hroom
    rwa [← List.map_append, List.flatMap_map] at hnodup
  · obtain ⟨a, ha⟩ := halign
    rw [and_mask_eq_mod ha]
    exact Nat.mod_eq_zero_of_dvd (h.aligned hnone)

end RingState

/-- A ring whose size did not overflow: in every run in which at most `hw_submission` jobs are in
flight, each asks for at most `max_dw` dwords and does not write more than it asked for, no dword of
a job whose fence has not signaled is overwritten, the write pointer is aligned after every commit
and undo, and an undo gives it the value it had before the allocation. -/
theorem ring_safe {cfg : RingConfig} {env : RingInitEnv} {p : RingParams} {nops : NopFuncs}
    {ops : List RingOp} {s : RingState} (hlt : cfg.maxDw * 4 * cfg.hwSubmission < 2 ^ 32)
    (hinit : ringInit cfg env = .ok p)
    (hrun : Run (fun s op t => RingState.step p cfg.hwSubmission nops s op = some t)
      RingState.init ops s) : s.Safe p := by
  have hfits : 0 < cfg.hwSubmission → p.Fits cfg.hwSubmission :=
    fun hpos => ringInit_fits hinit hpos hlt
  have hinv := hrun.invariant (RingState.Inv p cfg.hwSubmission)
    (fun s op t hs hstep => hs.step hfits hstep) RingState.Inv.init
  exact hinv.safe hfits (ringInit_align hinit)

/-- The graphics rings, with the default of two jobs. -/
def RingConfig.graphics : RingConfig :=
  ⟨1024, by decide, 4, by decide, 2, by decide⟩

/-- Two jobs on a graphics ring, and one that is undone. -/
theorem ring_safe_graphics : ∃ p s, ringInit .graphics ⟨none, none, 0⟩ = .ok p ∧
    List.foldlM (RingState.step p 2 ⟨0xffff1000, none⟩) RingState.init
      [.alloc 20, .write 7, .commit, .alloc 8, .write 9, .undo, .alloc 3, .write 1] = some s ∧
    s.Safe p := by
  have hsome : (List.foldlM (RingState.step ⟨2047, 15, 1024⟩ 2 ⟨0xffff1000, none⟩) RingState.init
      [.alloc 20, .write 7, .commit, .alloc 8, .write 9, .undo, .alloc 3, .write 1]).isSome :=
    by decide
  obtain ⟨s, hs⟩ := Option.isSome_iff_exists.mp hsome
  have hinit : ringInit .graphics ⟨none, none, 0⟩ = .ok ⟨2047, 15, 1024⟩ := rfl
  exact ⟨_, s, hinit, hs, ring_safe (by decide) hinit (.of_eval hs)⟩

/-- With `2 ^ 29 + 16` dwords for a job and two jobs the size overflows and there are `32` dwords.
A job of `17` dwords is padded to `32`; the next job overwrites its first dword. -/
theorem ring_overwritten : ∃ p ops s,
    ringInit ⟨2 ^ 29 + 16, by decide, 4, by decide, 2, by decide⟩ ⟨none, none, 0⟩ = .ok p ∧
      Run (fun s op t => RingState.step p 2 ⟨0xffff1000, none⟩ s op = some t) RingState.init ops s ∧
      s.jobs.length = 2 ∧ ¬ s.Safe p := by
  have heval : (List.foldlM (RingState.step ⟨31, 15, 2 ^ 29 + 16⟩ 2 ⟨0xffff1000, none⟩)
      RingState.init
      (.alloc 17 :: List.replicate 17 (.write 0) ++ [.commit, .alloc 1, .write 0])).map
        (fun s => (s.jobs.length, decide (s.jobs.flatMap fun j => j.seg.slots 32).Nodup)) =
          some (2, false) := by
    decide
  obtain ⟨s, hs, hslots⟩ := Option.map_eq_some_iff.mp heval
  rw [Prod.mk.injEq, decide_eq_false_iff_not] at hslots
  exact ⟨_, _, s, rfl, .of_eval hs, hslots.1, fun hsafe => hslots.2 hsafe.slots_nodup⟩

end Amdgpu
