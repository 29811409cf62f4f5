import AmdgpuPro.Cs.Release

set_option autoImplicit false

/-!
# Where the value of a user fence is written

A FENCE chunk names a buffer object of one page and an offset of 32 bits, at which the ring writes a
value of 64 bits when the job is done. The offset is checked in `amdgpu_cs_user_fence_chunk`, in
arithmetic of 32 bits; `amdgpu_cs_parser_bos` adds the address of the buffer object, and
`amdgpu_ib_schedule` passes the sum to the ring.

## Main definitions

* `Amdgpu.CsSubmits` — a call gets to `amdgpu_cs_submit` with a job.
* `ibScheduleUserFence` — the address the ring is given.

## Main results

* `Amdgpu.userFence_inside_iff` — the value is written inside of the buffer object if and only if
  the check of the offset did not wrap around.
-/

namespace Amdgpu

/-- A call of `amdgpu_cs_ioctl` comes to `amdgpu_cs_submit` with the job. -/
def CsSubmits (env : CsEnv) (cs : CsIn) (job : CsJob) : Prop :=
  ∃ p q r s t, csParserInit env cs .init = (p, none) ∧ csParserBos env cs p = .ret q none ∧
    csIbFill env q = .ret r none ∧ csDependencies env r = (s, none) ∧
    csIbVmChunk env s = (t, none) ∧ t.job = some job

/-- The part of `amdgpu_ib_schedule` for the user fence: the address of the value of 64 bits. -/
def ibScheduleUserFence (job : CsJob) : Option (BitVec 64) :=
  if job.ufAddr ≠ 0 then some job.ufAddr else none

/-! ## The address of the job -/

section Address

variable {env : CsEnv} {cs : CsIn} {p q : CsParser}

/-- The address in the job. -/
def CsParser.ufAddr (p : CsParser) : Option (BitVec 64) := p.job.map CsJob.ufAddr

theorem CsParser.ufAddr_syncFence (s : SyncEnd) : (p.syncFence s).1.ufAddr = p.ufAddr := by
  cases s with
  | added => simp [CsParser.syncFence, CsParser.ufAddr, Function.comp_def]
  | _ => rfl

theorem CsParser.ufAddr_syncFences (ss : List SyncEnd) (p : CsParser) :
    (CsParser.syncFences ss p).1.ufAddr = p.ufAddr := by
  induction ss generalizing p with
  | nil => rfl
  | cons s ss ih =>
    have hone := CsParser.ufAddr_syncFence (p := p) s
    rw [CsParser.syncFences]
    split
    · next heq => rwa [heq] at hone
    · next heq =>
      rw [heq] at hone
      exact (ih _).trans hone

theorem csDepLoop_ufAddr (deps : List (ℕ × ℕ × CsDep)) (p : CsParser) :
    (csDepLoop env deps p).1.ufAddr = p.ufAddr := by
  induction deps generalizing p with
  | nil => rfl
  | cons d deps ih =>
    obtain ⟨i, j, dep⟩ := d
    have hone := CsParser.ufAddr_syncFence
      (p := (p.acquire (.depCtx i j)).acquire (.depFence i j)) (env.depSync i j)
    rw [csDepLoop]
    split
    · rfl
    · split
      · rfl
      · dsimp only
        split
        · rfl
        · exact ih _
        · split
          · exact hone
          · exact (ih _).trans hone

/-- Dependencies do not change the address. -/
theorem csDependencies_ufAddr (h : csDependencies env p = (q, none)) : q.ufAddr = p.ufAddr := by
  have hloop := @csDepLoop_ufAddr env (csDeps (p.chunks.getD [])) p
  rw [csDependencies] at h
  split at h
  · cases h
  · next r heq =>
    rw [heq] at hloop
    have hsync := CsParser.ufAddr_syncFences env.sems r
    rw [h] at hsync
    exact hsync.trans hloop

theorem csIbVmChunk_ufAddr (h : csIbVmChunk env p = (q, none)) : q.ufAddr = p.ufAddr := by
  have hsync := CsParser.ufAddr_syncFences env.vmSync p
  rw [csIbVmChunk] at h
  split at h
  · cases h
  · next heq =>
    rw [heq] at hsync
    exact (Prod.mk.inj h).1 ▸ hsync

theorem csIbFill_ufAddr (h : csIbFill env p = .ret q none) : q.ufAddr = p.ufAddr := by
  unfold csIbFill at h
  split at h
  · cases h
  · next job hjob =>
    have hsame : ∀ ring : Option ℕ,
        CsParser.ufAddr { p with job := some { job with ring := ring } } = p.ufAddr :=
      fun ring => by simp [CsParser.ufAddr, hjob]
    dsimp only at h
    split at h
    · cases h
    · split_ifs at h
      · cases h
        exact hsame _
      · split at h
        · cases h
        · exact (Outcome.ret.inj h).1 ▸ hsame _

end Address

section

variable {env : CsEnv} {cs : CsIn} {job : CsJob}

/-- A parser that was initialised for some chunks. -/
theorem csParserInit_parsed {p : CsParser} (h : csParserInit env cs .init = (p, none))
    (hnum : cs.numChunks.toNat ≠ 0) :
    ∃ ctx, env.InitOk cs.numChunks.toNat ∧ p = env.parsed ctx cs.numChunks.toNat := by
  have harray : env.chunkArray = true := by
    by_contra hno
    simp [csParserInit, hnum, Bool.eq_false_of_not_eq_true hno] at h
  cases hctx : env.ctxHandles cs.ctxId with
  | none => simp [csParserInit, hnum, harray, hctx] at h
  | some ctx =>
    by_cases hok : env.InitOk cs.numChunks.toNat
    · rw [CsEnv.csParserInit_ok rfl hnum harray hctx hok] at h
      exact ⟨ctx, hok, (Prod.mk.inj h).1.symm⟩
    · obtain ⟨p', e, herr, -⟩ := CsEnv.csParserInit_error rfl hnum harray hctx hok
      rw [herr] at h
      cases h

/-- **The address of a job with a user fence** is the sum of the address of the buffer object and
the offset that was checked. -/
theorem CsSubmits.ufAddr_eq (h : CsSubmits env cs job) {i : ℕ}
    (huf : env.ufChunk cs.numChunks.toNat = some i) :
    ∃ data, env.data i = some data ∧ env.UfOk data ∧
      job.ufAddr = (data 1).setWidth 64 + env.ufGpuOffset := by
  obtain ⟨p, q, r, s, t, hinit, hbos, hfill, hdeps, hvm, hjob⟩ := h
  obtain ⟨hlt, hkind⟩ := CsEnv.ufChunk_spec huf
  obtain ⟨ctx, hok, rfl⟩ := csParserInit_parsed hinit (by omega)
  obtain ⟨-, -, -, data, hdata, hfence⟩ := hok.chunkOk i hlt
  refine ⟨data, hdata, (hfence hkind).2, ?_⟩
  -- `amdgpu_cs_parser_bos` has returned `0`
  have hparts : env.reserve = none ∧ env.validate = none ∧ env.ttmBind = none := by
    rw [csParserBos_eq] at hbos
    cases hres : env.reserve with
    | some e => simp [hres] at hbos
    | none =>
      cases hval : env.validate with
      | some e => simp [hres, hval] at hbos
      | none =>
        simp only [hres, hval, CsEnv.parsed, CsEnv.parsing, huf] at hbos
        simp at hbos
        exact ⟨rfl, rfl, hbos.2⟩
  obtain ⟨q', hbos', -, hqjob⟩ := csParserBos_parsed env cs ctx hparts.1 hparts.2.1
    fun _ => hparts.2.2
  rw [hbos'] at hbos
  cases hbos
  have haddr : t.ufAddr = some (env.job cs.numChunks.toNat).ufAddr := by
    rw [csIbVmChunk_ufAddr hvm, csDependencies_ufAddr hdeps, csIbFill_ufAddr hfill,
      CsParser.ufAddr, hqjob, Option.map_some]
  rw [CsParser.ufAddr, hjob, Option.map_some, Option.some.injEq] at haddr
  simp [haddr, CsEnv.job, CsEnv.locals, huf, hdata]

/-- **Where the value of a user fence is written.** The eight bytes at the address lie in the page
of the buffer object if and only if the sum of the offset and `8` does not wrap around in 32 bits.
No buffer object is in the last four gigabytes of the addresses of 64 bits. -/
theorem userFence_inside_iff (h : CsSubmits env cs job) {i : ℕ}
    (huf : env.ufChunk cs.numChunks.toNat = some i)
    (hplaced : env.ufGpuOffset.toNat + 2 ^ 32 ≤ 2 ^ 64) :
    (∀ addr, ibScheduleUserFence job = some addr → env.ufGpuOffset.toNat ≤ addr.toNat ∧
      addr.toNat + 8 ≤ env.ufGpuOffset.toNat + 4096) ↔
      ∀ data, env.data i = some data → (data 1).toNat + 8 < 2 ^ 32 := by
  obtain ⟨data, hdata, ⟨bo, -, hsize, hcheck, -⟩, haddr⟩ := h.ufAddr_eq huf
  have hlt := (data 1).isLt
  have hnat : job.ufAddr.toNat = (data 1).toNat + env.ufGpuOffset.toNat := by
    rw [haddr, BitVec.toNat_add, BitVec.toNat_setWidth]
    omega
  have hsum : ((data 1).toNat + 8) % 2 ^ 32 ≤ 4096 := by
    rw [BitVec.toNat_add] at hcheck
    exact hcheck.trans hsize.le
  constructor
  · intro hinside data' hdata'
    obtain rfl := Option.some.inj (hdata.symm.trans hdata')
    by_contra hwrap
    -- the offset is at least `2 ^ 32 - 8`, so that the ring is given an address behind the page
    have hne : job.ufAddr ≠ 0 := fun h0 => by
      rw [h0, show (0 : BitVec 64).toNat = 0 from rfl] at hnat
      omega
    have hle := (hinside job.ufAddr (if_pos hne)).2
    omega
  · intro hno addr hsome
    have hoff := hno data hdata
    rw [Nat.mod_eq_of_lt hoff] at hsum
    obtain rfl : job.ufAddr = addr := by
      unfold ibScheduleUserFence at hsome
      split_ifs at hsome
      exact Option.some.inj hsome
    omega

end

/-- A submission with a FENCE chunk for the offset `offset` in front of an IB, whose buffer object
is at `0x100000000`. -/
def userFenceEnv (offset : BitVec 32) : CsEnv where
  __ := quietEnv fun i => (if i = 0 then 2 else 1, 8)
  data := fun i => some fun j => if i = 0 ∧ j = 1 then offset else 0
  gemObjects := fun _ => some ⟨4096, false⟩
  ufGpuOffset := 0x100000000

/-- The offset `4088` is the last one in the page. -/
theorem userFence_inside_last : ∃ job, CsSubmits (userFenceEnv 4088) ⟨1, 0, 2⟩ job ∧
    ∀ addr, ibScheduleUserFence job = some addr → 0x100000000 ≤ addr.toNat ∧
      addr.toNat + 8 ≤ 0x100000000 + 4096 := by
  have hsubmits : CsSubmits (userFenceEnv 4088) ⟨1, 0, 2⟩ ⟨1, 0x100000ff8, some 0, 0⟩ :=
    ⟨_, _, _, _, _, rfl, rfl, rfl, rfl, rfl, rfl⟩
  refine ⟨_, hsubmits, (userFence_inside_iff hsubmits (i := 0) (by decide) (by decide)).mpr ?_⟩
  rintro data ⟨⟩
  decide

/-- The offset `0xfffffff8` passes the check, and the value is written four gigabytes behind the
page. -/
theorem userFence_outside : ∃ job addr, CsSubmits (userFenceEnv 0xfffffff8) ⟨1, 0, 2⟩ job ∧
    ibScheduleUserFence job = some addr ∧ ¬ addr.toNat + 8 ≤ 0x100000000 + 4096 :=
  ⟨⟨1, 0x1fffffff8, some 0, 0⟩, 0x1fffffff8, ⟨_, _, _, _, _, rfl, rfl, rfl, rfl, rfl, rfl⟩,
    by decide, by decide⟩

end Amdgpu
