import AmdgpuPro.Cs.Model

set_option autoImplicit false

/-!
# What a command submission leaves behind

When `amdgpu_cs_ioctl` returns, everything it acquired should have been released once, or gone with
the job. `amdgpu_cs_parser_fini` releases what the fields of the parser stand for, so a step is
right if it acquires a resource together with the field that stands for it.

This fails in four ways. An error in `amdgpu_cs_parser_init` after the context was looked up is
cleaned up there and again at the end. The second of two FENCE chunks overwrites the reference of
the buffer object of the first. Without chunks there is no job, and the call ends at a `NULL`
pointer. A dependency on a fence that is gone keeps the reference of its context.

## Main definitions

* `Amdgpu.Released` — the call returned, and left nothing behind.
* `CsParser.owed`, `CsParser.surplus` — what the fields of a parser stand for, and what the ledger
  has beyond that.

## Main results

* `Amdgpu.csParserFini_spec` — what `amdgpu_cs_parser_fini` releases.
* `csIoctl_released_iff` — a call leaves nothing behind if and only if its input is clean.
-/

namespace Amdgpu

/-! ## Property -/

/-- The call returned, and everything was released. -/
def Released (o : Outcome CsParser) : Prop := ∃ p r, o = .ret p r ∧ p.held.Balanced

namespace CsParser

/-- What the fields of a parser stand for. -/
def owed (p : CsParser) : Ledger CsRes
  | .ctx => if p.ctx.isSome then 1 else 0
  | .boList => if p.boList.isSome then 1 else 0
  | .fence => if p.fence then 1 else 0
  | .chunks => if p.chunks.isSome then 1 else 0
  | .kdata i => if i < p.nchunks then 1 else 0
  | .sync => (p.job.elim 0 CsJob.sync : ℕ)
  | .ufBo i => if p.ufRobj = some i then 1 else 0
  | _ => 0

/-- What the ledger has beyond the fields. -/
def surplus (p : CsParser) (k : CsRes) : ℤ := p.held k - p.owed k

/-- The data of all chunks is there. -/
def ChunksOk (p : CsParser) : Prop :=
  ∀ i < p.nchunks, ∃ chunk, p.chunks.bind (·[i]?) = some chunk ∧ chunk.kdata.isSome

end CsParser

/-! ## `amdgpu_cs_parser_fini` -/

section Fini

variable {env : CsEnv} {p p' : CsParser}

/-- The data of all chunks is freed. -/
theorem csFiniKdata_eq {n i : ℕ}
    (h : ∀ j, i ≤ j → j < i + n → ∃ chunk, p.chunks.bind (·[j]?) = some chunk ∧
      chunk.kdata.isSome) :
    csFiniKdata n i p = .ret (p.releaseAll ((List.range' i n).map .kdata)) none := by
  induction n generalizing i p with
  | zero => rfl
  | succ n ih =>
    obtain ⟨chunk, hchunk, hkdata⟩ := h i le_rfl (by omega)
    rw [csFiniKdata, hchunk]
    dsimp only
    rw [if_pos hkdata]
    exact ih (p := p.release (.kdata i)) fun j hij hj => h j (by omega) (by omega)

/-- What `releaseIf` gives back. -/
@[simp] theorem CsParser.releaseIf_held (p : CsParser) (c : Bool) (k j : CsRes) :
    (p.releaseIf c k).held j = p.held j - if c = true ∧ j = k then 1 else 0 := by
  by_cases hj : j = k
  · subst hj
    cases c <;> simp [CsParser.releaseIf, CsParser.releaseAll]
  · cases c <;> simp [CsParser.releaseIf, CsParser.releaseAll, hj, Ne.symm hj]

/-- The data of a chunk is among the data of the first `n` chunks once, if at all. -/
theorem count_kdata (n : ℕ) (k : CsRes) : ((List.range' 0 n).map CsRes.kdata).count k =
    match k with
    | .kdata i => if i < n then 1 else 0
    | _ => 0 := by
  cases k with
  | kdata i =>
    rw [List.count_map_of_injective _ _ fun a b h => CsRes.kdata.inj h,
      List.Nodup.count (List.nodup_range' 1)]
    simp
  | _ => exact List.count_eq_zero.mpr (by simp)

/-- The reference to the buffer object of the user fence. -/
theorem count_ufBo (o : Option ℕ) (k : CsRes) : (o.toList.map CsRes.ufBo).count k =
    match k with
    | .ufBo i => if o = some i then 1 else 0
    | _ => 0 := by
  cases k <;> cases o <;> simp [List.count_singleton]

/-- The first half of `amdgpu_cs_parser_fini`. -/
theorem csFiniRefs_held (p : CsParser) (k : CsRes) :
    (csFiniRefs p).held k = p.held k - (if p.fence = true ∧ k = .fence then 1 else 0) -
      (if p.ctx.isSome = true ∧ k = .ctx then 1 else 0) -
      (if p.boList.isSome = true ∧ k = .boList then 1 else 0) := by
  simp [csFiniRefs]

/-- The second half. -/
theorem csFiniRest_held (p : CsParser) (k : CsRes) :
    (csFiniRest p).held k = p.held k - (if p.chunks.isSome = true ∧ k = .chunks then 1 else 0) -
      (if k = .sync then ((p.job.elim 0 CsJob.sync : ℕ) : ℤ) else 0) -
      (p.ufRobj.toList.map CsRes.ufBo).count k := by
  have hjob : ∀ q : CsParser, (q.job.elim q q.dropJob).ufRobj = q.ufRobj ∧
      (q.job.elim q q.dropJob).held k =
        q.held k - (if k = .sync then ((q.job.elim 0 CsJob.sync : ℕ) : ℤ) else 0) := by
    intro q
    cases q.job with
    | none => simp
    | some job =>
      refine ⟨rfl, ?_⟩
      by_cases hk : k = .sync
      · simp [CsParser.dropJob, CsParser.releaseAll, hk]
      · simp [CsParser.dropJob, CsParser.releaseAll, List.count_replicate, hk, Ne.symm hk]
  unfold csFiniRest
  dsimp only [CsParser.releaseAll]
  rw [Ledger.releaseAll_apply, (hjob _).1, (hjob _).2, CsParser.releaseIf_held]
  rfl

/-- `amdgpu_cs_parser_fini` releases what the fields stand for. -/
theorem csParserFini_spec (h : p.ChunksOk) :
    ∃ p', csParserFini p = .ret p' none ∧ ∀ k, p'.held k = p.surplus k := by
  have hkdata : csFiniKdata p.nchunks 0 (csFiniRefs p) =
      .ret ((csFiniRefs p).releaseAll ((List.range' 0 p.nchunks).map .kdata)) none :=
    csFiniKdata_eq fun j _ hj => h j (by simpa using hj)
  refine ⟨_, by rw [csParserFini, hkdata], fun k => ?_⟩
  have hfields : ((csFiniRefs p).releaseAll ((List.range' 0 p.nchunks).map .kdata)).held k =
      (csFiniRefs p).held k - ((List.range' 0 p.nchunks).map CsRes.kdata).count k :=
    Ledger.releaseAll_apply _ _ _
  rw [csFiniRest_held, hfields, csFiniRefs_held]
  -- the releases so far changed nothing but the ledger
  dsimp only [CsParser.releaseAll, csFiniRefs, CsParser.releaseIf, CsParser.surplus]
  rw [count_kdata, count_ufBo]
  cases k <;> simp [CsParser.owed]

/-- A call that ends with `amdgpu_cs_parser_fini` leaves nothing behind if the ledger has what the
fields stand for. -/
theorem released_csOut (h : p.ChunksOk) (r : Option Errno) :
    Released (csOut env p r) ↔ ∀ k, p.surplus k = 0 := by
  obtain ⟨q, hq, hheld⟩ := csParserFini_spec h
  rw [csOut, hq]
  constructor
  · rintro ⟨q', r', heq, hbal⟩ k
    cases heq
    rw [← hheld k]
    exact hbal k
  · exact fun hzero => ⟨q, _, rfl, fun k => (hheld k).trans (hzero k)⟩

/-- The loop over the chunks does not touch the context. -/
theorem csFiniKdata_ctx {n i : ℕ} {r : Option Errno} (h : csFiniKdata n i p = .ret p' r) :
    p'.held .ctx = p.held .ctx := by
  induction n generalizing i p with
  | zero => cases h; rfl
  | succ n ih =>
    rw [csFiniKdata] at h
    split at h
    · cases h
    · rw [ih h]
      split_ifs
      · simp [CsParser.release]
      · rfl

/-- `amdgpu_cs_parser_fini` puts the context once more. -/
theorem not_released_csOut (hctx : p.ctx.isSome) (hheld : p.held .ctx = 0) (r : Option Errno) :
    ¬ Released (csOut env p r) := by
  rintro ⟨q, r', heq, hbal⟩
  unfold csOut csParserFini at heq
  split at heq
  · cases heq
  · next q' r'' hfini =>
    cases heq
    split at hfini
    · cases hfini
    · next q₁ _ hkdata =>
      cases hfini
      have hzero := hbal .ctx
      rw [csFiniRest_held, csFiniKdata_ctx hkdata, csFiniRefs_held, count_ufBo] at hzero
      simp [hctx, hheld] at hzero

end Fini

/-! ## Steps after the initialisation -/

section Steps

variable (env : CsEnv) {p p' : CsParser}

/-- The fields that the steps between the initialisation and the submission leave alone, if there
is a job. -/
structure Frame (p p' : CsParser) : Prop where
  nchunks : p'.nchunks = p.nchunks
  chunks : p'.chunks = p.chunks
  fence : p'.fence = p.fence
  job : p'.job.isSome = p.job.isSome

/-- Nothing happens. -/
theorem Frame.refl (p : CsParser) : Frame p p := ⟨rfl, rfl, rfl, rfl⟩

/-- One after the other. -/
theorem Frame.trans {p'' : CsParser} (h : Frame p p') (h' : Frame p' p'') : Frame p p'' :=
  ⟨h'.nchunks.trans h.nchunks, h'.chunks.trans h.chunks, h'.fence.trans h.fence,
    h'.job.trans h.job⟩

/-- It depends on the chunks only. -/
theorem CsParser.ChunksOk.congr (hok : p.ChunksOk) (hn : p'.nchunks = p.nchunks)
    (hc : p'.chunks = p.chunks) : p'.ChunksOk := by
  unfold CsParser.ChunksOk
  rw [hn, hc]
  exact hok

/-- A step that acquires and releases what it changes in the fields. -/
structure Keeps (p p' : CsParser) : Prop where
  frame : Frame p p'
  surplus : ∀ k, p'.surplus k = p.surplus k

/-- Nothing happens. -/
theorem Keeps.refl (p : CsParser) : Keeps p p := ⟨.refl p, fun _ => rfl⟩

/-- One after the other. -/
theorem Keeps.trans {p'' : CsParser} (h : Keeps p p') (h' : Keeps p' p'') : Keeps p p'' :=
  ⟨h.frame.trans h'.frame, fun k => (h'.surplus k).trans (h.surplus k)⟩

/-- A reference that no field stands for is too many. -/
@[simp] theorem CsParser.surplus_acquire (p : CsParser) (k j : CsRes) :
    (p.acquire k).surplus j = p.surplus j + if j = k then 1 else 0 := by
  have howed : (p.acquire k).owed j = p.owed j := rfl
  have hheld : (p.acquire k).held j = _ := Ledger.acquire_apply p.held k j
  rw [CsParser.surplus, CsParser.surplus, howed, hheld]
  ring

/-- Such a reference is given back. -/
@[simp] theorem CsParser.surplus_release (p : CsParser) (k j : CsRes) :
    (p.release k).surplus j = p.surplus j - if j = k then 1 else 0 := by
  have howed : (p.release k).owed j = p.owed j := rfl
  have hheld : (p.release k).held j = _ := Ledger.release_apply p.held k j
  rw [CsParser.surplus, CsParser.surplus, howed, hheld]
  ring

/-- `amdgpu_sync_fence` gives its reference to the job. -/
theorem Keeps.syncFence (hjob : p.job.isSome) (sync : SyncEnd) :
    Keeps p (p.syncFence sync).1 := by
  obtain ⟨job, hjob⟩ := Option.isSome_iff_exists.mp hjob
  cases sync with
  | error e => exact .refl p
  | kept => exact .refl p
  | added =>
    refine ⟨⟨rfl, rfl, rfl, by simp [CsParser.syncFence]⟩, fun k => ?_⟩
    cases k <;> simp [CsParser.surplus, CsParser.owed, CsParser.syncFence, CsParser.acquire, hjob]

/-- Fences are added to the job, which owns them. -/
theorem Keeps.syncFences (hjob : p.job.isSome) (syncs : List SyncEnd) :
    Keeps p (p.syncFences syncs).1 := by
  induction syncs generalizing p with
  | nil => exact .refl p
  | cons s ss ih =>
    have hkeeps := Keeps.syncFence hjob s
    rw [CsParser.syncFences]
    split
    · next q e heq => rw [heq] at hkeeps; exact hkeeps
    · next q heq =>
      rw [heq] at hkeeps
      exact hkeeps.trans (ih (hkeeps.frame.job.trans hjob))

/-- `amdgpu_cs_ib_vm_chunk` adds fences to the job. -/
theorem Keeps.ibVmChunk (hjob : p.job.isSome) : Keeps p (csIbVmChunk env p).1 := by
  have hkeeps := Keeps.syncFences hjob env.vmSync
  unfold csIbVmChunk
  split <;> next heq => rw [heq] at hkeeps; exact hkeeps

/-- `amdgpu_cs_submit` drops the job, or hands it over, and takes its fence. -/
theorem csSubmit_spec (hjob : p.job.isSome) (hfence : p.fence = false) :
    ∃ p' r, csSubmit env p = .ret p' r ∧ p'.nchunks = p.nchunks ∧ p'.chunks = p.chunks ∧
      ∀ k, p'.surplus k = p.surplus k := by
  obtain ⟨job, hjob⟩ := Option.isSome_iff_exists.mp hjob
  unfold csSubmit
  rw [hjob]
  dsimp only
  cases env.schedJobInit with
  | some e =>
    refine ⟨_, _, rfl, rfl, rfl, fun k => ?_⟩
    cases k <;> simp [CsParser.surplus, CsParser.owed, CsParser.dropJob, CsParser.releaseAll, hjob,
      List.count_replicate] <;> rfl
  | none =>
    refine ⟨_, _, rfl, rfl, rfl, fun k => ?_⟩
    cases k <;> simp [CsParser.surplus, CsParser.owed, CsParser.dropJob, CsParser.releaseAll,
      CsParser.acquire, hjob, hfence, List.count_replicate]

/-- A dependency without a fence is reached. -/
def depsLeak (env : CsEnv) : List (ℕ × ℕ × CsDep) → Bool
  | [] => false
  | (i, j, dep) :: deps =>
    match csGetRing env.rings dep.sel, env.ctxHandles dep.ctxId with
    | .ok ring, some ctx =>
      match ctxGetFence env.schedJobs (env.ctxRings ctx ring) dep.handle with
      | .error _ => false
      | .ok none => true
      | .ok (some _) =>
        match env.depSync i j with
        | .error _ => false
        | _ => depsLeak env deps
    | _, _ => false

/-- **The dependencies**: a dependency without a fence keeps a reference of its context, and this
is all that is kept. -/
theorem csDepLoop_spec (hjob : p.job.isSome) (deps : List (ℕ × ℕ × CsDep)) :
    Frame p (csDepLoop env deps p).1 ∧
      (∀ k, p.surplus k ≤ (csDepLoop env deps p).1.surplus k) ∧
      ((∀ k, (csDepLoop env deps p).1.surplus k = p.surplus k) ↔ depsLeak env deps = false) := by
  induction deps generalizing p with
  | nil => exact ⟨.refl p, fun _ => le_rfl, by simp [csDepLoop, depsLeak]⟩
  | cons d deps ih =>
    obtain ⟨i, j, dep⟩ := d
    rw [csDepLoop, depsLeak]
    cases csGetRing env.rings dep.sel with
    | error e => exact ⟨.refl p, fun _ => le_rfl, by simp⟩
    | ok ring =>
      cases env.ctxHandles dep.ctxId with
      | none => exact ⟨.refl p, fun _ => le_rfl, by simp⟩
      | some ctx =>
        dsimp only
        cases ctxGetFence env.schedJobs (env.ctxRings ctx ring) dep.handle with
        | error e =>
          exact ⟨⟨rfl, rfl, rfl, rfl⟩, fun k => by simp, by simp⟩
        | ok fence =>
          cases fence with
          | none =>
            -- the reference of the context stays
            dsimp only
            obtain ⟨hframe, hle, -⟩ := ih (p := p.acquire (.depCtx i j)) hjob
            have hacq : Frame p (p.acquire (.depCtx i j)) := ⟨rfl, rfl, rfl, rfl⟩
            refine ⟨hacq.trans hframe, fun k => ?_, ?_⟩
            · have := hle k
              rw [CsParser.surplus_acquire] at this
              split_ifs at this <;> omega
            · simp only [Bool.true_eq_false, iff_false, not_forall]
              refine ⟨.depCtx i j, ?_⟩
              have := hle (.depCtx i j)
              rw [CsParser.surplus_acquire, if_pos rfl] at this
              omega
          | some f =>
            have hsync := Keeps.syncFence (p := (p.acquire (.depCtx i j)).acquire (.depFence i j))
              hjob (env.depSync i j)
            have hkeeps : Keeps p ((((((p.acquire (.depCtx i j)).acquire
                (.depFence i j)).syncFence (env.depSync i j)).1.release (.depFence i j)).release
                (.depCtx i j))) := by
              refine ⟨⟨hsync.frame.nchunks, hsync.frame.chunks, hsync.frame.fence,
                hsync.frame.job⟩, fun k => ?_⟩
              rw [CsParser.surplus_release, CsParser.surplus_release, hsync.surplus,
                CsParser.surplus_acquire, CsParser.surplus_acquire]
              ring
            cases henv : env.depSync i j with
            | error e =>
              rw [henv] at hkeeps
              exact ⟨hkeeps.frame, fun k => (hkeeps.surplus k).ge, iff_of_true hkeeps.surplus rfl⟩
            | added =>
              rw [henv] at hkeeps
              obtain ⟨hframe, hle, hiff⟩ := ih (hkeeps.frame.job.trans hjob)
              simp only [hkeeps.surplus] at hle hiff
              exact ⟨hkeeps.frame.trans hframe, hle, hiff⟩
            | kept =>
              rw [henv] at hkeeps
              obtain ⟨hframe, hle, hiff⟩ := ih (hkeeps.frame.job.trans hjob)
              simp only [hkeeps.surplus] at hle hiff
              exact ⟨hkeeps.frame.trans hframe, hle, hiff⟩

/-- The IBs of a job can be filled, and its ring supports its user fence. -/
def CsEnv.IbFillOk (env : CsEnv) (job : CsJob) (chunks : List CsChunk) : Prop :=
  (csIbFillLoop env job.numIbs chunks 0 job.ring).2 = none ∧
    (job.ufAddr ≠ 0 → ∀ ring, (csIbFillLoop env job.numIbs chunks 0 job.ring).1 = some ring →
      env.multimedia ring = false)

/-- A loop without an error that has a ring, or meets an IB, ends with a ring. -/
theorem csIbFillLoop_ring {numIbs : ℕ} {chunks : List CsChunk} {j : ℕ} {ring : Option ℕ}
    (hok : (csIbFillLoop env numIbs chunks j ring).2 = none)
    (h : ring.isSome ∨ (j < numIbs ∧ ∃ c ∈ chunks, c.ibData.isSome)) :
    (csIbFillLoop env numIbs chunks j ring).1.isSome := by
  induction chunks generalizing j ring with
  | nil => simpa [csIbFillLoop] using h
  | cons c cs ih =>
    rw [csIbFillLoop] at hok ⊢
    by_cases hj : j < numIbs
    · rw [if_pos hj] at hok ⊢
      cases hdata : c.ibData with
      | none =>
        simp only [hdata] at hok ⊢
        refine ih hok (h.imp_right fun ⟨hlt, c', hc', hsome⟩ => ⟨hlt, c', ?_, hsome⟩)
        refine (List.mem_cons.mp hc').resolve_left fun he => ?_
        simp [he, hdata] at hsome
      | some data =>
        simp only [hdata] at hok ⊢
        split at hok
        · cases hok
        · split_ifs at hok ⊢
          split at hok
          · cases hok
          · exact ih hok (.inl rfl)
    · rw [if_neg hj] at hok ⊢
      exact h.resolve_right fun hh => hj hh.1

/-- `amdgpu_cs_ib_fill` sets the ring of the job. -/
theorem csIbFill_spec {job : CsJob} (hjob : p.job = some job) (hnum : 0 < job.numIbs)
    (hib : ∃ c ∈ p.chunks.getD [], c.ibData.isSome) :
    ∃ p' r, csIbFill env p = .ret p' r ∧ Keeps p p' ∧
      (r = none ↔ env.IbFillOk job (p.chunks.getD [])) := by
  have hkeeps : ∀ ring, Keeps p { p with job := some { job with ring := ring } } := fun ring =>
    ⟨⟨rfl, rfl, rfl, by simp [hjob]⟩, fun k => by
      cases k <;> simp [CsParser.surplus, CsParser.owed, hjob]⟩
  have hring := @csIbFillLoop_ring env job.numIbs (p.chunks.getD []) 0 job.ring
  unfold csIbFill CsEnv.IbFillOk
  rw [hjob]
  dsimp only
  generalize csIbFillLoop env job.numIbs (p.chunks.getD []) 0 job.ring = res at hring ⊢
  obtain ⟨ring, r⟩ := res
  cases r with
  | some e => exact ⟨_, _, rfl, hkeeps ring, by simp⟩
  | none =>
    obtain ⟨rg, hrg⟩ := Option.isSome_iff_exists.mp (hring rfl (.inr ⟨hnum, hib⟩))
    dsimp only at hrg
    subst hrg
    by_cases huf : job.ufAddr = 0
    · exact ⟨_, none, if_pos huf, hkeeps _, by simp [huf]⟩
    · refine ⟨_, _, if_neg huf, hkeeps _, ?_⟩
      cases hm : env.multimedia rg with
      | false => exact iff_of_true rfl ⟨rfl, fun _ ring hring => by cases hring; exact hm⟩
      | true => exact iff_of_false (by simp) fun hfill => by simpa [hm] using hfill.2 huf rg rfl

/-- After the IBs were filled, the call ends with `amdgpu_cs_parser_fini` for a parser that has
what the dependencies left. -/
theorem csProcess_eq {q : CsParser} (hok : p.ChunksOk) (hfence : p.fence = false)
    (hjob : p.job.isSome) (hfill : csIbFill env p = .ret q none) (hkeeps : Keeps p q) :
    ∃ p' r, csProcess env p = csOut env p' r ∧ p'.ChunksOk ∧
      ∀ k, p'.surplus k = (csDepLoop env (csDeps (q.chunks.getD [])) q).1.surplus k := by
  have hqjob := hkeeps.frame.job.trans hjob
  obtain ⟨hframe, -, -⟩ := csDepLoop_spec env hqjob (csDeps (q.chunks.getD []))
  have hall := hkeeps.frame.trans hframe
  unfold csProcess csDependencies
  rw [hfill]
  dsimp only
  generalize csDepLoop env (csDeps (q.chunks.getD [])) q = dres at hframe hall ⊢
  obtain ⟨p₁, r₁⟩ := dres
  have hok₁ : p₁.ChunksOk := hok.congr hall.nchunks hall.chunks
  cases r₁ with
  | some e => exact ⟨p₁, _, rfl, hok₁, fun _ => rfl⟩
  | none =>
    dsimp only
    have hsems := Keeps.syncFences (hall.job.trans hjob) env.sems
    generalize CsParser.syncFences env.sems p₁ = sres at hsems ⊢
    obtain ⟨p₂, r₂⟩ := sres
    have hok₂ : p₂.ChunksOk := hok₁.congr hsems.frame.nchunks hsems.frame.chunks
    cases r₂ with
    | some e => exact ⟨p₂, _, rfl, hok₂, hsems.surplus⟩
    | none =>
      dsimp only
      have hvm := Keeps.ibVmChunk env (hsems.frame.job.trans (hall.job.trans hjob))
      generalize csIbVmChunk env p₂ = vres at hvm ⊢
      obtain ⟨p₃, r₃⟩ := vres
      have h₃ := hsems.trans hvm
      have hok₃ : p₃.ChunksOk := hok₁.congr h₃.frame.nchunks h₃.frame.chunks
      cases r₃ with
      | some e => exact ⟨p₃, _, rfl, hok₃, h₃.surplus⟩
      | none =>
        dsimp only
        have hframe₃ := hall.trans h₃.frame
        obtain ⟨p₄, r₄, heq, hn, hc, hsur⟩ := csSubmit_spec env
          (hframe₃.job.trans hjob) (hframe₃.fence.trans hfence)
        rw [heq]
        exact ⟨p₄, r₄, rfl, hok₃.congr hn hc, fun k => (hsur k).trans (h₃.surplus k)⟩

/-- **From the IBs on**: nothing is left behind if the parser had what its fields stand for, and no
dependency without a fence is reached. -/
theorem released_csProcess {job : CsJob} (hok : p.ChunksOk) (hfence : p.fence = false)
    (hjob : p.job = some job) (hnum : 0 < job.numIbs)
    (hib : ∃ c ∈ p.chunks.getD [], c.ibData.isSome) (hnonneg : ∀ k, 0 ≤ p.surplus k) :
    Released (csProcess env p) ↔ (∀ k, p.surplus k = 0) ∧
      (env.IbFillOk job (p.chunks.getD []) → depsLeak env (csDeps (p.chunks.getD [])) = false) := by
  have hsome : p.job.isSome := by simp [hjob]
  obtain ⟨q, r, hfill, hkeeps, hiff⟩ := csIbFill_spec env hjob hnum hib
  cases r with
  | some e =>
    have hno : ¬ env.IbFillOk job (p.chunks.getD []) := fun h => by simpa using hiff.mpr h
    have heq : csProcess env p = csOut env q (some e) := by rw [csProcess, hfill]
    rw [heq, released_csOut (hok.congr hkeeps.frame.nchunks hkeeps.frame.chunks)]
    simp [hkeeps.surplus, hno]
  | none =>
    obtain ⟨p', r, heq, hok', hsur⟩ := csProcess_eq env hok hfence hsome hfill hkeeps
    have hqjob := hkeeps.frame.job.trans hsome
    obtain ⟨-, hle, hleak⟩ := csDepLoop_spec env hqjob (csDeps (q.chunks.getD []))
    rw [hkeeps.frame.chunks] at hle hleak hsur
    simp only [hkeeps.surplus] at hle hleak
    rw [heq, released_csOut hok']
    simp only [hsur]
    constructor
    · intro hzero
      have hp : ∀ k, p.surplus k = 0 := fun k =>
        le_antisymm ((hle k).trans (hzero k).le) (hnonneg k)
      exact ⟨hp, fun _ => hleak.mp fun k => (hzero k).trans (hp k).symm⟩
    · exact fun ⟨hp, hno⟩ k => (hleak.mpr (hno (hiff.mp rfl)) k).trans (hp k)

end Steps

/-! ## The initialisation -/

namespace CsEnv

variable (env : CsEnv)

/-- Chunk `i` as the user passes it. -/
def chunk (i : ℕ) : CsChunk :=
  ⟨((env.header i).getD (0, 0)).1, ((env.header i).getD (0, 0)).2, env.data i⟩

/-- The kind of chunk `i`. -/
def kind (i : ℕ) : Option ChunkId := ChunkId.ofNum (env.chunk i).chunkId

/-- A place for a user fence: a buffer object of one page, not of user memory, with eight bytes
behind the offset. -/
def UfOk (data : ℕ → BitVec 32) : Prop :=
  ∃ bo, env.gemObjects (data 0) = some bo ∧ bo.size = 4096 ∧ (data 1 + 8).toNat ≤ bo.size ∧
    bo.usermm = false

/-- Chunk `i` can be copied, is of a known kind, and a FENCE chunk names a place for the fence. -/
def ChunkOk (i : ℕ) : Prop :=
  (env.header i).isSome ∧ env.kdata i = true ∧ (env.kind i).isSome ∧
    ∃ data, env.data i = some data ∧
      (env.kind i = some .fence → 8 ≤ (env.chunk i).lengthDw.toNat * 4 ∧ env.UfOk data)

/-- The last FENCE chunk of the first `n` chunks. -/
def ufChunk (n : ℕ) : Option ℕ := ((List.range n).filter (env.kind · = some .fence)).getLast?

/-- `num_ibs` and `uf_offset` after `n` chunks. -/
def locals (n : ℕ) : InitLocals where
  numIbs := (List.range n).countP (env.kind · = some .ib)
  ufOffset := (env.ufChunk n).elim 0 fun i => ((env.data i).getD fun _ => 0) 1

/-- The resources after `n` chunks. -/
def initHeld (n : ℕ) : Ledger CsRes
  | .chunkArray => 1
  | .ctx => 1
  | .chunks => 1
  | .kdata i => if i < n then 1 else 0
  | .ufBo i => if i < n ∧ env.kind i = some .fence then 1 else 0
  | _ => 0

/-- The parser after `n` of `num` chunks. -/
def parsing (ctx num n : ℕ) : CsParser where
  ctx := some ctx
  nchunks := num
  chunks := some ((List.range n).map env.chunk)
  job := none
  boList := none
  ufRobj := env.ufChunk n
  fence := false
  held := env.initHeld n

variable {env} {ctx num i : ℕ}

/-- The last fence chunk, one chunk further. -/
theorem ufChunk_succ : env.ufChunk (i + 1) =
    if env.kind i = some .fence then some i else env.ufChunk i := by
  unfold ufChunk
  rw [List.range_succ, List.filter_append]
  split_ifs with h <;> simp [h]

/-- One chunk more. -/
theorem ite_le_eq (i j : ℕ) :
    (if j ≤ i then (1 : ℤ) else 0) = (if j < i then 1 else 0) + if j = i then 1 else 0 := by
  split_ifs <;> omega

/-- The references after one more chunk. -/
theorem initHeld_succ : env.initHeld (i + 1) =
    if env.kind i = some .fence then ((env.initHeld i).acquire (.kdata i)).acquire (.ufBo i)
    else (env.initHeld i).acquire (.kdata i) := by
  funext k
  cases k with
  | kdata j => split_ifs <;> simp [initHeld, ite_le_eq]
  | ufBo j =>
    by_cases hj : j = i
    · subst hj
      split_ifs with h <;> simp [initHeld, h]
    · have hlt : j < i + 1 ↔ j < i := by omega
      split_ifs <;> simp [initHeld, hlt, hj]
  | _ => split_ifs <;> simp [initHeld]

/-- The parser after one more chunk. -/
theorem parsing_succ : env.parsing ctx num (i + 1) =
    { env.parsing ctx num i with
      chunks := (env.parsing ctx num i).chunks.map (· ++ [env.chunk i])
      ufRobj := if env.kind i = some .fence then some i else env.ufChunk i
      held := if env.kind i = some .fence
        then ((env.initHeld i).acquire (.kdata i)).acquire (.ufBo i)
        else (env.initHeld i).acquire (.kdata i) } := by
  unfold parsing
  rw [List.range_succ, ufChunk_succ, initHeld_succ]
  simp

/-- The local variables after one more chunk. -/
theorem locals_succ : env.locals (i + 1) =
    { numIbs := (env.locals i).numIbs + if env.kind i = some .ib then 1 else 0
      ufOffset := if env.kind i = some .fence then ((env.data i).getD fun _ => 0) 1
        else (env.locals i).ufOffset } := by
  unfold locals
  rw [List.range_succ, List.countP_append, ufChunk_succ]
  split_ifs <;> simp_all

/-- A FENCE chunk with a place for the fence. -/
theorem csUserFenceChunk_ok {data : ℕ → BitVec 32} (h : env.UfOk data) (p : CsParser) :
    csUserFenceChunk env i data p =
      ({ p.acquire (.ufBo i) with ufRobj := some i }, .ok (data 1)) := by
  obtain ⟨bo, hbo, hsize, hoff, huser⟩ := h
  have hcond : ¬ (bo.size ≠ 4096 ∨ bo.size < (data 1 + 8).toNat) := by
    simp only [hsize, ne_eq, not_true_eq_false, false_or, not_lt]
    exact hsize ▸ hoff
  have hheld : ((p.held.acquire (.gem i)).acquire (.ufBo i)).release (.gem i) =
      p.held.acquire (.ufBo i) := by
    funext k
    simp only [Ledger.release_apply, Ledger.acquire_apply]
    ring
  unfold csUserFenceChunk
  rw [hbo]
  dsimp only
  rw [if_neg hcond, huser]
  simp [CsParser.release, CsParser.acquire, hheld]

/-- The chunk is fine: it goes to the chunks of the parser. -/
theorem csInitChunk_ok (h : env.ChunkOk i) :
    csInitChunk env i (env.locals i) (env.parsing ctx num i) =
      (env.parsing ctx num (i + 1), .ok (env.locals (i + 1))) := by
  obtain ⟨hheader, hkdata, hkind, data, hdata, hfence⟩ := h
  obtain ⟨⟨chunkId, lengthDw⟩, hheader⟩ := Option.isSome_iff_exists.mp hheader
  have hchunk : env.chunk i = ⟨chunkId, lengthDw, some data⟩ := by simp [chunk, hheader, hdata]
  have hk : env.kind i = ChunkId.ofNum chunkId := by rw [kind, hchunk]
  rw [hchunk] at hfence
  unfold csInitChunk
  rw [hheader, parsing_succ, locals_succ, hchunk]
  simp only [hkdata, hdata, Bool.not_true, Bool.false_eq_true, if_false, ← hk]
  cases hid : env.kind i with
  | none => simp [hid] at hkind
  | some kind =>
    cases kind with
    | ib => simp [CsParser.acquire, CsParser.addChunk, parsing]
    | dependencies => simp [CsParser.acquire, CsParser.addChunk, parsing]
    | fence =>
      obtain ⟨hlen, huf⟩ := hfence hid
      have hlt : ¬ lengthDw.toNat * 4 < 8 := not_lt.mpr hlen
      simp [hlt, csUserFenceChunk_ok huf, CsParser.acquire, CsParser.addChunk, parsing]

/-- A FENCE chunk without a place for the fence. The context is not touched. -/
theorem csUserFenceChunk_error {data : ℕ → BitVec 32} (h : ¬ env.UfOk data) (p : CsParser) :
    ∃ p' e, csUserFenceChunk env i data p = (p', .error e) ∧ p'.ctx = p.ctx ∧
      p'.held .ctx = p.held .ctx := by
  unfold csUserFenceChunk
  cases hbo : env.gemObjects (data 0) with
  | none => exact ⟨p, _, rfl, rfl, rfl⟩
  | some bo =>
    dsimp only
    split_ifs with hcond huser
    · exact ⟨_, _, rfl, rfl, by simp [CsParser.acquire]⟩
    · exact ⟨_, _, rfl, rfl, by simp [CsParser.acquire, CsParser.release]⟩
    · push Not at hcond
      exact absurd ⟨bo, hbo, hcond.1, hcond.2, by simpa using huser⟩ h

/-- A chunk that is not fine is an error. The context is not touched. -/
theorem csInitChunk_error (h : ¬ env.ChunkOk i) (st : InitLocals) (p : CsParser) :
    ∃ p' e, csInitChunk env i st p = (p', .error e) ∧ p'.ctx = p.ctx ∧
      p'.held .ctx = p.held .ctx := by
  unfold csInitChunk
  cases hheader : env.header i with
  | none => exact ⟨p, _, rfl, rfl, rfl⟩
  | some header =>
    obtain ⟨chunkId, lengthDw⟩ := header
    have hk : env.kind i = ChunkId.ofNum chunkId := by simp [kind, chunk, hheader]
    dsimp only
    cases hkdata : env.kdata i with
    | false => exact ⟨_, _, rfl, rfl, rfl⟩
    | true =>
      cases hdata : env.data i with
      | none => exact ⟨_, _, rfl, rfl, by simp [CsParser.acquire, CsParser.addChunk]⟩
      | some data =>
        simp only [Bool.not_true, Bool.false_eq_true, if_false]
        cases hid : ChunkId.ofNum chunkId with
        | none => exact ⟨_, _, rfl, rfl, by simp [CsParser.acquire, CsParser.addChunk]⟩
        | some kind =>
          have hok : (kind = .fence → 8 ≤ lengthDw.toNat * 4 ∧ env.UfOk data) → False :=
            fun hf => h ⟨by simp [hheader], hkdata, by simp [hk, hid], data, hdata, fun hkf => by
              rw [hk, hid] at hkf
              simpa [chunk, hheader] using hf (Option.some.inj hkf)⟩
          cases kind with
          | ib => exact (hok fun he => by cases he).elim
          | dependencies => exact (hok fun he => by cases he).elim
          | fence =>
            dsimp only
            split_ifs with hlen
            · exact ⟨_, _, rfl, rfl, by simp [CsParser.acquire, CsParser.addChunk]⟩
            · have huf : ¬ env.UfOk data := fun huf => hok fun _ => ⟨not_lt.mp hlen, huf⟩
              obtain ⟨p', e, heq, hctx, hheld⟩ := csUserFenceChunk_error (i := i) huf
                ((p.acquire (.kdata i)).addChunk ⟨chunkId, lengthDw, some data⟩)
              refine ⟨p', (e, i + 1), by rw [heq], hctx, ?_⟩
              rw [hheld]
              simp [CsParser.acquire, CsParser.addChunk]

/-- The loop over the chunks ends with all of them, or with an error at one that is not fine. -/
theorem csInitChunks_cases (env : CsEnv) (ctx num n i : ℕ) :
    ((∀ j, i ≤ j → j < i + n → env.ChunkOk j) ∧
      csInitChunks env n i (env.locals i) (env.parsing ctx num i) =
        (env.parsing ctx num (i + n), .ok (env.locals (i + n)))) ∨
    ((∃ j, i ≤ j ∧ j < i + n ∧ ¬ env.ChunkOk j) ∧
      ∃ p' e, csInitChunks env n i (env.locals i) (env.parsing ctx num i) = (p', .error e) ∧
        p'.ctx = some ctx ∧ p'.held .ctx = 1) := by
  induction n generalizing i with
  | zero => exact .inl ⟨fun j h1 h2 => by omega, rfl⟩
  | succ n ih =>
    rw [csInitChunks]
    by_cases hi : env.ChunkOk i
    · rw [csInitChunk_ok hi]
      dsimp only
      have hadd : i + (n + 1) = i + 1 + n := by omega
      rw [hadd]
      refine (ih (i + 1)).imp (fun ⟨hall, heq⟩ => ⟨fun j h1 h2 => ?_, heq⟩)
        fun ⟨⟨j, h1, h2, hj⟩, herr⟩ => ⟨⟨j, by omega, h2, hj⟩, herr⟩
      by_cases hj : j = i
      · exact hj ▸ hi
      · exact hall j (by omega) h2
    · obtain ⟨p', e, heq, hctx, hheld⟩ := csInitChunk_error hi (env.locals i)
        (env.parsing ctx num i)
      rw [heq]
      exact .inr ⟨⟨i, le_rfl, by omega, hi⟩, p', e, rfl, hctx, hheld⟩

variable (env)

/-- The chunks are fine, one of them is an IB, and there is memory. -/
structure InitOk (num : ℕ) : Prop where
  copyChunkArray : env.copyChunkArray = true
  chunks : env.chunks = true
  chunkOk : ∀ i < num, env.ChunkOk i
  ib : ∃ i < num, env.kind i = some .ib
  jobAlloc : env.jobAlloc = true

/-- The chunks of the parser. -/
def chunkList (num : ℕ) : List CsChunk := (List.range num).map env.chunk

/-- The job after the initialisation. -/
def initJob (num : ℕ) : CsJob where
  numIbs := (env.locals num).numIbs
  ufAddr := if (env.ufChunk num).isSome then (env.locals num).ufOffset.setWidth 64 else 0
  ring := none
  sync := 0

/-- The parser after the initialisation. -/
def parsed (ctx num : ℕ) : CsParser :=
  { env.parsing ctx num num with
    job := some (env.initJob num)
    held := (env.initHeld num).release .chunkArray }

variable {env}

/-- There is an IB to run. -/
theorem numIbs_pos_iff : 0 < (env.locals num).numIbs ↔ ∃ i < num, env.kind i = some .ib := by
  simp [locals, List.countP_pos_iff]

/-- The parser before the first chunk. -/
theorem parsing_zero : env.parsing ctx num 0 =
    { ((CsParser.init.acquire .chunkArray).acquire .ctx).acquire .chunks with
      ctx := some ctx, nchunks := num, chunks := some [] } := by
  have hheld : env.initHeld 0 =
      ((Ledger.empty.acquire .chunkArray).acquire .ctx).acquire .chunks := by
    funext k
    cases k <;> simp [initHeld]
  simp [parsing, hheld, ufChunk, CsParser.init, CsParser.acquire]

section

variable {cs : CsIn} (hnum : cs.numChunks.toNat = num) (hne : num ≠ 0)
  (harray : env.chunkArray = true) (hctx : env.ctxHandles cs.ctxId = some ctx)

include hnum hne harray hctx

/-- `amdgpu_cs_parser_init` up to the loop over the chunks. -/
theorem csParserInit_eq : csParserInit env cs .init =
    let p := { (CsParser.init.acquire .chunkArray).acquire .ctx with ctx := some ctx }
    if !env.copyChunkArray then (csPutCtx p, some .EFAULT)
    else if !env.chunks then (csPutCtx { p with nchunks := num }, some .ENOMEM)
    else
      match csInitChunks env num 0 (env.locals 0) (env.parsing ctx num 0) with
      | (p, .error (e, k)) => (csFreePartialKdata k p, some e)
      | (p, .ok st) =>
        if st.numIbs = 0 then (csFreePartialKdata num p, some .EINVAL)
        else if !env.jobAlloc then (csFreePartialKdata num p, some .ENOMEM)
        else
          ({ p.release .chunkArray with
            job := some ⟨st.numIbs, if p.ufRobj.isSome then st.ufOffset.setWidth 64 else 0,
              none, 0⟩ }, none) := by
  unfold csParserInit
  dsimp only
  rw [hnum, if_neg hne, harray, hctx, parsing_zero]
  rfl

/-- `amdgpu_cs_parser_init` for an input that is fine. -/
theorem csParserInit_ok (h : env.InitOk num) :
    csParserInit env cs .init = (env.parsed ctx num, none) := by
  obtain ⟨-, hloop⟩ := (csInitChunks_cases env ctx num num 0).resolve_right
    fun ⟨⟨j, _, hj, hno⟩, _⟩ => hno (h.chunkOk j (by omega))
  have hpos := numIbs_pos_iff.mpr h.ib
  rw [csParserInit_eq hnum hne harray hctx, hloop, Nat.zero_add]
  simp only [h.copyChunkArray, h.chunks, h.jobAlloc, hpos.ne', Bool.not_true, Bool.false_eq_true,
    if_false]
  rfl

/-- An error of `amdgpu_cs_parser_init` after the context was looked up: it puts the context, but
does not forget it. -/
theorem csParserInit_error (h : ¬ env.InitOk num) :
    ∃ p e, csParserInit env cs .init = (p, some e) ∧ p.ctx.isSome ∧ p.held .ctx = 0 := by
  have hfree : ∀ {p : CsParser} {e : Errno} k, p.ctx = some ctx → p.held .ctx = 1 →
      ∃ p' e', (csFreePartialKdata k p, some e) = (p', some e') ∧ p'.ctx.isSome ∧
        p'.held .ctx = 0 := by
    intro p e k hp hheld
    refine ⟨_, _, rfl, by simp [csFreePartialKdata, csPutCtx, CsParser.release,
      CsParser.releaseAll, hp], ?_⟩
    have hcount : ((List.range k).map CsRes.kdata).count .ctx = 0 :=
      List.count_eq_zero.mpr (by simp)
    simp [csFreePartialKdata, csPutCtx, CsParser.release, CsParser.releaseAll, hheld, hcount]
  rw [csParserInit_eq hnum hne harray hctx]
  cases hcopy : env.copyChunkArray with
  | false => exact ⟨_, _, rfl, rfl, rfl⟩
  | true =>
    cases hchunks : env.chunks with
    | false => exact ⟨_, _, rfl, rfl, rfl⟩
    | true =>
      simp only [Bool.not_true, Bool.false_eq_true, if_false]
      rcases csInitChunks_cases env ctx num num 0 with ⟨hall, heq⟩ | ⟨-, p', ⟨e, k⟩, heq, hp, hheld⟩
      · rw [heq, Nat.zero_add]
        dsimp only
        by_cases hib : (env.locals num).numIbs = 0
        · rw [if_pos hib]
          exact hfree num rfl rfl
        · rw [if_neg hib]
          cases halloc : env.jobAlloc with
          | false => exact hfree num rfl rfl
          | true => exact absurd ⟨hcopy, hchunks, fun i hi => hall i (by omega) (by omega),
              numIbs_pos_iff.mp (Nat.pos_of_ne_zero hib), halloc⟩ h
      · rw [heq]
        exact hfree k hp hheld

end

/-! ## Buffer objects -/

/-- A FENCE chunk is one of the chunks. -/
theorem ufChunk_spec (h : env.ufChunk num = some i) : i < num ∧ env.kind i = some .fence := by
  have := List.mem_of_getLast? h
  simpa using this

/-- What the parser has beyond its fields after the initialisation: buffer objects of FENCE chunks
but the last one. -/
theorem surplus_parsed (k : CsRes) : (env.parsed ctx num).surplus k =
    match k with
    | .ufBo i => (if i < num ∧ env.kind i = some .fence then 1 else 0) -
        if env.ufChunk num = some i then 1 else 0
    | _ => 0 := by
  cases k <;> simp [CsParser.surplus, CsParser.owed, parsed, parsing, initHeld, initJob]

/-- No field is without its reference. -/
theorem surplus_parsed_nonneg (k : CsRes) : 0 ≤ (env.parsed ctx num).surplus k := by
  rw [surplus_parsed]
  cases k with
  | ufBo i =>
    dsimp only
    split_ifs with h1 h2 h2
    · omega
    · omega
    · exact absurd (ufChunk_spec h2) h1
    · omega
  | _ => exact le_rfl

/-- There is one FENCE chunk at most. -/
def OneFence (env : CsEnv) (num : ℕ) : Prop :=
  ∀ i j, i < num → j < num → env.kind i = some .fence → env.kind j = some .fence → i = j

/-- **Parsing leaves nothing over** if and only if there is one fence chunk at most. -/
theorem surplus_parsed_eq_zero_iff :
    (∀ k, (env.parsed ctx num).surplus k = 0) ↔ env.OneFence num := by
  simp only [surplus_parsed]
  constructor
  · -- every FENCE chunk is the last one
    intro h i j hi hj hki hkj
    have hlast : ∀ i, i < num → env.kind i = some .fence → env.ufChunk num = some i := by
      intro i hi hk
      by_contra hno
      have := h (.ufBo i)
      simp [hi, hk, hno] at this
    exact Option.some.inj ((hlast i hi hki).symm.trans (hlast j hj hkj))
  · intro h k
    cases k with
    | ufBo i =>
      dsimp only
      cases huf : env.ufChunk num with
      | none =>
        have hno : ¬ (i < num ∧ env.kind i = some .fence) := fun ⟨hi, hk⟩ => by
          have hnil := List.getLast?_eq_none_iff.mp huf
          simpa [hi, hk] using (List.filter_eq_nil_iff.mp hnil) i (by simpa using hi)
        simp [hno]
      | some j =>
        obtain ⟨hj, hkj⟩ := ufChunk_spec huf
        by_cases hij : i = j
        · subst hij
          simp [hj, hkj]
        · have hno : ¬ (i < num ∧ env.kind i = some .fence) := fun ⟨hi, hk⟩ =>
            hij (h i j hi hj hk hkj)
          simp [hno, Ne.symm hij]
    | _ => rfl

/-- The data of all chunks is there. -/
theorem parsed_chunksOk (h : env.InitOk num) : (env.parsed ctx num).ChunksOk := by
  intro i hi
  obtain ⟨-, -, -, data, hdata, -⟩ := h.chunkOk i hi
  have hget : (List.range num)[i]? = some i := List.getElem?_range hi
  exact ⟨env.chunk i, by simp [parsed, parsing, hget], by simp [chunk, hdata]⟩

/-- One of the chunks is an IB. -/
theorem exists_ibData (h : env.InitOk num) : ∃ c ∈ env.chunkList num, c.ibData.isSome := by
  obtain ⟨i, hi, hk⟩ := h.ib
  obtain ⟨-, -, -, data, hdata, -⟩ := h.chunkOk i hi
  refine ⟨env.chunk i, List.mem_map_of_mem (List.mem_range.mpr hi), ?_⟩
  have hid : ChunkId.ofNum (env.chunk i).chunkId = some .ib := hk
  rw [CsChunk.ibData, if_pos hid]
  simp [chunk, hdata]

end CsEnv

/-- The parser with the list of buffer objects. -/
def CsParser.withBoList (p : CsParser) (env : CsEnv) (cs : CsIn) : CsParser :=
  { (if (env.boLists cs.boListHandle).isSome then p.acquire .boList else p) with
    boList := env.boLists cs.boListHandle }

/-- `amdgpu_cs_parser_bos` takes the list of buffer objects together with the field for it. -/
theorem Keeps.withBoList (env : CsEnv) (cs : CsIn) {p : CsParser} (h : p.boList = none) :
    Keeps p (p.withBoList env cs) := by
  unfold CsParser.withBoList
  cases env.boLists cs.boListHandle with
  | none =>
    refine ⟨⟨rfl, rfl, rfl, rfl⟩, fun k => ?_⟩
    cases k <;> simp [CsParser.surplus, CsParser.owed, h]
  | some list =>
    refine ⟨⟨rfl, rfl, rfl, rfl⟩, fun k => ?_⟩
    cases k <;> simp [CsParser.surplus, CsParser.owed, CsParser.acquire, h]

/-- The job is not touched. -/
theorem CsParser.withBoList_job (p : CsParser) (env : CsEnv) (cs : CsIn) :
    (p.withBoList env cs).job = p.job ∧ (p.withBoList env cs).ufRobj = p.ufRobj := by
  unfold CsParser.withBoList
  split_ifs <;> exact ⟨rfl, rfl⟩

/-- `amdgpu_cs_parser_bos` after the list of buffer objects was taken. -/
theorem csParserBos_eq (env : CsEnv) (cs : CsIn) (p : CsParser) :
    csParserBos env cs p =
      match env.reserve, env.validate with
      | some e, _ => .ret (p.withBoList env cs) (some e)
      | none, some e => .ret (p.withBoList env cs) (some e)
      | none, none =>
        if env.boLists cs.boListHandle = some true ∧ p.job.isNone then
          .bug (p.withBoList env cs)
        else if p.ufRobj.isNone then .ret (p.withBoList env cs) none
        else
          match p.job with
          | none => .bug (p.withBoList env cs)
          | some job =>
            .ret { p.withBoList env cs with
              job := some { job with ufAddr := job.ufAddr + env.ufGpuOffset } } env.ttmBind := by
  obtain ⟨hjob, huf⟩ := p.withBoList_job env cs
  rw [← hjob, ← huf]
  unfold csParserBos CsParser.withBoList
  cases env.reserve with
  | some e => rfl
  | none => cases env.validate <;> rfl

/-! ## The call -/

namespace CsEnv

variable (env : CsEnv)

/-- The job when the IBs are filled: it has the address of the user fence. -/
def job (num : ℕ) : CsJob :=
  { env.initJob num with ufAddr := if (env.ufChunk num).isSome
      then (env.locals num).ufOffset.setWidth 64 + env.ufGpuOffset else 0 }

/-- The dependencies are looked at: the buffer objects and the IBs are fine. -/
structure ReachesDeps (num : ℕ) : Prop where
  reserve : env.reserve = none
  validate : env.validate = none
  ttmBind : (env.ufChunk num).isSome → env.ttmBind = none
  ibFill : env.IbFillOk (env.job num) (env.chunkList num)

/-- The inputs that leave nothing behind. Without chunks, the buffer objects have to fail. With
chunks, and a context for them, the chunks have to be fine, there is one FENCE chunk at most, and no
dependency without a fence is reached. -/
def Clean (cs : CsIn) : Prop :=
  env.accelWorking = true →
    (cs.numChunks.toNat = 0 → env.reserve.isSome ∨ env.validate.isSome) ∧
    (cs.numChunks.toNat ≠ 0 → env.chunkArray = true → (env.ctxHandles cs.ctxId).isSome →
      env.InitOk cs.numChunks.toNat ∧ env.OneFence cs.numChunks.toNat ∧
      (env.ReachesDeps cs.numChunks.toNat →
        depsLeak env (csDeps (env.chunkList cs.numChunks.toNat)) = false))

end CsEnv

/-- A parser without anything. -/
theorem CsParser.init_surplus (k : CsRes) : CsParser.init.surplus k = 0 := by
  cases k <;> simp [CsParser.surplus, CsParser.owed, CsParser.init]

/-- At the start there are no chunks. -/
theorem CsParser.init_chunksOk : CsParser.init.ChunksOk :=
  fun i hi => absurd hi (Nat.not_lt_zero i)

/-- A call without chunks: it has no job, and returns only if the buffer objects fail. -/
theorem released_of_no_chunks (env : CsEnv) (cs : CsIn) :
    Released (csParsed env cs .init) ↔ env.reserve.isSome ∨ env.validate.isSome := by
  have hkeeps := Keeps.withBoList env cs (p := .init) rfl
  have hok : (CsParser.init.withBoList env cs).ChunksOk :=
    CsParser.init_chunksOk.congr hkeeps.frame.nchunks hkeeps.frame.chunks
  have hsur : ∀ k, (CsParser.init.withBoList env cs).surplus k = 0 := fun k =>
    (hkeeps.surplus k).trans (CsParser.init_surplus k)
  have hout : ∀ e, Released (csOut env (CsParser.init.withBoList env cs) (some e)) := fun e =>
    (released_csOut hok _).mpr hsur
  unfold csParsed
  rw [csParserBos_eq]
  cases hres : env.reserve with
  | some e => simpa using hout e
  | none =>
    cases hval : env.validate with
    | some e => simpa using hout e
    | none =>
      have hjob : (CsParser.init.withBoList env cs).job = none :=
        (CsParser.withBoList_job .init env cs).1
      have hfill : csProcess env (CsParser.init.withBoList env cs) =
          .bug (CsParser.init.withBoList env cs) := by
        simp [csProcess, csIbFill, hjob]
      have hbug : ¬ Released (.bug (CsParser.init.withBoList env cs)) :=
        fun ⟨_, _, heq, _⟩ => nomatch heq
      refine iff_of_false ?_ (by simp)
      dsimp only
      split_ifs with hlist huf
      · exact hbug
      · dsimp only
        rw [hfill]
        exact hbug
      · exact absurd rfl huf

/-- The address of the user fence in the job. -/
theorem CsEnv.keeps_job (env : CsEnv) {p : CsParser} {num : ℕ}
    (h : p.job = some (env.initJob num)) :
    Keeps p { p with job := some (env.job num) } := by
  refine ⟨⟨rfl, rfl, rfl, by simp [h]⟩, fun k => ?_⟩
  cases k <;> simp [CsParser.surplus, CsParser.owed, h, CsEnv.job]

/-- The buffer objects are fine: the parser has the job for the IBs. -/
theorem csParserBos_parsed (env : CsEnv) (cs : CsIn) (ctx : ℕ) {num : ℕ}
    (hres : env.reserve = none) (hval : env.validate = none)
    (hbind : (env.ufChunk num).isSome → env.ttmBind = none) :
    ∃ p, csParserBos env cs (env.parsed ctx num) = .ret p none ∧ Keeps (env.parsed ctx num) p ∧
      p.job = some (env.job num) := by
  obtain ⟨hjob, -⟩ := (env.parsed ctx num).withBoList_job env cs
  have hkeeps : Keeps (env.parsed ctx num) _ := Keeps.withBoList env cs rfl
  have hpjob : (env.parsed ctx num).job = some (env.initJob num) := rfl
  have hpuf : (env.parsed ctx num).ufRobj = env.ufChunk num := rfl
  rw [csParserBos_eq, hres, hval]
  dsimp only
  rw [if_neg (by simp [hpjob]), hpuf, hpjob]
  cases huf : env.ufChunk num with
  | none =>
    refine ⟨_, if_pos rfl, hkeeps, hjob.trans ?_⟩
    simp [hpjob, CsEnv.job, CsEnv.initJob, huf]
  | some i =>
    have hjobEq : { env.initJob num with
        ufAddr := (env.initJob num).ufAddr + env.ufGpuOffset } = env.job num := by
      simp [CsEnv.job, CsEnv.initJob, huf]
    rw [hbind (by simp [huf])]
    dsimp only
    rw [hjobEq]
    exact ⟨_, if_neg (by simp), hkeeps.trans (env.keeps_job (hjob.trans hpjob)), rfl⟩

/-- The buffer objects are not fine. -/
theorem csParserBos_parsed_error (env : CsEnv) (cs : CsIn) (ctx num : ℕ)
    (h : ¬ (env.reserve = none ∧ env.validate = none ∧
      ((env.ufChunk num).isSome → env.ttmBind = none))) :
    ∃ p e, csParserBos env cs (env.parsed ctx num) = .ret p (some e) ∧
      Keeps (env.parsed ctx num) p := by
  obtain ⟨hjob, -⟩ := (env.parsed ctx num).withBoList_job env cs
  have hkeeps : Keeps (env.parsed ctx num) _ := Keeps.withBoList env cs rfl
  rw [csParserBos_eq]
  cases hres : env.reserve with
  | some e => exact ⟨_, e, rfl, hkeeps⟩
  | none =>
    cases hval : env.validate with
    | some e => exact ⟨_, e, rfl, hkeeps⟩
    | none =>
      have hnot : ¬ ((env.ufChunk num).isSome → env.ttmBind = none) := fun hb =>
        h ⟨hres, hval, hb⟩
      push Not at hnot
      obtain ⟨e, he⟩ := Option.ne_none_iff_exists'.mp hnot.2
      have hpjob : (env.parsed ctx num).job = some (env.initJob num) := rfl
      have hpuf : ¬ (env.parsed ctx num).ufRobj.isNone = true := by
        simpa [CsEnv.parsed, CsEnv.parsing, Option.isSome_iff_ne_none] using hnot.1
      have hjobEq : { env.initJob num with
          ufAddr := (env.initJob num).ufAddr + env.ufGpuOffset } = env.job num := by
        simp [CsEnv.job, CsEnv.initJob, hnot.1]
      dsimp only
      rw [if_neg (by simp [hpjob]), if_neg hpuf, hpjob, he]
      dsimp only
      rw [hjobEq]
      exact ⟨_, e, rfl, hkeeps.trans (env.keeps_job (hjob.trans hpjob))⟩

/-- A call the chunks of which are fine. -/
theorem released_csParsed {env : CsEnv} {cs : CsIn} {ctx num : ℕ} (h : env.InitOk num) :
    Released (csParsed env cs (env.parsed ctx num)) ↔ env.OneFence num ∧
      (env.ReachesDeps num → depsLeak env (csDeps (env.chunkList num)) = false) := by
  have hok : (env.parsed ctx num).ChunksOk := CsEnv.parsed_chunksOk h
  by_cases hbos : env.reserve = none ∧ env.validate = none ∧
      ((env.ufChunk num).isSome → env.ttmBind = none)
  · obtain ⟨hres, hval, hbind⟩ := hbos
    obtain ⟨p, hrun, hkeeps, hjob⟩ := csParserBos_parsed env cs ctx hres hval hbind
    have hchunks : p.chunks.getD [] = env.chunkList num := by
      rw [hkeeps.frame.chunks]
      rfl
    have hmain := released_csProcess env (hok.congr hkeeps.frame.nchunks hkeeps.frame.chunks)
      hkeeps.frame.fence hjob (CsEnv.numIbs_pos_iff.mpr h.ib) (hchunks ▸ CsEnv.exists_ibData h)
      fun k => by
        rw [hkeeps.surplus]
        exact CsEnv.surplus_parsed_nonneg k
    rw [csParsed, hrun]
    dsimp only
    rw [hmain]
    simp only [hkeeps.surplus, hchunks]
    exact and_congr CsEnv.surplus_parsed_eq_zero_iff
      (imp_congr_left ⟨fun hf => ⟨hres, hval, hbind, hf⟩, CsEnv.ReachesDeps.ibFill⟩)
  · obtain ⟨p, e, hrun, hkeeps⟩ := csParserBos_parsed_error env cs ctx num hbos
    have hskip : ¬ env.ReachesDeps num := fun hr => hbos ⟨hr.reserve, hr.validate, hr.ttmBind⟩
    rw [csParsed, hrun]
    dsimp only
    rw [released_csOut (hok.congr hkeeps.frame.nchunks hkeeps.frame.chunks)]
    simp only [hkeeps.surplus]
    exact CsEnv.surplus_parsed_eq_zero_iff.trans (and_iff_left fun hr => absurd hr hskip).symm

/-- **What a command submission leaves behind**: nothing, if and only if its input is clean. -/
theorem csIoctl_released_iff (env : CsEnv) (cs : CsIn) :
    Released (csIoctl env cs) ↔ env.Clean cs := by
  unfold csIoctl CsEnv.Clean
  cases haccel : env.accelWorking with
  | false => simpa using ⟨_, _, rfl, fun k => rfl⟩
  | true =>
    simp only [Bool.not_true, Bool.false_eq_true, if_false, true_implies]
    by_cases hnum : cs.numChunks.toNat = 0
    · have hinit : csParserInit env cs .init = (.init, none) := if_pos hnum
      simp [hinit, hnum, released_of_no_chunks]
    · simp only [hnum, false_implies, ne_eq, not_false_eq_true, true_implies, true_and]
      have hempty : ∀ r, Released (csOut env .init r) := fun r =>
        (released_csOut CsParser.init_chunksOk r).mpr CsParser.init_surplus
      cases harray : env.chunkArray with
      | false =>
        have hinit : csParserInit env cs .init = (.init, some .ENOMEM) := by
          simp [csParserInit, hnum, harray]
        rw [hinit]
        simpa using hempty _
      | true =>
        cases hctx : env.ctxHandles cs.ctxId with
        | none =>
          have hledger : (Ledger.empty.acquire CsRes.chunkArray).release .chunkArray = .empty := by
            funext k
            simp
          have hinit : csParserInit env cs .init = (.init, some .EINVAL) := by
            simp [csParserInit, hnum, harray, hctx, CsParser.acquire, CsParser.release,
              CsParser.init, hledger]
          rw [hinit]
          simpa using hempty _
        | some ctx =>
          by_cases hok : env.InitOk cs.numChunks.toNat
          · rw [CsEnv.csParserInit_ok rfl hnum harray hctx hok]
            simp [hok, released_csParsed hok]
          · obtain ⟨p, e, heq, hp, hheld⟩ := CsEnv.csParserInit_error rfl hnum harray hctx hok
            rw [heq]
            simpa [hok] using not_released_csOut hp hheld (some e)

/-- An environment in which nothing fails: one graphics ring, and one context with 99
submissions. The chunks have the given numbers and lengths, and their data is `1` everywhere but for
the ring. -/
def quietEnv (header : ℕ → BitVec 32 × BitVec 32) : CsEnv where
  accelWorking := true
  rings := ⟨1, 0, 0, fun _ _ => 0⟩
  multimedia _ := false
  schedJobs := 32
  ctxHandles id := if id = 1 then some 0 else none
  ctxRings _ _ := ⟨100, fun k => some k⟩
  chunkArray := true
  copyChunkArray := true
  chunks := true
  header i := some (header i)
  kdata _ := true
  data i := some fun k => if k < 3 ∨ (i = 0 ∧ 5 ≤ k) ∨ k = 5 then 0 else 1
  gemObjects _ := none
  jobAlloc := true
  boLists _ := none
  reserve := none
  validate := none
  ttmBind := none
  ufGpuOffset := 0
  ibGet _ := none
  depSync _ _ := .added
  sems := []
  vmSync := []
  vmChunk := none
  schedJobInit := none
  gpuReset := none

/-- Two submissions that leave something behind: one with a chunk of an unknown kind puts its
context twice, and one that depends on submission 1 of the context, the slot of which is used for
another one by now, keeps a reference of the context. -/
theorem csIoctl_not_released :
    ¬ Released (csIoctl (quietEnv fun _ => (7, 1)) ⟨1, 0, 1⟩) ∧
    ¬ Released (csIoctl (quietEnv fun i => if i = 0 then (1, 8) else (3, 6)) ⟨1, 0, 2⟩) := by
  constructor
  · rintro ⟨p, r, heq, hbal⟩
    have hctx : (csIoctl (quietEnv fun _ => (7, 1)) ⟨1, 0, 1⟩).state.held .ctx = -1 := by
      decide +kernel
    rw [heq] at hctx
    simp [hbal .ctx] at hctx
  · rintro ⟨p, r, heq, hbal⟩
    have hctx : (csIoctl (quietEnv fun i => if i = 0 then (1, 8) else (3, 6))
        ⟨1, 0, 2⟩).state.held (.depCtx 1 0) = 1 := by
      decide +kernel
    rw [heq] at hctx
    simp [hbal (.depCtx 1 0)] at hctx

end Amdgpu
