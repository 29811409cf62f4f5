import AmdgpuPro.Lib.Tally
import AmdgpuPro.Lib.Transition
import AmdgpuPro.Ttm.Fill

set_option autoImplicit false

/-!
# Memory usage counters

The driver counts the bytes of the buffer objects in each memory type, and for VRAM also those that
the CPU can reach. `amdgpu_bo_move_notify` and `amdgpu_ttm_bo_destroy` change the counters with
`amdgpu_update_memory_usage`. A buffer object that leaves `AMDGPU_PL_DGMA_IMPORT` is added once
more instead of being subtracted, and the visible part of a buffer object is computed from
`mem.start`, which is `AMDGPU_BO_INVALID_OFFSET` for a buffer object of several nodes.

## Main definitions

* `Amdgpu.usageStep` — a buffer object is created, moved or destroyed.
* `UsageState.Exact` — the counters are the sums over the buffer objects.
* `UsageOp.KeepsImports`, `UsageBo.VisibleCounted` — the conditions on steps and on the buffer
  objects in VRAM.

## Main results

* `Amdgpu.usageStep_drift` — how far a step moves the counters away from the sums.
* `UsageBo.counted_le` — never more is counted than there is.
* `usage_exact_iff` — when the counters are right at the end of a run.

## Design

A counter is an integer; no sum comes near `2 ^ 63` bytes. `TTM` creates a buffer object in
system memory. It calls `move_notify` before a move, and with the regions exchanged after a move
that failed. When a buffer object is released, `TTM` calls `move_notify` without a region, and then
`amdgpu_ttm_bo_destroy`, which finds the region as it was.
-/

namespace Amdgpu

/-! ## Functions -/

/-- The counters of the device: `gtt_usage`, `vram_usage`, `vram_vis_usage`, and those of
`direct_gma` for VRAM and for the GART. -/
inductive UsageCounter
  | gtt | vram | vramVis | dgmaVram | dgmaGart
  deriving DecidableEq

/-- The values of the counters. -/
abbrev MemoryUsage := UsageCounter → ℤ

/-- `atomic64_add`, and `atomic64_sub` of the negative number -/
def atomicAdd (n : ℤ) (c : UsageCounter) (usage : MemoryUsage) : MemoryUsage :=
  Function.update usage c (usage c + n)

/-- `ttm_mem_reg` -/
structure UsageMem where
  memType : MemType
  start : BitVec 64
  size : BitVec 64
  nodes : List MmNode

/-- `amdgpu_get_vis_part_size` -/
def getVisPartSize (visible : BitVec 64) (mem : UsageMem) : BitVec 64 :=
  if mem.start <<< pageShift ≥ visible then 0
  else if mem.start <<< pageShift + mem.size > visible then
    visible - mem.start <<< pageShift
  else mem.size

/-- The `switch` of `amdgpu_update_memory_usage` for `new_mem`. -/
def usageNew (visible : BitVec 64) (mem : UsageMem) (usage : MemoryUsage) : MemoryUsage :=
  match mem.memType with
  | .tt => atomicAdd mem.size.toNat .gtt usage
  | .vram =>
    atomicAdd (getVisPartSize visible mem).toNat .vramVis (atomicAdd mem.size.toNat .vram usage)
  | .dgma => atomicAdd mem.size.toNat .dgmaVram usage
  | .dgmaImport => atomicAdd mem.size.toNat .dgmaGart usage
  | _ => usage

/-- The `switch` of `amdgpu_update_memory_usage` for `old_mem`; the last case adds. -/
def usageOld (visible : BitVec 64) (mem : UsageMem) (usage : MemoryUsage) : MemoryUsage :=
  match mem.memType with
  | .tt => atomicAdd (-mem.size.toNat) .gtt usage
  | .vram =>
    atomicAdd (-(getVisPartSize visible mem).toNat) .vramVis
      (atomicAdd (-mem.size.toNat) .vram usage)
  | .dgma => atomicAdd (-mem.size.toNat) .dgmaVram usage
  | .dgmaImport => atomicAdd mem.size.toNat .dgmaGart usage
  | _ => usage

/-- `amdgpu_update_memory_usage` -/
def updateMemoryUsage (visible : BitVec 64) (oldMem newMem : Option UsageMem)
    (usage : MemoryUsage) : MemoryUsage :=
  oldMem.elim id (usageOld visible) (newMem.elim id (usageNew visible) usage)

/-- The part of `amdgpu_bo_move_notify` that is about the counters. -/
def boMoveNotify (visible : BitVec 64) (mem : UsageMem) (newMem : Option UsageMem)
    (usage : MemoryUsage) : MemoryUsage :=
  match newMem with
  | none => usage
  | some new => updateMemoryUsage visible (some mem) (some new) usage

/-! ## Buffer objects -/

/-- The VRAM of a device. The visible part is a PCI aperture, or less. -/
structure UsageDevice where
  mgr : VramMgr
  visible : BitVec 64
  visible_le : visible.toNat ≤ 2 ^ 63

/-- A buffer object; in VRAM it has what `amdgpu_vram_mgr_new` returned. -/
structure UsageBo (dev : UsageDevice) where
  numPages : ℕ
  numPages_pos : 0 < numPages
  numPages_lt : numPages < 2 ^ 52
  pageAlign : ℕ
  pageAlign_lt : pageAlign < 2 ^ 31
  /-- `AMDGPU_GEM_CREATE_VRAM_CONTIGUOUS` when it was placed; the driver sets the flag later on -/
  contiguous : Bool
  memType : MemType
  vram : VramMem
  placed : memType = .vram →
    ∃ mm : DrmMm dev.mgr, vramMgrNew numPages pageAlign contiguous mm = .ok (some vram)

/-- The place a buffer object is moved to. -/
inductive BoTarget (dev : UsageDevice)
  | vram (contiguous : Bool) (mm : DrmMm dev.mgr)
  | other (memType : MemType)

namespace UsageBo

variable {dev : UsageDevice}

/-- `bo->mem` -/
def mem (bo : UsageBo dev) : UsageMem :=
  ⟨bo.memType, bo.vram.start, BitVec.ofNat 64 (bo.numPages * pageSize), bo.vram.mmNode⟩

theorem numPages_lt_of_request (req : BoRequest) : req.numPages < 2 ^ 52 := by
  have hlt := Nat.mod_lt (req.size.toNat + (pageSize - 1)) (Nat.two_pow_pos 64)
  simp only [BoRequest.numPages, pageSize, pageShift] at hlt ⊢
  omega

/-- A new buffer object, which is in system memory. -/
def create (dev : UsageDevice) (req : BoRequest) : Option (UsageBo dev) :=
  if h : 0 < req.numPages then
    some {
      numPages := req.numPages
      numPages_pos := h
      numPages_lt := numPages_lt_of_request req
      pageAlign := req.pageAlign
      pageAlign_lt := req.pageAlign_lt
      contiguous := req.contiguous
      memType := .system
      vram := ⟨0, []⟩
      placed := fun h => (by cases h) }
  else none

/-- The buffer object at another place, if there is space. -/
def moveTo (bo : UsageBo dev) : BoTarget dev → Option (UsageBo dev)
  | .vram contiguous mm =>
    match h : vramMgrNew bo.numPages bo.pageAlign contiguous mm with
    | .ok (some vram) =>
      some { bo with
        contiguous := contiguous
        memType := .vram
        vram := vram
        placed := fun _ => ⟨mm, h⟩ }
    | _ => none
  | .other memType =>
    if h : memType = .vram then none
    else
      some { bo with
        memType := memType
        vram := ⟨0, []⟩
        placed := fun h' => absurd h' h }

end UsageBo

/-! ## Runs -/

/-- The buffer objects and the counters. -/
structure UsageState (dev : UsageDevice) where
  bos : List (UsageBo dev)
  usage : MemoryUsage

/-- What happens to buffer objects. -/
inductive UsageOp (dev : UsageDevice)
  | create (req : BoRequest)
  | move (i : ℕ) (target : BoTarget dev) (moved : Bool)
  | destroy (i : ℕ)

section Model

variable {dev : UsageDevice}

/-- No buffer objects. -/
def UsageState.init (dev : UsageDevice) : UsageState dev := ⟨[], fun _ => 0⟩

/-- One event; `none` if there is no such buffer object, or no space for it. -/
def usageStep (s : UsageState dev) : UsageOp dev → Option (UsageState dev)
  | .create req => do
    let bo ← UsageBo.create dev req
    some { s with bos := s.bos ++ [bo] }
  | .move i target moved => do
    let bo ← s.bos[i]?
    let new ← bo.moveTo target
    let usage := boMoveNotify dev.visible bo.mem (some new.mem) s.usage
    if moved then some ⟨s.bos.set i new, usage⟩
    else some ⟨s.bos, boMoveNotify dev.visible new.mem (some bo.mem) usage⟩
  | .destroy i => do
    let bo ← s.bos[i]?
    let usage := boMoveNotify dev.visible bo.mem none s.usage
    some ⟨s.bos.eraseIdx i, updateMemoryUsage dev.visible (some bo.mem) none usage⟩

/-! ## Property and conditions -/

/-- The bytes of a node that are below the end of the visible part. -/
def MmNode.visibleBytes (visible : BitVec 64) (node : MmNode) : ℕ :=
  (Finset.Ico (node.start * pageSize) ((node.start + node.size) * pageSize) ∩
    Finset.range visible.toNat).card

/-- The bytes of a region that are in the visible part. -/
def UsageMem.visibleBytes (visible : BitVec 64) (mem : UsageMem) : ℕ :=
  tally (MmNode.visibleBytes visible) mem.nodes

/-- What a region contributes to each counter, with `vis` bytes in the visible part. -/
def UsageMem.share (vis : ℕ) (mem : UsageMem) : UsageCounter → ℤ
  | .gtt => if mem.memType = .tt then mem.size.toNat else 0
  | .vram => if mem.memType = .vram then mem.size.toNat else 0
  | .vramVis => if mem.memType = .vram then vis else 0
  | .dgmaVram => if mem.memType = .dgma then mem.size.toNat else 0
  | .dgmaGart => if mem.memType = .dgmaImport then mem.size.toNat else 0

/-- What the driver counts for a buffer object. -/
def UsageBo.counted (bo : UsageBo dev) : UsageCounter → ℤ :=
  bo.mem.share (getVisPartSize dev.visible bo.mem).toNat

/-- What a buffer object should be counted as. -/
def UsageBo.actual (bo : UsageBo dev) : UsageCounter → ℤ :=
  bo.mem.share (bo.mem.visibleBytes dev.visible)

/-- Every counter is the sum over the buffer objects. -/
def UsageState.Exact (s : UsageState dev) : Prop :=
  ∀ c, s.usage c = tally (UsageBo.actual · c) s.bos

/-- The place a buffer object is moved to is in `AMDGPU_PL_DGMA_IMPORT`. -/
def BoTarget.isImport : BoTarget dev → Prop
  | .vram _ _ => False
  | .other memType => memType = .dgmaImport

instance BoTarget.decidableIsImport : ∀ target : BoTarget dev, Decidable target.isImport
  | .vram _ _ => inferInstanceAs (Decidable False)
  | .other _ => inferInstanceAs (Decidable (_ = _))

/-- No buffer object leaves `AMDGPU_PL_DGMA_IMPORT`: none is moved or destroyed there, and no move
there fails. -/
def UsageOp.KeepsImports (s : UsageState dev) : UsageOp dev → Prop
  | .create _ => True
  | .move i target moved => ∀ bo ∈ s.bos[i]?,
      bo.memType ≠ .dgmaImport ∧ (moved = false → ¬ target.isImport)
  | .destroy i => ∀ bo ∈ s.bos[i]?, bo.memType ≠ .dgmaImport

instance UsageOp.decidableKeepsImports (s : UsageState dev) :
    ∀ op : UsageOp dev, Decidable (op.KeepsImports s)
  | .create _ => inferInstanceAs (Decidable True)
  | .move i _ _ => inferInstanceAs (Decidable (∀ bo ∈ s.bos[i]?, _))
  | .destroy i => inferInstanceAs (Decidable (∀ bo ∈ s.bos[i]?, _))

/-- A buffer object in VRAM has one node, or no visible bytes. -/
def UsageBo.VisibleCounted (bo : UsageBo dev) : Prop :=
  bo.memType = .vram → OneNode dev.mgr bo.numPages bo.pageAlign bo.contiguous ∨
    bo.mem.visibleBytes dev.visible = 0

end Model

/-! ## The functions and the sums -/

section Shares

variable (visible : BitVec 64) (mem : UsageMem) (usage : MemoryUsage) (c : UsageCounter)

/-- The bytes of a region in `AMDGPU_PL_DGMA_IMPORT`. -/
def UsageMem.importBytes (mem : UsageMem) : ℤ :=
  if mem.memType = .dgmaImport then mem.size.toNat else 0

theorem atomicAdd_apply (n : ℤ) (c' : UsageCounter) :
    atomicAdd n c' usage c = usage c + if c = c' then n else 0 := by
  rw [atomicAdd, Function.update_apply]
  split_ifs with h
  · rw [h]
  · rw [add_zero]

/-- A new region is added. -/
theorem usageNew_apply : usageNew visible mem usage c =
    usage c + mem.share (getVisPartSize visible mem).toNat c := by
  cases hmem : mem.memType <;> cases c <;>
    simp [usageNew, hmem, UsageMem.share, atomicAdd_apply]

/-- An old region is subtracted, unless it is in `AMDGPU_PL_DGMA_IMPORT`. -/
theorem usageOld_apply : usageOld visible mem usage c =
    usage c - mem.share (getVisPartSize visible mem).toNat c +
      if c = .dgmaGart then 2 * mem.importBytes else 0 := by
  cases hmem : mem.memType <;> cases c <;>
    simp [usageOld, hmem, UsageMem.share, UsageMem.importBytes, atomicAdd_apply] <;> ring

end Shares

/-! ## Events -/

section Events

variable {dev : UsageDevice}

/-- The driver counts too much. -/
def UsageState.drift (s : UsageState dev) (c : UsageCounter) : ℤ :=
  s.usage c - tally (UsageBo.counted · c) s.bos

theorem UsageBo.size_toNat (bo : UsageBo dev) : bo.mem.size.toNat = bo.numPages * pageSize := by
  have hlt := bo.numPages_lt
  simp only [UsageBo.mem, BitVec.toNat_ofNat, pageSize, pageShift]
  omega

theorem UsageBo.importBytes_nonneg (bo : UsageBo dev) : 0 ≤ bo.mem.importBytes := by
  rw [UsageMem.importBytes]
  split_ifs
  · exact Int.natCast_nonneg _
  · exact le_rfl

theorem UsageBo.importBytes_eq_zero_iff (bo : UsageBo dev) :
    bo.mem.importBytes = 0 ↔ bo.memType ≠ .dgmaImport := by
  have hpos : 0 < bo.numPages * pageSize := Nat.mul_pos bo.numPages_pos (by decide)
  have htype : bo.mem.memType = bo.memType := rfl
  rw [UsageMem.importBytes, htype]
  split_ifs with h
  · rw [bo.size_toNat]
    exact iff_of_false (by omega) (not_not.mpr h)
  · exact iff_of_true rfl h

/-- A buffer object that is moved is where it should be. -/
theorem UsageBo.moveTo_isImport {bo new : UsageBo dev} {target : BoTarget dev}
    (h : bo.moveTo target = some new) : new.memType = .dgmaImport ↔ target.isImport := by
  cases target with
  | vram contiguous mm =>
    rw [UsageBo.moveTo] at h
    split at h
    · cases h
      simp [BoTarget.isImport]
    · cases h
  | other memType =>
    rw [UsageBo.moveTo] at h
    split_ifs at h
    cases h
    rfl

/-- What `amdgpu_bo_move_notify` changes. -/
theorem boMoveNotify_apply (bo new : UsageBo dev) (usage : MemoryUsage) (c : UsageCounter) :
    boMoveNotify dev.visible bo.mem (some new.mem) usage c =
      usage c + new.counted c - bo.counted c +
        if c = .dgmaGart then 2 * bo.mem.importBytes else 0 := by
  rw [boMoveNotify, updateMemoryUsage, Option.elim_some, Option.elim_some, usageOld_apply,
    usageNew_apply]
  rfl

/-- **One event**: a counter stays as far from the sum as it was, but the one of
`AMDGPU_PL_DGMA_IMPORT` goes up if a buffer object leaves it. -/
theorem usageStep_drift {s t : UsageState dev} {op : UsageOp dev} (h : usageStep s op = some t) :
    ∃ loss : ℤ, 0 ≤ loss ∧ (loss = 0 ↔ op.KeepsImports s) ∧
      ∀ c, t.drift c = s.drift c + if c = .dgmaGart then 2 * loss else 0 := by
  cases op with
  | create req =>
    obtain ⟨bo, hbo, h⟩ := Option.bind_eq_some_iff.mp h
    cases h
    have hsystem : ∀ c, bo.counted c = 0 := by
      rw [UsageBo.create] at hbo
      split_ifs at hbo
      cases hbo
      intro c
      cases c <;> rfl
    refine ⟨0, le_rfl, iff_of_true rfl trivial, fun c => ?_⟩
    simp [UsageState.drift, hsystem]
  | move i target moved =>
    obtain ⟨bo, hbo, h⟩ := Option.bind_eq_some_iff.mp h
    obtain ⟨new, hnew, h⟩ := Option.bind_eq_some_iff.mp h
    have himport := UsageBo.moveTo_isImport hnew
    have hold := bo.importBytes_nonneg
    have hnonneg := new.importBytes_nonneg
    have hzero := bo.importBytes_eq_zero_iff
    have hzero' := new.importBytes_eq_zero_iff
    cases moved with
    | true =>
      cases h
      refine ⟨bo.mem.importBytes, hold, ?_, fun c => ?_⟩
      · simp [UsageOp.KeepsImports, hbo, hzero]
      · have hset := tally_set (UsageBo.counted · c) hbo new
        simp only [UsageState.drift, boMoveNotify_apply]
        split_ifs <;> linarith
    | false =>
      cases h
      refine ⟨bo.mem.importBytes + new.mem.importBytes, by omega, ?_, fun c => ?_⟩
      · simp only [UsageOp.KeepsImports, hbo, Option.mem_def, Option.some.injEq, forall_eq',
          ← himport, forall_const, ← hzero, ← hzero']
        omega
      · simp only [UsageState.drift, boMoveNotify_apply]
        split_ifs <;> linarith
  | destroy i =>
    obtain ⟨bo, hbo, h⟩ := Option.bind_eq_some_iff.mp h
    cases h
    refine ⟨bo.mem.importBytes, bo.importBytes_nonneg, ?_, fun c => ?_⟩
    · simp [UsageOp.KeepsImports, hbo, bo.importBytes_eq_zero_iff]
    · have herase := tally_eraseIdx (UsageBo.counted · c) hbo
      have hold := usageOld_apply dev.visible bo.mem s.usage c
      simp only [UsageState.drift, boMoveNotify, updateMemoryUsage, Option.elim_some,
        Option.elim_none, id_eq, hold]
      have hcounted : bo.counted c = bo.mem.share (getVisPartSize dev.visible bo.mem).toNat c := rfl
      split_ifs <;> linarith

end Events

/-! ## Visible bytes -/

section Visible

variable {dev : UsageDevice}

theorem MmNode.visibleBytes_eq (visible : BitVec 64) (node : MmNode) : node.visibleBytes visible =
    min ((node.start + node.size) * pageSize) visible.toNat - node.start * pageSize := by
  rw [MmNode.visibleBytes, Finset.range_eq_Ico, Finset.Ico_inter_Ico, Nat.card_Ico]
  simp

/-- The visible part is right for a node that starts at `mem.start`. -/
theorem getVisPartSize_node {visible : BitVec 64} {mem : UsageMem} {node : MmNode}
    (hstart : (mem.start <<< pageShift).toNat = node.start * pageSize)
    (hsize : mem.size.toNat = node.size * pageSize)
    (hlt : (node.start + node.size) * pageSize < 2 ^ 64) :
    (getVisPartSize visible mem).toNat = node.visibleBytes visible := by
  rw [Nat.add_mul] at hlt
  rw [MmNode.visibleBytes_eq, Nat.add_mul, getVisPartSize]
  have hadd : (mem.start <<< pageShift + mem.size).toNat =
      node.start * pageSize + node.size * pageSize := by
    rw [BitVec.toNat_add_of_lt (by omega), hstart, hsize]
  split_ifs with hbehind hcut
  · rw [ge_iff_le, BitVec.le_def, hstart] at hbehind
    simp only [BitVec.ofNat_eq_ofNat, BitVec.toNat_ofNat, Nat.zero_mod]
    omega
  · rw [ge_iff_le, BitVec.le_def, hstart] at hbehind
    rw [gt_iff_lt, BitVec.lt_def, hadd] at hcut
    rw [BitVec.toNat_sub_of_le (by rw [BitVec.le_def]; omega), hstart]
    omega
  · rw [gt_iff_lt, BitVec.lt_def, hadd] at hcut
    rw [hsize]
    omega

/-- **The visible part** is right for one node, and nothing is counted for several. -/
theorem UsageBo.getVisPartSize_spec (bo : UsageBo dev) (h : bo.memType = .vram) :
    (OneNode dev.mgr bo.numPages bo.pageAlign bo.contiguous →
      (getVisPartSize dev.visible bo.mem).toNat = bo.mem.visibleBytes dev.visible) ∧
    (¬ OneNode dev.mgr bo.numPages bo.pageAlign bo.contiguous →
      (getVisPartSize dev.visible bo.mem).toNat = 0) := by
  obtain ⟨mm, hnew⟩ := bo.placed h
  obtain ⟨-, hinside, hone, hsplit⟩ := vramMgrNew_spec bo.numPages_pos
    (bo.numPages_lt.trans (by norm_num)) bo.pageAlign_lt hnew
  refine ⟨fun hnode => ?_, fun hnode => ?_⟩
  · obtain ⟨node, hnodes, hsize, hstart⟩ := hone hnode
    have hle : (node.start + node.size) * pageSize ≤ 0xFFC0000000 :=
      (Nat.mul_le_mul_right _ (hinside node (by simp [hnodes]))).trans dev.mgr.size_le
    have hnode_start : node.start * pageSize ≤ 0xFFC0000000 :=
      (Nat.mul_le_mul_right _ (Nat.le_add_right _ _)).trans hle
    have hvis : bo.mem.visibleBytes dev.visible = node.visibleBytes dev.visible := by
      simp [UsageMem.visibleBytes, UsageBo.mem, hnodes]
    rw [hvis]
    refine getVisPartSize_node ?_ (by rw [bo.size_toNat, hsize]) (by omega)
    simp only [UsageBo.mem, hstart, pageSize, pageShift, BitVec.toNat_shiftLeft,
      BitVec.toNat_ofNat, Nat.shiftLeft_eq] at hnode_start ⊢
    omega
  · have hstart : bo.mem.start = boInvalidOffset := hsplit hnode
    have hshift : boInvalidOffset <<< pageShift = BitVec.ofNat 64 (2 ^ 64 - 4096) := by decide
    have hvisible := dev.visible_le
    have hbehind : bo.mem.start <<< pageShift ≥ dev.visible := by
      rw [hstart, hshift, ge_iff_le, BitVec.le_def, BitVec.toNat_ofNat]
      omega
    rw [getVisPartSize, if_pos hbehind]
    rfl

/-- A counter of a buffer object is not too large, and right if its visible bytes are counted. -/
theorem UsageBo.counted_le (bo : UsageBo dev) (c : UsageCounter) :
    bo.counted c ≤ bo.actual c ∧
      (bo.counted c = bo.actual c ↔ (c = .vramVis → bo.VisibleCounted)) := by
  have htype : bo.mem.memType = bo.memType := rfl
  cases c with
  | vramVis =>
    simp only [UsageBo.counted, UsageBo.actual, UsageMem.share, UsageBo.VisibleCounted, htype,
      forall_const]
    by_cases h : bo.memType = .vram
    · obtain ⟨hone, hsplit⟩ := bo.getVisPartSize_spec h
      rw [if_pos h, if_pos h, forall_prop_of_true h]
      by_cases hnode : OneNode dev.mgr bo.numPages bo.pageAlign bo.contiguous
      · rw [hone hnode]
        simp [hnode]
      · rw [hsplit hnode, or_iff_right hnode]
        omega
    · simp [h]
  | gtt | vram | dgmaVram | dgmaGart => simp [UsageBo.counted, UsageBo.actual, UsageMem.share]

end Visible

/-! ## Whole runs -/

section Runs

variable {dev : UsageDevice} {t : UsageState dev}

/-- The counters are right if they are what the driver counts, and that is right. -/
theorem UsageState.exact_iff (hdrift : ∀ c ≠ .dgmaGart, t.drift c = 0) :
    t.Exact ↔ t.drift .dgmaGart = 0 ∧ ∀ bo ∈ t.bos, bo.VisibleCounted := by
  have hsum : ∀ c, tally (UsageBo.counted · c) t.bos = tally (UsageBo.actual · c) t.bos ↔
      ∀ bo ∈ t.bos, c = .vramVis → bo.VisibleCounted := fun c => by
    rw [tally_eq_iff_of_le fun bo _ => (bo.counted_le c).1]
    exact forall₂_congr fun bo _ => (bo.counted_le c).2
  constructor
  · intro hexact
    have hgart := (hsum .dgmaGart).mpr fun bo _ h => (by cases h)
    refine ⟨by rw [UsageState.drift, hexact, hgart, sub_self], fun bo hbo => ?_⟩
    have hvis := hdrift .vramVis (by decide)
    rw [UsageState.drift, hexact, sub_eq_zero] at hvis
    exact (hsum .vramVis).mp hvis.symm bo hbo rfl
  · rintro ⟨hgart, hcounted⟩ c
    have hzero : t.drift c = 0 := by
      by_cases hc : c = .dgmaGart
      · rw [hc, hgart]
      · exact hdrift c hc
    rw [UsageState.drift, sub_eq_zero] at hzero
    rw [hzero]
    exact (hsum c).mpr fun bo hbo _ => hcounted bo hbo

/-- The counters of the other memory types are what the driver counts; the one of
`AMDGPU_PL_DGMA_IMPORT` moves away from that when a buffer object leaves it. -/
theorem usageStep_measure {s u : UsageState dev} {op : UsageOp dev}
    (hs : ∀ c ≠ .dgmaGart, s.drift c = 0) (h : usageStep s op = some u) :
    (∀ c ≠ .dgmaGart, u.drift c = 0) ∧ -u.drift .dgmaGart ≤ -s.drift .dgmaGart ∧
      (-u.drift .dgmaGart = -s.drift .dgmaGart ↔ op.KeepsImports s) := by
  obtain ⟨loss, hloss, hiff, hdrift⟩ := usageStep_drift h
  have hgart := hdrift .dgmaGart
  rw [if_pos rfl] at hgart
  refine ⟨fun c hc => by rw [hdrift, if_neg hc, hs c hc, add_zero], by linarith, ?_⟩
  rw [← hiff]
  omega

/-- **Memory usage.** After every run, each counter is the sum of the sizes of the buffer objects
in its memory type, or of their visible bytes, if and only if no buffer object left
`AMDGPU_PL_DGMA_IMPORT`, and each one in VRAM has one node or no visible bytes. -/
theorem usage_exact_iff {ops : List (UsageOp dev)}
    (h : Transition.Run (fun s op t => usageStep s op = some t) (.init dev) ops t) :
    t.Exact ↔ Transition.Run (Transition.Guarded (fun s op t => usageStep s op = some t)
      fun s op => op.KeepsImports s) (.init dev) ops t ∧ ∀ bo ∈ t.bos, bo.VisibleCounted := by
  have hinit : ∀ c, (UsageState.init dev).drift c = 0 := fun c => by
    simp [UsageState.drift, UsageState.init]
  obtain ⟨hdrift, -, hkeeps⟩ := h.measure_eq_iff (fun s => ∀ c ≠ .dgmaGart, s.drift c = 0)
    (fun s => -s.drift .dgmaGart) (fun _ _ _ => usageStep_measure) fun c _ => hinit c
  rw [UsageState.exact_iff hdrift, ← hkeeps, hinit, neg_zero, neg_eq_zero]

end Runs

/-- Sixteen gigabytes of VRAM, of which `256` megabytes are visible. -/
def UsageDevice.sixteenGigabytes : UsageDevice where
  mgr := .sixteenGigabytes
  visible := 0x10000000
  visible_le := by decide

/-- A buffer object in one node of VRAM, and one in `AMDGPU_PL_DGMA_IMPORT`. -/
def twoPlaced : List (UsageOp .sixteenGigabytes) :=
  [.create ⟨0x800000, 0, BoRequest.zero_align_lt, false, false⟩,
    .move 0 (.vram true CreateEnv.allGranted.mm) true,
    .create ⟨0x1000, 0, BoRequest.zero_align_lt, false, false⟩,
    .move 1 (.other .dgmaImport) true]

/-- The counters are right for two buffer objects. -/
theorem usage_exact_iff_twoPlaced :
    ∃ t, Transition.Run (fun s op t => usageStep s op = some t) (.init .sixteenGigabytes)
      twoPlaced t ∧ t.usage .vramVis = 0x800000 ∧ t.Exact := by
  have hfold : (twoPlaced.foldlM
      (fun s (op : UsageOp .sixteenGigabytes) =>
        if op.KeepsImports s then usageStep s op else none)
      (.init .sixteenGigabytes)).map (fun t : UsageState .sixteenGigabytes => (t.usage .vramVis,
        t.bos.all fun bo => bo.memType ≠ .vram || bo.contiguous)) = some (0x800000, true) := by
    decide +kernel
  obtain ⟨t, hrun, hproj⟩ := Option.map_eq_some_iff.mp hfold
  obtain ⟨hvis, hone⟩ := Prod.mk.inj hproj
  have hguarded : Transition.Run (Transition.Guarded (fun s op t => usageStep s op = some t)
      fun s op => op.KeepsImports s) (.init .sixteenGigabytes) twoPlaced t :=
    (Transition.Run.of_foldlM (fun _ _ _ => trivial) hrun).mono fun s op u h =>
      (Option.ite_none_right_eq_some.mp h.1).symm
  have hcounted : ∀ bo ∈ t.bos, bo.VisibleCounted := fun bo hbo hvram => by
    have h := List.all_eq_true.mp hone bo hbo
    exact .inl (.inl (by simpa [hvram] using h))
  have hrun' := hguarded.mono fun _ _ _ h => h.1
  exact ⟨t, hrun', hvis, (usage_exact_iff hrun').mpr ⟨hguarded, hcounted⟩⟩

/-- A buffer object in two nodes of VRAM, and one that is destroyed in `AMDGPU_PL_DGMA_IMPORT`. -/
def splitAndImport : List (UsageOp .sixteenGigabytes) :=
  [.create ⟨0x800000, 0, BoRequest.zero_align_lt, false, false⟩,
    .move 0 (.vram false CreateEnv.allGranted.mm) true,
    .create ⟨0x1000, 0, BoRequest.zero_align_lt, false, false⟩,
    .move 1 (.other .dgmaImport) true, .destroy 1]

/-- There is no buffer object in `AMDGPU_PL_DGMA_IMPORT`, but two pages are counted; and the eight
megabytes of visible VRAM that are in use are not counted. -/
theorem usage_not_exact :
    ∃ t bo, Transition.Run (fun s op t => usageStep s op = some t) (.init .sixteenGigabytes)
        splitAndImport t ∧
      t.bos = [bo] ∧ bo.memType = .vram ∧ t.usage .dgmaGart = 0x2000 ∧ t.usage .vramVis = 0 ∧
      bo.mem.visibleBytes UsageDevice.sixteenGigabytes.visible = 0x800000 ∧ ¬ t.Exact := by
  have hfold : (splitAndImport.foldlM usageStep (.init .sixteenGigabytes)).map (fun t =>
      decide (t.usage .dgmaGart = 0x2000 ∧ t.usage .vramVis = 0 ∧ t.bos.map (fun bo =>
        (bo.memType, bo.vram.mmNode.map fun node => (node.start, node.size))) =
          [(.vram, [(0, 1024), (4096, 1024)])])) = some true := by
    decide +kernel
  obtain ⟨t, hrun, hproj⟩ := Option.map_eq_some_iff.mp hfold
  obtain ⟨hgart, hvis, hbos⟩ := of_decide_eq_true hproj
  obtain ⟨bo, rest, hcons, hbo, hrest⟩ := List.map_eq_cons_iff.mp hbos
  obtain rfl := List.map_eq_nil_iff.mp hrest
  obtain ⟨hmem, hnodes⟩ := Prod.mk.inj hbo
  have hguarded : Transition.Run (Transition.Guarded (fun s op t => usageStep s op = some t)
      fun _ _ => True) (.init .sixteenGigabytes) splitAndImport t :=
    .of_foldlM (fun _ _ _ => trivial) hrun
  refine ⟨t, bo, hguarded.mono fun _ _ _ h => h.1, hcons, hmem, hgart, hvis, ?_, fun hexact => ?_⟩
  · obtain ⟨node₁, rest, hnodes, hnode₁, hrest⟩ := List.map_eq_cons_iff.mp hnodes
    obtain ⟨node₂, rest, rfl, hnode₂, hrest⟩ := List.map_eq_cons_iff.mp hrest
    obtain rfl := List.map_eq_nil_iff.mp hrest
    obtain ⟨hstart₁, hsize₁⟩ := Prod.mk.inj hnode₁
    obtain ⟨hstart₂, hsize₂⟩ := Prod.mk.inj hnode₂
    simp [UsageMem.visibleBytes, UsageBo.mem, hnodes, MmNode.visibleBytes_eq, hstart₁, hsize₁,
      hstart₂, hsize₂, pageSize, pageShift, UsageDevice.sixteenGigabytes]
  · have hzero := hexact .dgmaGart
    rw [hcons, hgart] at hzero
    simp [UsageBo.actual, UsageMem.share, UsageBo.mem, hmem] at hzero

end Amdgpu
