import AmdgpuPro.Ttm.Memory

set_option autoImplicit false

/-!
# Clearing new buffer objects

A buffer object that is created with `AMDGPU_GEM_CREATE_VRAM_CLEARED` in VRAM is filled with zeros
by `amdgpu_fill_buffer`. The VRAM manager makes several nodes of a large buffer object, unless it is
asked for one, and then sets `mem.start` to `AMDGPU_BO_INVALID_OFFSET`; but `amdgpu_fill_buffer`
fills from `mem.start` on. Its number of bytes is a `uint32_t`, and its result is not looked at.

## Main definitions

* `Amdgpu.vramMgrNew` — the VRAM manager makes nodes.
* `boCreateRestricted` — a buffer object is created, with the commands that fill it.
* `VramMem.Cleared` — the commands write zeros to the pages of the buffer object, and nothing else.

## Main results

* `Amdgpu.boCreateRestricted_cleared_iff` — when a new buffer object is cleared.
* `boCreateRestricted_not_cleared` — a buffer object of two nodes is not cleared, and memory that is
  not its own is written.
-/

namespace Amdgpu

/-! ## The VRAM manager -/

/-- `AMDGPU_BO_INVALID_OFFSET`, the largest `long` -/
def boInvalidOffset : BitVec 64 := BitVec.ofNat 64 (2 ^ 63 - 1)

/-- `vram_start`; every memory controller calls `amdgpu_vram_location` with the base `0`. -/
def vramStart : BitVec 64 := 0

/-- The manager of VRAM; the memory controllers limit its size. -/
structure VramMgr where
  /-- in pages -/
  size : ℕ
  size_le : size * pageSize ≤ 0xFFC0000000
  /-- `amdgpu_vram_page_split`, with `none` for `-1`; `amdgpu_check_arguments` checks it -/
  pageSplit : Option ℕ
  pageSplit_mem : ∀ split ∈ pageSplit, 16 ≤ split ∧ split < 2 ^ 31

/-- What the functions answer that the manager calls. A range that `drm_mm` gives is inside of the
manager. -/
structure DrmMm (mgr : VramMgr) where
  kcalloc : Bool
  /-- the start of node `i` of so many pages -/
  insertNode : ℕ → ℕ → Except Errno ℕ
  inside : ∀ i pages start, insertNode i pages = .ok start → start + pages ≤ mgr.size

/-- What the manager sets of `struct ttm_mem_reg`. -/
structure VramMem where
  start : BitVec 64
  mmNode : List MmNode

section

variable (mgr : VramMgr) (numPages pageAlignment : ℕ) (contiguous : Bool)

/-- `pages_per_node` and `num_nodes` -/
def vramNodes : ℕ × ℕ :=
  match contiguous, mgr.pageSplit with
  | false, some split =>
    (max split pageAlignment, Chunks.divRoundUp 64 numPages (max split pageAlignment))
  | _, _ => (2 ^ 64 - 1, 1)

variable {mgr}

/-- The loop of `amdgpu_vram_mgr_new`; `drm_mm` has no nodes without pages. -/
def insertNodes (mm : DrmMm mgr) (pagesPerNode : ℕ) : ℕ → ℕ → ℕ → Except Errno (List MmNode)
  | 0, _, _ => .ok []
  | n + 1, i, pagesLeft =>
    if h : 0 < min pagesLeft pagesPerNode then
      match mm.insertNode i (min pagesLeft pagesPerNode) with
      | .error e => .error e
      | .ok start =>
        match insertNodes mm pagesPerNode n (i + 1) (pagesLeft - min pagesLeft pagesPerNode) with
        | .error e => .error e
        | .ok nodes => .ok (⟨start, min pagesLeft pagesPerNode, h⟩ :: nodes)
    else .error .EINVAL

/-- `amdgpu_vram_mgr_new`; without a node there was no space. -/
def vramMgrNew (mm : DrmMm mgr) : Except Errno (Option VramMem) :=
  let (pagesPerNode, numNodes) := vramNodes mgr numPages pageAlignment contiguous
  if !mm.kcalloc then .error .ENOMEM
  else
    match insertNodes mm pagesPerNode numNodes 0 numPages with
    | .error .ENOSPC => .ok none
    | .error e => .error e
    | .ok nodes =>
      let start := match numNodes, nodes with
        | 1, node :: _ => BitVec.ofNat 64 node.start
        | _, _ => boInvalidOffset
      .ok (some ⟨start, nodes⟩)

end

/-! ## Creating a buffer object -/

/-- The arguments of `amdgpu_bo_create_restricted` that matter here. -/
structure BoRequest where
  size : BitVec 64
  byteAlign : ℕ
  byteAlign_lt : byteAlign < 2 ^ 31
  /-- `AMDGPU_GEM_CREATE_VRAM_CONTIGUOUS` -/
  contiguous : Bool
  /-- `AMDGPU_GEM_CREATE_VRAM_CLEARED` -/
  cleared : Bool

/-- A request without an alignment. -/
theorem BoRequest.zero_align_lt : 0 < 2 ^ 31 := by decide

/-- `ALIGN(size, PAGE_SIZE)`, in pages -/
def BoRequest.numPages (req : BoRequest) : ℕ :=
  (req.size.toNat + (pageSize - 1)) % 2 ^ 64 / pageSize

/-- `roundup(byte_align, PAGE_SIZE) >> PAGE_SHIFT` -/
def BoRequest.pageAlign (req : BoRequest) : ℕ := (req.byteAlign + (pageSize - 1)) / pageSize

/-- What the functions answer that are called for a new buffer object. -/
structure CreateEnv (mgr : VramMgr) where
  /-- `kzalloc`, `drm_gem_object_init` and `ttm_bo_init` -/
  init : Option Errno
  /-- for the memory that the buffer object has in the end -/
  mm : DrmMm mgr
  /-- there is a ring, and it is ready -/
  ringReady : Bool
  /-- `amdgpu_bo_reserve` -/
  reserve : Option Errno
  /-- `ttm_bo_validate` -/
  validate : Option Errno
  job : JobAnswers

/-- A new buffer object: its VRAM, if it is there, and the commands that fill it. -/
structure CreatedBo where
  numPages : ℕ
  mem : Option VramMem
  fills : List FillCmd

/-- `amdgpu_bo_create_restricted`, up to where the buffer object is complete. -/
def boCreateRestricted {mgr : VramMgr} (engine : DmaEngine) (req : BoRequest)
    (env : CreateEnv mgr) : Except Errno CreatedBo :=
  let numPages := req.numPages
  -- `ttm_bo_init` refuses a buffer object without pages
  if numPages = 0 then .error .EINVAL
  else
    match env.init with
    | some e => .error e
    | none =>
      match vramMgrNew numPages req.pageAlign req.contiguous env.mm with
      | .ok (some mem) =>
        if !req.cleared then .ok ⟨numPages, some mem, []⟩
        else if !env.ringReady then .error .EBUSY
        else
          match env.reserve with
          | some e => .error e
          | none =>
            match env.validate with
            | some e => .error e
            | none =>
              -- an error of `amdgpu_fill_buffer` is dropped
              match fillBuffer engine env.job mem.start numPages 0 with
              | .error _ => .ok ⟨numPages, some mem, []⟩
              | .ok fills => .ok ⟨numPages, some mem, fills⟩
      | .ok none => .ok ⟨numPages, none, []⟩
      | .error e => .error e

/-! ## What it should do -/

/-- The addresses of the bytes of the pages of a buffer object. -/
def VramMem.bytes (mem : VramMem) : List (BitVec 64) :=
  (mem.mmNode.flatMap (MmNode.pages vramStart)).flatMap fun page => bytesFrom page pageSize

/-- The commands write exactly the bytes of the pages, and zeros. -/
structure VramMem.Cleared (mem : VramMem) (fills : List FillCmd) : Prop where
  complete : ∀ a ∈ mem.bytes, a ∈ fills.flatMap FillCmd.written
  inside : ∀ a ∈ fills.flatMap FillCmd.written, a ∈ mem.bytes
  zero : ∀ c ∈ fills, c.srcData = 0

/-- The manager makes one node: it is asked for one, or the pages are not more than those of a
node. -/
def OneNode (mgr : VramMgr) (numPages pageAlignment : ℕ) (contiguous : Bool) : Prop :=
  contiguous = true ∨ ∀ split ∈ mgr.pageSplit, numPages ≤ max split pageAlignment

/-- The functions that `amdgpu_fill_buffer` calls return `0` for a buffer object of so many
pages. -/
def FillGranted (engine : DmaEngine) (job : JobAnswers) (numPages : ℕ) : Prop :=
  job.result (ibSize (Chunks.divRoundUp 32 (numPages * pageSize % 2 ^ 32) engine.fillMaxBytes)
    engine.fillNumDw) = none

/-! ## Nodes -/

theorem mem_bytesFrom {a b : BitVec 64} {n : ℕ} :
    b ∈ bytesFrom a n ↔ ∃ k < n, b = a + BitVec.ofNat 64 k := by
  simp [bytesFrom, eq_comm]

/-- Pages next to each other are bytes next to each other. -/
theorem flatMap_pagesFrom (a : BitVec 64) (n : ℕ) :
    (pagesFrom a n).flatMap (fun page => bytesFrom page pageSize) = bytesFrom a (n * pageSize) := by
  induction n with
  | zero => rfl
  | succ n ih =>
    rw [pagesFrom_add, List.flatMap_append, ih, Nat.add_mul, Nat.one_mul]
    simp [pagesFrom, bytesFrom, List.range_add, BitVec.ofNat_add, BitVec.add_assoc,
      Function.comp_def]

/-- The bytes of a buffer object are those of its nodes. -/
theorem VramMem.mem_bytes {mem : VramMem} {a : BitVec 64} :
    a ∈ mem.bytes ↔ ∃ node ∈ mem.mmNode, ∃ k < node.size * pageSize,
      a = BitVec.ofNat 64 (node.start * pageSize + k) := by
  have haddr (node : MmNode) : node.addr vramStart = BitVec.ofNat 64 (node.start * pageSize) := by
    simp only [MmNode.addr, vramStart, pageSize]
    apply BitVec.eq_of_toNat_eq
    simp [BitVec.toNat_shiftLeft, Nat.shiftLeft_eq]
  simp only [bytes, List.flatMap_assoc, List.mem_flatMap, MmNode.pages, flatMap_pagesFrom,
    mem_bytesFrom, haddr, BitVec.ofNat_add]

variable {mgr : VramMgr} {numPages pageAlignment : ℕ} {contiguous : Bool}

theorem insertNodes_spec {mm : DrmMm mgr} {pagesPerNode n i pagesLeft : ℕ} {nodes : List MmNode}
    (h : insertNodes mm pagesPerNode n i pagesLeft = .ok nodes) :
    nodes.length = n ∧ ∀ node ∈ nodes, node.start + node.size ≤ mgr.size := by
  induction n generalizing i pagesLeft nodes with
  | zero =>
    cases h
    exact ⟨rfl, by simp⟩
  | succ n ih =>
    rw [insertNodes] at h
    split_ifs at h with hpos
    split at h
    · cases h
    · rename_i start hstart
      split at h
      · cases h
      · rename_i rest hrest
        cases h
        obtain ⟨hlength, hinside⟩ := ih hrest
        refine ⟨by rw [List.length_cons, hlength], fun node hnode => ?_⟩
        rcases List.mem_cons.mp hnode with rfl | hnode
        · exact mm.inside _ _ _ hstart
        · exact hinside node hnode

/-- The only node has all the pages. -/
theorem insertNodes_one {mm : DrmMm mgr} {pagesPerNode i pagesLeft : ℕ} {nodes : List MmNode}
    (hle : pagesLeft ≤ pagesPerNode) (h : insertNodes mm pagesPerNode 1 i pagesLeft = .ok nodes) :
    ∃ node, nodes = [node] ∧ node.size = pagesLeft := by
  simp only [insertNodes, min_eq_left hle] at h
  split_ifs at h with hpos
  split at h
  · cases h
  · cases h
    exact ⟨_, rfl, rfl⟩

/-- The number of nodes. -/
theorem vramNodes_spec (mgr : VramMgr) (contiguous : Bool) (hpos : 0 < numPages)
    (hlt : numPages < 2 ^ 63)
    (halign : pageAlignment < 2 ^ 31) :
    let nodes := vramNodes mgr numPages pageAlignment contiguous
    0 < nodes.2 ∧ (nodes.2 = 1 ↔ OneNode mgr numPages pageAlignment contiguous) ∧
      (nodes.2 = 1 → numPages ≤ nodes.1) := by
  unfold vramNodes OneNode
  split
  · rename_i split hsplit
    obtain ⟨hge, hlt'⟩ := mgr.pageSplit_mem split hsplit
    have hsum : numPages + max split pageAlignment ≤ 2 ^ 64 := by omega
    have hone := Chunks.divRoundUp_eq_one_iff hpos (by omega) hsum
    refine ⟨Chunks.divRoundUp_pos hpos (by omega) hsum, ?_, hone.mp⟩
    simp [hone, hsplit]
  · rename_i hnot
    refine ⟨Nat.one_pos, iff_of_true rfl ?_, fun _ => by simp only; omega⟩
    refine or_iff_not_imp_left.mpr fun hcontiguous split hsplit => ?_
    exact (hnot split (Bool.eq_false_of_not_eq_true hcontiguous) hsplit).elim

/-- **What the manager returns**: nodes inside of VRAM, and a start that is valid if and only if
there is one node. -/
theorem vramMgrNew_spec {mm : DrmMm mgr} {mem : VramMem} (hpos : 0 < numPages)
    (hlt : numPages < 2 ^ 63) (halign : pageAlignment < 2 ^ 31)
    (h : vramMgrNew numPages pageAlignment contiguous mm = .ok (some mem)) :
    mem.mmNode ≠ [] ∧ (∀ node ∈ mem.mmNode, node.start + node.size ≤ mgr.size) ∧
      (OneNode mgr numPages pageAlignment contiguous →
        ∃ node, mem.mmNode = [node] ∧ node.size = numPages ∧
          mem.start = BitVec.ofNat 64 node.start) ∧
      (¬ OneNode mgr numPages pageAlignment contiguous → mem.start = boInvalidOffset) := by
  obtain ⟨hnum, hone, hle⟩ := vramNodes_spec mgr contiguous hpos hlt halign
  unfold vramMgrNew at h
  simp only at h
  split_ifs at h with hkcalloc
  split at h
  · cases h
  · cases h
  · rename_i nodes hnodes
    cases h
    obtain ⟨hlength, hinside⟩ := insertNodes_spec hnodes
    refine ⟨?_, hinside, fun hnode => ?_, fun hnode => ?_⟩
    · rintro rfl
      rw [List.length_nil] at hlength
      omega
    · rw [← hone] at hnode
      rw [hnode] at hnodes
      obtain ⟨node, rfl, hsize⟩ := insertNodes_one (hle hnode) hnodes
      exact ⟨node, rfl, hsize, by simp only [hnode]⟩
    · rw [← hone] at hnode
      split
      · contradiction
      · rfl

/-! ## The bytes that are filled -/

/-- The bytes of a buffer object have small addresses. -/
theorem VramMem.lt_of_mem_bytes {mem : VramMem} {a : ℕ} (ha : a < 2 ^ 64)
    (hinside : ∀ node ∈ mem.mmNode, node.start + node.size ≤ mgr.size)
    (h : BitVec.ofNat 64 a ∈ mem.bytes) : a < 0xFFC0000000 := by
  obtain ⟨node, hnode, k, hk, heq⟩ := mem_bytes.mp h
  have hle : (node.start + node.size) * pageSize ≤ mgr.size * pageSize :=
    Nat.mul_le_mul_right _ (hinside node hnode)
  have hsize := mgr.size_le
  rw [Nat.add_mul] at hle
  have htoNat := congrArg BitVec.toNat heq
  rw [BitVec.toNat_ofNat, BitVec.toNat_ofNat, Nat.mod_eq_of_lt ha, Nat.mod_eq_of_lt (by omega)]
    at htoNat
  omega

theorem emitFills_srcData {maxBytes : ℕ} {srcData : BitVec 32} {n : ℕ} {dst : BitVec 64}
    {count : ℕ} {c : FillCmd} (h : c ∈ emitFills maxBytes srcData n dst count) :
    c.srcData = srcData := by
  induction n generalizing dst count with
  | zero => cases h
  | succ n ih =>
    rcases List.mem_cons.mp h with rfl | h
    · rfl
    · exact ih h

theorem fillBuffer_srcData {engine : DmaEngine} {job : JobAnswers} {start : BitVec 64}
    {srcData : BitVec 32} {cmds : List FillCmd}
    (h : fillBuffer engine job start numPages srcData = .ok cmds) {c : FillCmd} (hc : c ∈ cmds) :
    c.srcData = srcData := by
  simp only [fillBuffer] at h
  split at h
  · cases h
  · cases h
    exact emitFills_srcData hc

/-- Whether `amdgpu_fill_buffer` succeeds. -/
theorem fillBuffer_cases (engine : DmaEngine) (job : JobAnswers) (start : BitVec 64)
    (numPages : ℕ) (srcData : BitVec 32) :
    (FillGranted engine job numPages ∧
        ∃ cmds, fillBuffer engine job start numPages srcData = .ok cmds) ∨
      (¬ FillGranted engine job numPages ∧
        ∃ e, fillBuffer engine job start numPages srcData = .error e) := by
  unfold FillGranted
  simp only [fillBuffer, BitVec.toNat_ofNat]
  split
  · rename_i e heq
    exact .inr ⟨by simp [heq], e, rfl⟩
  · rename_i heq
    exact .inl ⟨heq, _, rfl⟩

/-- A prefix of the only node is all of it if and only if it is as long. -/
theorem VramMem.cleared_oneNode_iff {mem : VramMem} {node : MmNode} {fills : List FillCmd} {n : ℕ}
    (hnode : mem.mmNode = [node]) (hinside : node.start + node.size ≤ mgr.size)
    (hzero : ∀ c ∈ fills, c.srcData = 0) (hn : n ≤ node.size * pageSize)
    (hwritten : fills.flatMap FillCmd.written =
      bytesFrom (BitVec.ofNat 64 (node.start * pageSize)) n) :
    mem.Cleared fills ↔ n = node.size * pageSize := by
  have hle : (node.start + node.size) * pageSize ≤ mgr.size * pageSize :=
    Nat.mul_le_mul_right _ hinside
  have hsize := mgr.size_le
  rw [Nat.add_mul] at hle
  have hmem (a : BitVec 64) : a ∈ fills.flatMap FillCmd.written ↔
      ∃ k < n, a = BitVec.ofNat 64 (node.start * pageSize + k) := by
    rw [hwritten, mem_bytesFrom]
    simp only [BitVec.ofNat_add]
  have hbytes (a : BitVec 64) : a ∈ mem.bytes ↔
      ∃ k < node.size * pageSize, a = BitVec.ofNat 64 (node.start * pageSize + k) := by
    rw [VramMem.mem_bytes, hnode]
    simp
  constructor
  · intro h
    by_contra hne
    -- the first byte that is not written
    obtain ⟨k, hk, heq⟩ := (hmem _).mp (h.complete _ ((hbytes _).mpr ⟨n, by omega, rfl⟩))
    have htoNat := congrArg BitVec.toNat heq
    rw [BitVec.toNat_ofNat, BitVec.toNat_ofNat, Nat.mod_eq_of_lt (by omega),
      Nat.mod_eq_of_lt (by omega)] at htoNat
    omega
  · rintro rfl
    exact ⟨fun a ha => (hmem a).mpr ((hbytes a).mp ha), fun a ha => (hbytes a).mpr ((hmem a).mp ha),
      hzero⟩

/-- From the invalid offset nothing of the buffer object is written. -/
theorem VramMem.not_cleared_of_invalid {mem : VramMem} {fills : List FillCmd} {n : ℕ}
    (hne : mem.mmNode ≠ []) (hinside : ∀ node ∈ mem.mmNode, node.start + node.size ≤ mgr.size)
    (hwritten : fills.flatMap FillCmd.written = bytesFrom (boInvalidOffset <<< pageShift) n) :
    ¬ mem.Cleared fills := by
  intro h
  rcases Nat.eq_zero_or_pos n with rfl | hn
  · obtain ⟨node, hnode⟩ := List.exists_mem_of_ne_nil _ hne
    have hpos : 0 < node.size * pageSize := Nat.mul_pos node.size_pos (by decide)
    have hmem := h.complete _ (VramMem.mem_bytes.mpr ⟨node, hnode, 0, hpos, rfl⟩)
    rw [hwritten] at hmem
    cases hmem
  · have hmem : BitVec.ofNat 64 (2 ^ 64 - pageSize) ∈ fills.flatMap FillCmd.written := by
      rw [hwritten, mem_bytesFrom]
      exact ⟨0, hn, rfl⟩
    have hlt := VramMem.lt_of_mem_bytes (by decide) hinside (h.inside _ hmem)
    revert hlt
    decide

/-! ## The buffer object -/

/-- What is known of a buffer object that was created in VRAM and should be cleared. -/
theorem boCreateRestricted_eq_ok {engine : DmaEngine} {req : BoRequest} {env : CreateEnv mgr}
    {bo : CreatedBo} {mem : VramMem} (hcreate : boCreateRestricted engine req env = .ok bo)
    (hcleared : req.cleared = true) (hmem : bo.mem = some mem) :
    0 < req.numPages ∧
      vramMgrNew req.numPages req.pageAlign req.contiguous env.mm = .ok (some mem) ∧
      ((FillGranted engine env.job req.numPages ∧
          fillBuffer engine env.job mem.start req.numPages 0 = .ok bo.fills) ∨
        (¬ FillGranted engine env.job req.numPages ∧ bo.fills = [])) := by
  unfold boCreateRestricted at hcreate
  simp only [hcleared, Bool.not_true, Bool.false_eq_true, if_false] at hcreate
  split at hcreate
  · cases hcreate
  rename_i hpages
  split at hcreate
  · cases hcreate
  split at hcreate
  · rename_i mem' hnew
    split_ifs at hcreate with hready
    split at hcreate
    · cases hcreate
    split at hcreate
    · cases hcreate
    obtain ⟨hgranted, cmds, hfill⟩ | ⟨hgranted, e, hfill⟩ :=
      fillBuffer_cases engine env.job mem'.start req.numPages 0
    · rw [hfill] at hcreate
      cases hcreate
      cases hmem
      exact ⟨Nat.pos_of_ne_zero hpages, hnew, .inl ⟨hgranted, hfill⟩⟩
    · rw [hfill] at hcreate
      cases hcreate
      cases hmem
      exact ⟨Nat.pos_of_ne_zero hpages, hnew, .inr ⟨hgranted, rfl⟩⟩
  · cases hcreate
    cases hmem
  · cases hcreate

theorem BoRequest.numPages_lt (req : BoRequest) : req.numPages < 2 ^ 63 := by
  have hlt := Nat.mod_lt (req.size.toNat + (pageSize - 1)) (Nat.two_pow_pos 64)
  have hdiv : req.numPages < 2 ^ 64 / pageSize + 1 :=
    Nat.lt_succ_of_le (Nat.div_le_div_right hlt.le)
  exact hdiv.trans (by decide)

theorem BoRequest.pageAlign_lt (req : BoRequest) : req.pageAlign < 2 ^ 31 := by
  have hlt := req.byteAlign_lt
  simp only [pageAlign, pageSize, pageShift]
  omega

/-- A buffer object that was created in VRAM to be cleared is cleared, without writing anything
else, if and only if the manager made one node of it, its bytes and the largest fill together are at
most `2 ^ 32`, and the functions `amdgpu_fill_buffer` calls returned `0`. -/
theorem boCreateRestricted_cleared_iff {engine : DmaEngine} {req : BoRequest} {env : CreateEnv mgr}
    {bo : CreatedBo} {mem : VramMem} (hcreate : boCreateRestricted engine req env = .ok bo)
    (hcleared : req.cleared = true) (hmem : bo.mem = some mem) :
    mem.Cleared bo.fills ↔ OneNode mgr req.numPages req.pageAlign req.contiguous ∧
      req.numPages * pageSize + engine.fillMaxBytes ≤ 2 ^ 32 ∧
      FillGranted engine env.job req.numPages := by
  obtain ⟨hpos, hnew, hfill⟩ := boCreateRestricted_eq_ok hcreate hcleared hmem
  obtain ⟨hne, hinside, hone, hmany⟩ :=
    vramMgrNew_spec hpos req.numPages_lt req.pageAlign_lt hnew
  obtain ⟨hgranted, hfill⟩ | ⟨hgranted, hfills⟩ := hfill
  · have hwritten := fillBuffer_written hfill
    by_cases hnode : OneNode mgr req.numPages req.pageAlign req.contiguous
    · obtain ⟨node, hnodes, hsize, hstart⟩ := hone hnode
      have haddr : mem.start <<< pageShift = BitVec.ofNat 64 (node.start * pageSize) := by
        rw [hstart]
        apply BitVec.eq_of_toNat_eq
        simp [BitVec.toNat_shiftLeft, Nat.shiftLeft_eq, pageSize]
      rw [haddr] at hwritten
      rw [VramMem.cleared_oneNode_iff hnodes (hinside node (by simp [hnodes]))
        (fun c hc => fillBuffer_srcData hfill hc) (by rw [hsize]; exact Chunks.covered_le _ _ _)
        hwritten, hsize, Chunks.covered_eq_iff engine.fillMaxBytes_pos engine.fillMaxBytes_le]
      exact ⟨fun h => ⟨hnode, h, hgranted⟩, fun h => h.2.1⟩
    · rw [hmany hnode] at hwritten
      exact iff_of_false (VramMem.not_cleared_of_invalid hne hinside hwritten)
        fun h => hnode h.1
  · refine iff_of_false (VramMem.not_cleared_of_invalid (n := 0) hne hinside ?_)
      fun h => hgranted h.2.2
    rw [hfills]
    rfl

/-- A manager of sixteen gigabytes that splits buffer objects into nodes of `1024` pages. -/
def VramMgr.sixteenGigabytes : VramMgr where
  size := 2 ^ 22
  size_le := by decide
  pageSplit := some 1024
  pageSplit_mem := by simp

/-- Answers that are all `0`; the nodes are `4096` pages apart. -/
def CreateEnv.allGranted : CreateEnv .sixteenGigabytes where
  init := none
  mm :=
    { kcalloc := true
      insertNode := fun i pages =>
        if i * 4096 + pages ≤ 2 ^ 22 then .ok (i * 4096) else .error .ENOSPC
      inside := by
        intro i pages start h
        split_ifs at h with hle
        cases h
        exact hle }
  ringReady := true
  reserve := none
  validate := none
  job := ⟨fun _ => none, none, none⟩

/-- A request for VRAM that is cleared, when everything is granted. -/
theorem boCreateRestricted_allGranted {req : BoRequest} {n : ℕ} {mem : VramMem}
    {fills : List FillCmd} (hcleared : req.cleared = true) (hpages : req.numPages = n) (hn : n ≠ 0)
    (hnew : vramMgrNew n req.pageAlign req.contiguous CreateEnv.allGranted.mm = .ok (some mem))
    (hfill : fillBuffer .sdmaV30 CreateEnv.allGranted.job mem.start n 0 = .ok fills) :
    boCreateRestricted .sdmaV30 req CreateEnv.allGranted = .ok ⟨n, some mem, fills⟩ := by
  have hinit : CreateEnv.allGranted.init = none := rfl
  have hready : CreateEnv.allGranted.ringReady = true := rfl
  have hreserve : CreateEnv.allGranted.reserve = none := rfl
  have hvalidate : CreateEnv.allGranted.validate = none := rfl
  simp only [boCreateRestricted, hpages, if_neg hn, hinit, hnew, hcleared, hready, hreserve,
    hvalidate, hfill, Bool.not_true, Bool.false_eq_true, if_false]

/-- A buffer object of `600` pages, which lie in one node, is cleared with two commands. -/
theorem boCreateRestricted_cleared_oneNode : ∃ bo mem,
    boCreateRestricted .sdmaV30 ⟨0x258000, 0, BoRequest.zero_align_lt, false, true⟩
        CreateEnv.allGranted = .ok bo ∧
      bo.mem = some mem ∧ mem.mmNode = [⟨0, 600, by decide⟩] ∧ bo.fills.length = 2 ∧
      mem.Cleared bo.fills := by
  have hcreate : boCreateRestricted .sdmaV30 ⟨0x258000, 0, BoRequest.zero_align_lt, false, true⟩
      CreateEnv.allGranted = .ok ⟨600, some ⟨0, [⟨0, 600, by decide⟩]⟩,
        [⟨0, 0, 0x1fffff⟩, ⟨0, 0x1fffff, 0x58001⟩]⟩ :=
    boCreateRestricted_allGranted rfl (by decide) (by decide) rfl rfl
  refine ⟨_, _, hcreate, rfl, rfl, rfl, (boCreateRestricted_cleared_iff hcreate rfl rfl).mpr
    ⟨.inr ?_, by decide, rfl⟩⟩
  intro split hsplit
  cases hsplit
  decide

/-- A buffer object of `2048` pages gets two nodes, at the pages `0` and `4096`. It is not cleared:
its page `4096` is not written, and page `1024`, which is not its own, is. -/
theorem boCreateRestricted_not_cleared : ∃ bo mem,
    boCreateRestricted .sdmaV30 ⟨0x800000, 0, BoRequest.zero_align_lt, false, true⟩
        CreateEnv.allGranted = .ok bo ∧
      bo.mem = some mem ∧ ¬ mem.Cleared bo.fills ∧
      BitVec.ofNat 64 (4096 * pageSize) ∈ mem.bytes ∧
      BitVec.ofNat 64 (4096 * pageSize) ∉ bo.fills.flatMap FillCmd.written ∧
      BitVec.ofNat 64 (1024 * pageSize) ∉ mem.bytes ∧
      BitVec.ofNat 64 (1024 * pageSize) ∈ bo.fills.flatMap FillCmd.written := by
  obtain ⟨fills, hfill⟩ : ∃ fills, fillBuffer .sdmaV30 CreateEnv.allGranted.job boInvalidOffset
      2048 0 = .ok fills := ⟨_, rfl⟩
  have hcreate : boCreateRestricted .sdmaV30 ⟨0x800000, 0, BoRequest.zero_align_lt, false, true⟩
      CreateEnv.allGranted = .ok ⟨2048, some ⟨boInvalidOffset, [⟨0, 1024, by decide⟩,
        ⟨4096, 1024, by decide⟩]⟩, fills⟩ :=
    boCreateRestricted_allGranted rfl (by decide) (by decide) rfl hfill
  have hcovered := (Chunks.covered_eq_iff (DmaEngine.sdmaV30).fillMaxBytes_pos
    (DmaEngine.sdmaV30).fillMaxBytes_le (2048 * pageSize)).mpr (by decide)
  have hwritten : fills.flatMap FillCmd.written =
      bytesFrom (boInvalidOffset <<< pageShift) (2048 * pageSize) := by
    rw [fillBuffer_written hfill, hcovered]
  have hstart : boInvalidOffset <<< pageShift = BitVec.ofNat 64 (2 ^ 64 - 4096) := by decide
  rw [hstart] at hwritten
  have hpage : BitVec.ofNat 64 (4096 * pageSize) ∉ fills.flatMap FillCmd.written := by
    rw [hwritten, mem_bytesFrom]
    rintro ⟨k, hk, heq⟩
    have htoNat := congrArg BitVec.toNat heq
    simp only [BitVec.toNat_add, BitVec.toNat_ofNat, pageSize, pageShift] at htoNat hk
    omega
  have hbytes : BitVec.ofNat 64 (4096 * pageSize) ∈
      VramMem.bytes ⟨boInvalidOffset, [⟨0, 1024, by decide⟩, ⟨4096, 1024, by decide⟩]⟩ :=
    VramMem.mem_bytes.mpr ⟨⟨4096, 1024, by decide⟩, List.mem_cons_of_mem _ List.mem_cons_self, 0,
      by decide, rfl⟩
  refine ⟨_, _, hcreate, rfl, fun h => hpage (h.complete _ hbytes), hbytes, hpage, ?_, ?_⟩
  · rw [VramMem.mem_bytes]
    rintro ⟨node, hnode, k, hk, heq⟩
    have htoNat := congrArg BitVec.toNat heq
    simp only [List.mem_cons, List.not_mem_nil, or_false] at hnode
    rcases hnode with rfl | rfl <;>
      simp only [BitVec.toNat_ofNat, pageSize, pageShift] at htoNat hk <;> omega
  · rw [hwritten, mem_bytesFrom]
    exact ⟨1025 * 4096, by decide, by decide⟩

end Amdgpu
