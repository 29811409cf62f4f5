import AmdgpuPro.Kernel
import AmdgpuPro.Vm.Config

set_option autoImplicit false

/-!
# Page table updates

The chain from a mapping to its page table entries: `amdgpu_vm_bo_split_mapping` cuts a mapping
into chunks, `amdgpu_vm_bo_update_mapping` submits one job per chunk, `amdgpu_vm_frag_ptes` adds
fragment bits and `amdgpu_vm_update_ptes` walks the page tables and coalesces the entries of
tables that are adjacent in memory into one command.

## Main definitions

* `Amdgpu.Pte`, `PteUpdate`, `applyUpdates` — entries, commands, and what the commands do to the
  entries of an address space.
* `vmUpdatePtes`, `vmFragPtes`, `vmBoUpdateMapping`, `vmBoSplitMapping` — the functions above. Their
  parts are studied in `AmdgpuPro.Vm.PageTableSpec`.

## Design

An entry is the pair of its destination address and its flag word; the driver keeps destination
addresses page aligned, so the hardware word is their bitwise or. The entries of an address
space are indexed by page number: entry `p` is entry `p % pteCount` of page table
`p / pteCount`. Page tables may be moved between two updates, so their placement is an argument
of an update and not part of the state.
-/

namespace Amdgpu

/-! ## Entries and commands -/

/-- A page table entry: destination address and flag bits. -/
structure Pte where
  addr : BitVec 64
  flags : BitVec 32
  deriving DecidableEq

/-- `AMDGPU_PTE_VALID` -/
def pteValid : BitVec 32 := 1
/-- `AMDGPU_PTE_SYSTEM` -/
def pteSystem : BitVec 32 := 2
/-- `AMDGPU_PTE_SNOOPED` -/
def pteSnooped : BitVec 32 := 4
/-- `AMDGPU_PTE_EXECUTABLE` -/
def pteExecutable : BitVec 32 := 16
/-- `AMDGPU_PTE_READABLE` -/
def pteReadable : BitVec 32 := 32
/-- `AMDGPU_PTE_WRITEABLE` -/
def pteWriteable : BitVec 32 := 64
/-- `AMDGPU_PTE_FRAG(AMDGPU_LOG2_PAGES_PER_FRAG)` -/
def pteFrag : BitVec 32 := (4 &&& 0x1f) <<< 7

/-- The entry a cleared page table holds. -/
def Pte.zero : Pte := ⟨0, 0⟩

/-- The hardware translates through the entry. -/
def Pte.Valid (e : Pte) : Prop := e.flags &&& pteValid ≠ 0

instance (e : Pte) : Decidable e.Valid := inferInstanceAs (Decidable (_ ≠ _))

/-- The maximum number of entries of one command, `AMDGPU_VM_MAX_UPDATE_SIZE`. -/
def vmMaxUpdateSize : ℕ := 0x3FFFF

/-- One call of `params->func`: `count` entries from address `pe` on. -/
structure PteUpdate where
  pe : ℕ
  dst : BitVec 64
  count : ℕ
  flags : BitVec 32

/-- The function `params->func`: `amdgpu_vm_do_set_ptes` writes consecutive destinations,
`amdgpu_vm_do_copy_ptes` copies entries of a source table, indexed from `params->src`. -/
inductive PteFunc
  | set
  | copy (src : ℕ → Pte)

/-- Entry number `k` of an update. -/
def PteFunc.value : PteFunc → PteUpdate → ℕ → Pte
  | set, u, k => ⟨u.dst + BitVec.ofNat 64 (k * gpuPageSize), u.flags⟩
  | copy src, u, k => src ((u.dst >>> 12).toNat + k)

/-- Where the page tables of an address space lie: table `i` occupies `8 * pteCount` bytes from
`addr i` on, and no two tables overlap. -/
structure Placement (cfg : VmConfig) where
  addr : ℕ → ℕ
  disjoint : ∀ i j, i ≠ j →
    addr i + 8 * cfg.pteCount ≤ addr j ∨ addr j + 8 * cfg.pteCount ≤ addr i

variable {cfg : VmConfig}

/-- The address of the entry of page `p`. -/
def Placement.entry (pl : Placement cfg) (p : ℕ) : ℕ :=
  pl.addr (p / cfg.pteCount) + 8 * (p % cfg.pteCount)

/-- What one command does to the entries of an address space. -/
def applyUpdate (f : PteFunc) (pl : Placement cfg) (pte : ℕ → Pte) (u : PteUpdate) : ℕ → Pte :=
  fun p =>
    if u.pe ≤ pl.entry p ∧ pl.entry p < u.pe + 8 * u.count then
      f.value u ((pl.entry p - u.pe) / 8)
    else pte p

/-- What a list of commands does to the entries of an address space. -/
def applyUpdates (f : PteFunc) (pl : Placement cfg) (us : List PteUpdate) (pte : ℕ → Pte) :
    ℕ → Pte :=
  us.foldl (applyUpdate f pl) pte

/-! ## `amdgpu_vm_update_ptes` -/

/-- A page table buffer object; page tables are created with a shadow where the device backs
them up. -/
structure PtBo where
  shadow : Bool
  deriving DecidableEq

/-- The table an update pass writes: a missing table is a `NULL` dereference, a table without a
shadow ends the shadow pass. -/
inductive PtLookup
  | fault
  | noShadow
  | found

/-- The lookup of table `i` at the top of the loop body. -/
def ptLookup (tables : ℕ → Option PtBo) (shadow : Bool) (i : ℕ) : PtLookup :=
  match tables i with
  | none => .fault
  | some pt => if shadow && !pt.shadow then .noShadow else .found

/-- The number of entries to update in the table of page `addr`, a 32 bit variable. -/
def ptesInTable (cfg : VmConfig) (addr last : ℕ) : ℕ :=
  (if addr / cfg.pteCount = last / cfg.pteCount then last - addr
    else cfg.pteCount - addr % cfg.pteCount) % 2 ^ 32

/-- `dst += nptes * AMDGPU_GPU_PAGE_SIZE`; the product is computed in 32 bits. -/
def advanceDst (dst : BitVec 64) (nptes : ℕ) : BitVec 64 :=
  dst + ((BitVec.ofNat 32 nptes * BitVec.ofNat 32 gpuPageSize).setWidth 64)

/-- The collected but not yet issued command: `cur_pe_start`, `cur_nptes` and `cur_dst`. -/
structure PtesCursor where
  peStart : ℕ
  nptes : ℕ
  dst : BitVec 64

/-- `params->func(params, cur_pe_start, cur_dst, cur_nptes, ..)`; the count is an `unsigned`. -/
def PtesCursor.issue (cur : PtesCursor) (flags : BitVec 32) : PteUpdate :=
  ⟨cur.peStart, cur.dst, cur.nptes % 2 ^ 32, flags⟩

/-- The loop of `amdgpu_vm_update_ptes` from page `addr` on; `last` is the page after the range.
`none` is a `NULL` dereference. Every iteration advances `addr`, so `last - addr` is enough
fuel. -/
def updatePtesLoop (pl : Placement cfg) (tables : ℕ → Option PtBo) (shadow : Bool) (last : ℕ)
    (flags : BitVec 32) : ℕ → ℕ → BitVec 64 → PtesCursor → Option (List PteUpdate)
  | 0, _, _, cur => some [cur.issue flags]
  | fuel + 1, addr, dst, cur =>
    if addr < last then
      match ptLookup tables shadow (addr / cfg.pteCount) with
      | .fault => none
      | .noShadow => some []
      | .found =>
        let nptes := ptesInTable cfg addr last
        let next := pl.entry addr
        if cur.peStart + 8 * cur.nptes = next ∧ cur.nptes + nptes ≤ vmMaxUpdateSize then
          updatePtesLoop pl tables shadow last flags fuel (addr + nptes) (advanceDst dst nptes)
            { cur with nptes := cur.nptes + nptes }
        else do
          let us ← updatePtesLoop pl tables shadow last flags fuel (addr + nptes)
            (advanceDst dst nptes) ⟨next, nptes, dst⟩
          some (cur.issue flags :: us)
    else some [cur.issue flags]

/-- `amdgpu_vm_update_ptes`: the commands that update the entries of the pages from `start` on,
up to but not including `last`. -/
def vmUpdatePtes (pl : Placement cfg) (tables : ℕ → Option PtBo) (shadow : Bool)
    (start last : ℕ) (dst : BitVec 64) (flags : BitVec 32) : Option (List PteUpdate) :=
  match ptLookup tables shadow (start / cfg.pteCount) with
  | .fault => none
  | .noShadow => some []
  | .found =>
    let nptes := ptesInTable cfg start last
    updatePtesLoop pl tables shadow last flags (last - start) (start + nptes)
      (advanceDst dst nptes) ⟨pl.entry start, nptes, dst⟩

/-! ## `amdgpu_vm_frag_ptes` -/

/-- The 4K area at either end of a range, which may be empty. -/
def updateEdge (pl : Placement cfg) (tables : ℕ → Option PtBo) (shadow : Bool)
    (start last : ℕ) (dst : BitVec 64) (flags : BitVec 32) : Option (List PteUpdate) :=
  if start ≠ last then vmUpdatePtes pl tables shadow start last dst flags else some []

/-- `amdgpu_vm_frag_ptes`: the entries of whole, aligned groups of 16 pages get fragment bits.
`copied` is `params->src != 0`: system pages are not contiguous. -/
def vmFragPtes (pl : Placement cfg) (tables : ℕ → Option PtBo) (shadow copied : Bool)
    (start last : ℕ) (dst : BitVec 64) (flags : BitVec 32) : Option (List PteUpdate) :=
  let fragStart := (start + 15) / 16 * 16
  let fragEnd := last / 16 * 16
  if copied ∨ flags &&& pteValid = 0 ∨ fragEnd ≤ fragStart then
    vmUpdatePtes pl tables shadow start last dst flags
  else do
    let head ← updateEdge pl tables shadow start fragStart dst flags
    let dst := dst + BitVec.ofNat 64 ((fragStart - start) * gpuPageSize)
    let body ← vmUpdatePtes pl tables shadow fragStart fragEnd dst (flags ||| pteFrag)
    let dst := dst + BitVec.ofNat 64 ((fragEnd - fragStart) * gpuPageSize)
    let tail ← updateEdge pl tables shadow fragEnd last dst flags
    some (head ++ body ++ tail)

/-! ## `amdgpu_vm_bo_update_mapping` -/

/-- The entries of an address space and of its shadow page tables. -/
structure PtStore where
  pte : ℕ → Pte
  shadow : ℕ → Pte

/-- What the memory manager and the scheduler answer during one page table update: where the
tables lie, and whether each of the fallible calls fails. -/
structure UpdateEnv (cfg : VmConfig) where
  place : Placement cfg
  shadowPlace : Placement cfg
  /-- `amdgpu_job_alloc_with_ib` -/
  jobAlloc : Option Errno
  /-- `amdgpu_sync_fence` -/
  syncFence : Option Errno
  /-- `amdgpu_sync_resv` -/
  syncResv : Option Errno
  /-- `reservation_object_reserve_shared` -/
  reserveShared : Option Errno
  /-- `amdgpu_job_submit` -/
  jobSubmit : Option Errno

/-- The first error before the commands are collected, in the order of the calls. -/
def UpdateEnv.earlyError (env : UpdateEnv cfg) : Option Errno :=
  env.jobAlloc <|> env.syncFence <|> env.syncResv <|> env.reserveShared

/-- `amdgpu_vm_map_gart`: the page address `addr` resolves to. -/
def vmMapGart (pagesAddr : ℕ → BitVec 64) (addr : BitVec 64) : BitVec 64 :=
  (pagesAddr (addr >>> 12).toNat ||| (addr &&& 0xfff)) &&& 0xFFFFFFFFFFFFF000

/-- The memory types a buffer object can be placed in. -/
inductive MemType
  | system | tt | vram | gds | gws | oa | dgma | dgmaImport
  deriving DecidableEq

/-- The device state the update chain reads: the entries of the GART table and the offsets of
the memory types. -/
structure VmDevice where
  gart : ℕ → Pte
  vramBaseOffset : BitVec 64
  gpuOffset : MemType → BitVec 64
  /-- `adev->asic_type >= CHIP_TONGA` -/
  tonga : Bool

/-- The update function, whether it copies, and the first destination, as the three branches on
`src` and `pages_addr` choose them. With `pages_addr` the entries are staged behind the commands
and `addr` restarts at `0`. -/
def pteFunc (dev : VmDevice) (src : Option ℕ) (pagesAddr : Option (ℕ → BitVec 64))
    (flags : BitVec 32) (addr : BitVec 64) : PteFunc × Bool × BitVec 64 :=
  match src, pagesAddr with
  | some i, _ => (.copy fun j => dev.gart (i + j), true, addr)
  | none, some pa =>
    (.copy fun j => ⟨vmMapGart pa (addr + BitVec.ofNat 64 (j * gpuPageSize)), flags⟩, true, 0)
  | none, none => (.set, false, addr)

/-- `amdgpu_vm_bo_update_mapping`: one job that fills in the entries from `start` to `last`,
first those of the shadow tables. The job takes effect when it is submitted; a call that fails
changes nothing. -/
def vmBoUpdateMapping (dev : VmDevice) (tables : ℕ → Option PtBo) (src : Option ℕ)
    (pagesAddr : Option (ℕ → BitVec 64)) (start last : ℕ) (flags : BitVec 32) (addr : BitVec 64)
    (env : UpdateEnv cfg) (st : PtStore) : Outcome PtStore :=
  match env.earlyError with
  | some e => .ret st (some e)
  | none =>
    let (f, copied, addr) := pteFunc dev src pagesAddr flags addr
    match vmFragPtes env.shadowPlace tables true copied start (last + 1) addr flags,
        vmFragPtes env.place tables false copied start (last + 1) addr flags with
    | some shadowUs, some us =>
      match env.jobSubmit with
      | some e => .ret st (some e)
      | none => .ret ⟨applyUpdates f env.place us st.pte,
          applyUpdates f env.shadowPlace shadowUs st.shadow⟩ none
    | _, _ => .bug st

/-! ## `amdgpu_vm_bo_split_mapping` -/

/-- A mapping of a buffer object, `amdgpu_bo_va_mapping`: the page range of its interval tree
node, the offset into the buffer object and the requested access. `id` is the address of the
record. -/
structure Mapping where
  id : ℕ
  start : ℕ
  last : ℕ
  offset : ℕ
  flags : BitVec 32
  deriving DecidableEq

/-- The pages of a mapping. -/
def Mapping.Contains (m : Mapping) (p : ℕ) : Prop := m.start ≤ p ∧ p ≤ m.last

instance (m : Mapping) (p : ℕ) : Decidable (m.Contains p) := inferInstanceAs (Decidable (_ ∧ _))

/-- A block of contiguous memory, `drm_mm_node`, in pages. The memory manager has no empty
blocks. -/
structure MmNode where
  start : ℕ
  size : ℕ
  size_pos : 0 < size

/-- Where a buffer object lies, `ttm_mem_reg`. -/
structure MemReg where
  memType : MemType
  /-- `mm_node`, an array of blocks, or `NULL` -/
  nodes : Option (List MmNode)
  /-- `bus.base`, the page addresses of an imported buffer -/
  busBase : ℕ → BitVec 64

/-- One call of `amdgpu_vm_bo_update_mapping`. -/
structure Chunk where
  src : Option ℕ
  pagesAddr : Option (ℕ → BitVec 64)
  start : ℕ
  last : ℕ
  addr : BitVec 64

/-- The variables of the loop of `amdgpu_vm_bo_split_mapping`. -/
structure SplitState where
  nodes : Option (List MmNode)
  pfn : ℕ
  start : ℕ
  src : Option ℕ
  pagesAddr : Option (ℕ → BitVec 64)
  gttFlags : BitVec 32

/-- `while (pfn >= nodes->size)`: find the block of page `pfn`. Running past the last block
leaves no block. -/
def skipNodes : List MmNode → ℕ → List MmNode × ℕ
  | [], pfn => ([], pfn)
  | n :: ns, pfn => if n.size ≤ pfn then skipNodes ns (pfn - n.size) else (n :: ns, pfn)

/-- What the `switch` over the memory type sets: the address of the block, the number of entries
one chunk may take, and the loop variables with their new source. -/
structure ChunkSource where
  addr : BitVec 64
  maxEntries : ℕ
  vars : SplitState

/-- The common part of `AMDGPU_PL_DGMA_IMPORT` and `TTM_PL_TT`. -/
def ttSource (flags : BitVec 32) (addr : BitVec 64) (maxEntries : ℕ) (st : SplitState) :
    ChunkSource :=
  if flags = st.gttFlags then ⟨0, maxEntries, { st with src := some (addr >>> 12).toNat }⟩
  else ⟨0, min maxEntries (16 * 1024), st⟩

/-- The `switch` over the memory type for a chunk in block `n`. -/
def chunkSource (dev : VmDevice) (mem : MemReg) (flags : BitVec 32) (n : MmNode)
    (st : SplitState) : ChunkSource :=
  let addr := BitVec.ofNat 64 (n.start <<< 12)
  let maxEntries := n.size - st.pfn
  match mem.memType with
  | .dgmaImport =>
    ttSource flags (addr + (dev.gpuOffset .dgmaImport - dev.gpuOffset .tt)) maxEntries
      { st with pagesAddr := some mem.busBase, gttFlags := flags }
  | .tt => ttSource flags addr maxEntries st
  | .dgma =>
    ⟨addr + (dev.vramBaseOffset + dev.gpuOffset .dgma - dev.gpuOffset .vram), maxEntries, st⟩
  | .vram => ⟨addr + dev.vramBaseOffset, maxEntries, st⟩
  | _ => ⟨addr, maxEntries, st⟩

/-- `S64_MAX`, the `max_entries` of a chunk without a block. -/
def s64Max : ℕ := 2 ^ 63 - 1

theorem s64Max_pos : 0 < s64Max := by norm_num [s64Max]

/-- The chunks of the rest of a mapping up to page `last`, and whether the loop runs past the
last block of the buffer object. -/
def splitLoop (dev : VmDevice) (mem : MemReg) (flags : BitVec 32) (last : ℕ) :
    ℕ → SplitState → List Chunk × Bool
  | 0, _ => ([], false)
  | fuel + 1, st =>
    match st.nodes with
    | some [] => ([], true)
    | some (n :: ns) =>
      let s := chunkSource dev mem flags n st
      let chunkLast := min last (st.start + s.maxEntries - 1)
      let c : Chunk := ⟨s.vars.src, s.vars.pagesAddr, st.start, chunkLast,
        s.addr + BitVec.ofNat 64 (st.pfn <<< 12)⟩
      let pfn := st.pfn + (chunkLast - st.start + 1)
      let st' := if n.size = pfn then
          { s.vars with nodes := some ns, pfn := 0, start := chunkLast + 1 }
        else { s.vars with pfn := pfn, start := chunkLast + 1 }
      if chunkLast + 1 ≠ last + 1 then
        let rest := splitLoop dev mem flags last fuel st'
        (c :: rest.1, rest.2)
      else ([c], false)
    | none =>
      let chunkLast := min last (st.start + s64Max - 1)
      let c : Chunk := ⟨st.src, st.pagesAddr, st.start, chunkLast,
        BitVec.ofNat 64 (st.pfn <<< 12)⟩
      let pfn := st.pfn + (chunkLast - st.start + 1)
      if chunkLast + 1 ≠ last + 1 then
        let rest := splitLoop dev mem flags last fuel
          { st with pfn := pfn, start := chunkLast + 1 }
        (c :: rest.1, rest.2)
      else ([c], false)

/-- The calls of `amdgpu_vm_bo_update_mapping` in order, until one fails; `envs k` answers call
number `k`. `past` marks a loop that runs past the last block after these chunks. -/
def runChunks (dev : VmDevice) (tables : ℕ → Option PtBo) (flags : BitVec 32) (past : Bool) :
    List Chunk → (ℕ → UpdateEnv cfg) → PtStore → Outcome PtStore
  | [], _, st => if past then .bug st else .ret st none
  | c :: cs, envs, st =>
    match vmBoUpdateMapping dev tables c.src c.pagesAddr c.start c.last flags c.addr (envs 0)
      st with
    | .ret st' none => runChunks dev tables flags past cs (fun k => envs (k + 1)) st'
    | o => o

/-- The flags of a mapping update: access that the mapping does not allow is removed. -/
def mappingFlags (m : Mapping) (flags : BitVec 32) : BitVec 32 :=
  let flags := if m.flags &&& pteReadable = 0 then flags &&& ~~~pteReadable else flags
  if m.flags &&& pteWriteable = 0 then flags &&& ~~~pteWriteable else flags

/-- The loop variables before the first iteration. -/
def splitInit (m : Mapping) (mem : MemReg) (pagesAddr : Option (ℕ → BitVec 64))
    (gttFlags : BitVec 32) : SplitState :=
  match mem.nodes with
  | some ns =>
    let (ns, pfn) := skipNodes ns (m.offset >>> 12)
    ⟨some ns, pfn, m.start, none, pagesAddr, gttFlags⟩
  | none => ⟨none, m.offset >>> 12, m.start, none, pagesAddr, gttFlags⟩

/-- A `mem` pointer that is `NULL`: no blocks, and nothing else of it is read. -/
def nullMem : MemReg := ⟨.system, none, fun _ => 0⟩

/-- `amdgpu_vm_bo_split_mapping`: update the entries of a mapping, one job per chunk. -/
def vmBoSplitMapping (dev : VmDevice) (tables : ℕ → Option PtBo) (gttFlags : BitVec 32)
    (pagesAddr : Option (ℕ → BitVec 64)) (m : Mapping) (flags : BitVec 32) (mem : Option MemReg)
    (envs : ℕ → UpdateEnv cfg) (st : PtStore) : Outcome PtStore :=
  let flags := mappingFlags m flags
  let mem := mem.getD nullMem
  let (cs, past) := splitLoop dev mem flags m.last (m.last + 1 - m.start)
    (splitInit m mem pagesAddr gttFlags)
  runChunks dev tables flags past cs envs st

end Amdgpu
