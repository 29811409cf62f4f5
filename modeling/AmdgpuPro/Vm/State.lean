import AmdgpuPro.Vm.PageTable

set_option autoImplicit false

/-!
# The operations on an address space

The state of a VM — its interval tree, its lists, its page tables — and the functions of the
driver that change it: `amdgpu_vm_bo_add`, `amdgpu_vm_bo_map`, `amdgpu_vm_bo_unmap`,
`amdgpu_vm_bo_rmv`, `amdgpu_vm_bo_update`, `amdgpu_vm_bo_invalidate`, `amdgpu_vm_clear_freed`
and `amdgpu_vm_clear_invalids`.

## Main definitions

* `Amdgpu.Vm` — the state.
* `vmBoMap` and the other operations, one definition per function.
* `VmCall`, `VmStep` — a call with everything the rest of the kernel answers during it, and the step
  relation of the calls that return.

## Design

The kernel's lists are Lean lists, the first entry first: `list_add` is `::`, `list_add_tail`
appends, `list_del` is `erase` and `list_splice_init` puts one list in front of another. The
interval tree is the list of its nodes. Records are named by numbers that are never reused, and
a call is made with the `amdgpu_bo_va` it works on: its address `i` and its contents `bv`. A
function that fails where the kernel can refuse memory, a fence or a job takes these answers as
arguments.
-/

namespace Amdgpu

variable {cfg : VmConfig}

/-! ## The state -/

/-- A buffer object, as far as an address space looks at it. -/
structure Bo where
  id : ℕ
  size : BitVec 64
  deriving DecidableEq

/-- `amdgpu_bo_va`: a buffer object in a VM, with its up to date mappings and those whose page
table entries have to be written. -/
structure BoVa where
  bo : Bo
  valids : List Mapping
  invalids : List Mapping
  deriving DecidableEq

/-- `amdgpu_vm`. -/
structure Vm (cfg : VmConfig) where
  /-- the interval tree -/
  va : List Mapping
  /-- the `vm_status` list of the `bo_va`s that were moved -/
  invalidated : List ℕ
  /-- the `vm_status` list of the `bo_va`s whose entries were cleared -/
  cleared : List ℕ
  /-- mappings that are gone, but not yet from the page tables -/
  freed : List Mapping
  /-- the live `bo_va` records -/
  boVas : ℕ → Option BoVa
  /-- `bo->va` of each buffer object, its `bo_va`s of this VM -/
  boList : ℕ → List ℕ
  maxPdeUsed : ℕ
  /-- `page_tables[i].bo` -/
  tables : ℕ → Option PtBo
  pts : PtStore
  /-- the next unused record number -/
  nextId : ℕ

/-- The VM after `amdgpu_vm_init`; without page tables the entries mean nothing. -/
def Vm.init (cfg : VmConfig) (pts : PtStore) : Vm cfg where
  va := []
  invalidated := []
  cleared := []
  freed := []
  boVas := fun _ => none
  boList := fun _ => []
  maxPdeUsed := 0
  tables := fun _ => none
  pts := pts
  nextId := 0

/-- Write the record of a `bo_va`. -/
def Vm.setBoVa (vm : Vm cfg) (i : ℕ) (bv : BoVa) : Vm cfg :=
  { vm with boVas := Function.update vm.boVas i (some bv) }

/-- `!list_empty(&bo_va->vm_status)` -/
def Vm.OnStatusList (vm : Vm cfg) (i : ℕ) : Prop := i ∈ vm.invalidated ∨ i ∈ vm.cleared

instance (vm : Vm cfg) (i : ℕ) : Decidable (vm.OnStatusList i) :=
  inferInstanceAs (Decidable (_ ∨ _))

/-! ## `amdgpu_vm_bo_add` and `amdgpu_vm_bo_map` -/

/-- `amdgpu_vm_bo_add`; `alloc` tells whether there is memory for the record. -/
def vmBoAdd (bo : Bo) (alloc : Bool) (vm : Vm cfg) : Vm cfg :=
  if alloc then
    { vm with
      boVas := Function.update vm.boVas vm.nextId (some ⟨bo, [], []⟩)
      boList := Function.update vm.boList bo.id (vm.boList bo.id ++ [vm.nextId])
      nextId := vm.nextId + 1 }
  else vm

/-- What happens to the allocation of one page table. -/
structure PtAlloc where
  /-- `amdgpu_bo_create` -/
  create : Except Errno PtBo
  /-- `amdgpu_vm_clear_bo` of the table -/
  clear : Option Errno
  /-- `amdgpu_vm_clear_bo` of its shadow -/
  clearShadow : Option Errno

/-- The table if all steps succeed, and the first error otherwise. -/
def PtAlloc.result (a : PtAlloc) : Except Errno PtBo :=
  match a.create, a.clear with
  | .error e, _ => .error e
  | .ok _, some e => .error e
  | .ok pt, none =>
    match a.clearShadow with
    | some e => if pt.shadow then .error e else .ok pt
    | none => .ok pt

/-- The answers to the allocations of `amdgpu_vm_bo_map`. -/
structure MapEnv where
  /-- `kmalloc` of the mapping -/
  mappingAlloc : Bool
  ptAlloc : ℕ → PtAlloc

/-- `vm->page_tables[ptIdx].bo = pt` for a table, and possibly a shadow, full of zeros. -/
def Vm.addTable (vm : Vm cfg) (ptIdx : ℕ) (pt : PtBo) : Vm cfg :=
  { vm with
    tables := Function.update vm.tables ptIdx (some pt)
    pts := ⟨fun p => if p / cfg.pteCount = ptIdx then Pte.zero else vm.pts.pte p,
      fun p => if pt.shadow ∧ p / cfg.pteCount = ptIdx then Pte.zero else vm.pts.shadow p⟩ }

/-- The loop that allocates `n` page tables from `ptIdx` on, where they are missing. -/
def allocTables (alloc : ℕ → PtAlloc) : ℕ → ℕ → Vm cfg → Vm cfg × Option Errno
  | 0, _, vm => (vm, none)
  | n + 1, ptIdx, vm =>
    match vm.tables ptIdx with
    | some _ => allocTables alloc n (ptIdx + 1) vm
    | none =>
      match (alloc ptIdx).result with
      | .error e => (vm, some e)
      | .ok pt => allocTables alloc n (ptIdx + 1) (vm.addTable ptIdx pt)

/-- The validation of the parameters of `amdgpu_vm_bo_map`: alignment, the size of the buffer
object, and the limit of the address space. `last_pfn` is an `unsigned`. -/
def vmBoMapArgs (cfg : VmConfig) (boSize saddr offset size : BitVec 64) : Bool :=
  if saddr &&& gpuPageMask ≠ 0 ∨ offset &&& gpuPageMask ≠ 0 ∨ size = 0 ∨
      size &&& gpuPageMask ≠ 0 then false
  else
    let eaddr := saddr + size - 1
    if eaddr ≤ saddr ∨ boSize < offset + size then false
    else
      let lastPfn := (eaddr / 4096).setWidth 32
      decide (lastPfn.toNat < cfg.maxPfn)

/-- Two mappings have a page in common. -/
def Mapping.Overlaps (m : Mapping) (start last : ℕ) : Prop := m.start ≤ last ∧ start ≤ m.last

instance (m : Mapping) (start last : ℕ) : Decidable (m.Overlaps start last) :=
  inferInstanceAs (Decidable (_ ∧ _))

/-- `interval_tree_iter_first` -/
def Vm.iterFirst (vm : Vm cfg) (start last : ℕ) : Option Mapping :=
  vm.va.find? fun m => m.Overlaps start last

/-- The first page of `[saddr, saddr + size)`, `saddr` after the division. -/
def mapFirst (saddr : BitVec 64) : ℕ := (saddr / 4096).toNat

/-- The last page of `[saddr, saddr + size)`, `eaddr` after the division. -/
def mapLast (saddr size : BitVec 64) : ℕ := ((saddr + size - 1) / 4096).toNat

/-- The mapping record `amdgpu_vm_bo_map` fills in. -/
def Vm.newMapping (vm : Vm cfg) (saddr offset size : BitVec 64) (flags : BitVec 32) : Mapping :=
  ⟨vm.nextId, mapFirst saddr, mapLast saddr size, offset.toNat, flags⟩

/-- The part of `amdgpu_vm_bo_map` after the mapping `m` was allocated: insert it, and allocate
the page tables it needs. -/
def vmBoMapInsert (i : ℕ) (bv : BoVa) (m : Mapping) (env : MapEnv) (vm : Vm cfg) :
    Outcome (Vm cfg) :=
  let vm := { vm.setBoVa i { bv with invalids := m :: bv.invalids } with
    va := m :: vm.va, nextId := vm.nextId + 1 }
  let ptFirst := m.start / cfg.pteCount
  let ptLast := m.last / cfg.pteCount
  -- `BUG_ON(eaddr >= amdgpu_vm_num_pdes(adev))`
  if cfg.numPdes ≤ ptLast then .bug vm
  else
    let vm := { vm with maxPdeUsed := max vm.maxPdeUsed ptLast }
    match allocTables env.ptAlloc (ptLast + 1 - ptFirst) ptFirst vm with
    | (vm, none) => .ret vm none
    | (vm, some e) =>
      -- `error_free`
      .ret { vm.setBoVa i { bv with invalids := (m :: bv.invalids).erase m } with
        va := vm.va.erase m } (some e)

/-- `amdgpu_vm_bo_map` -/
def vmBoMap (i : ℕ) (bv : BoVa) (saddr offset size : BitVec 64) (flags : BitVec 32)
    (env : MapEnv) (vm : Vm cfg) : Outcome (Vm cfg) :=
  if vmBoMapArgs cfg bv.bo.size saddr offset size then
    match vm.iterFirst (mapFirst saddr) (mapLast saddr size) with
    | some _ => .ret vm (some .EINVAL)
    | none =>
      if env.mappingAlloc then
        vmBoMapInsert i bv (vm.newMapping saddr offset size flags) env vm
      else .ret vm (some .ENOMEM)
  else .ret vm (some .EINVAL)

/-! ## `amdgpu_vm_bo_unmap` and `amdgpu_vm_bo_rmv` -/

/-- `amdgpu_vm_bo_unmap`: a mapping with page table entries goes to the freed list, one without
is freed. -/
def vmBoUnmap (i : ℕ) (bv : BoVa) (saddr : BitVec 64) (vm : Vm cfg) : Outcome (Vm cfg) :=
  match bv.valids.find? (fun m => m.start = mapFirst saddr) with
  | some m =>
    .ret { vm.setBoVa i { bv with valids := bv.valids.erase m } with
      va := vm.va.erase m, freed := m :: vm.freed } none
  | none =>
    match bv.invalids.find? (fun m => m.start = mapFirst saddr) with
    | some m =>
      .ret { vm.setBoVa i { bv with invalids := bv.invalids.erase m } with
        va := vm.va.erase m } none
    | none => .ret vm (some .ENOENT)

/-- `amdgpu_vm_bo_rmv` -/
def vmBoRmv (i : ℕ) (bv : BoVa) (vm : Vm cfg) : Vm cfg :=
  { vm with
    boList := Function.update vm.boList bv.bo.id ((vm.boList bv.bo.id).erase i)
    invalidated := vm.invalidated.erase i
    cleared := vm.cleared.erase i
    va := (vm.va.diff bv.valids).diff bv.invalids
    -- one `list_add` after the other
    freed := bv.valids.reverse ++ vm.freed
    boVas := Function.update vm.boVas i none }

/-! ## `amdgpu_vm_bo_update` and `amdgpu_vm_bo_invalidate` -/

/-- The pages behind a buffer object, `ttm_tt` and `amdgpu_ttm_tt`. -/
structure TtmTt where
  /-- `caching_state == tt_cached` -/
  cached : Bool
  /-- `userflags & AMDGPU_GEM_USERPTR_READONLY` -/
  readonly : Bool
  /-- `!list_empty(&gtt->list)` -/
  bound : Bool
  dmaAddress : ℕ → BitVec 64

/-- Where a buffer object lies at the time of a call. A buffer object in GTT memory has pages. -/
structure BoPlace where
  mem : MemReg
  ttm : Option TtmTt
  /-- `adev == amdgpu_ttm_adev(bo_va->bo->tbo.bdev)` -/
  sameDevice : Bool
  isSome_of_tt : mem.memType = .tt → ttm.isSome

/-- `amdgpu_ttm_is_bound` -/
def ttmIsBound (ttm : Option TtmTt) : Bool := ttm.any (·.bound)

/-- `amdgpu_ttm_tt_is_readonly` -/
def ttmTtIsReadonly (ttm : Option TtmTt) : Bool := ttm.any (·.readonly)

/-- `amdgpu_ttm_tt_pte_flags` -/
def ttmTtPteFlags (dev : VmDevice) (ttm : Option TtmTt) (mem : Option MemReg) : BitVec 32 :=
  let flags := if mem.any (·.memType ≠ .system) then pteValid else 0
  let flags := if mem.any (·.memType = .tt) then
      flags ||| pteSystem ||| if ttm.any (·.cached) then pteSnooped else 0
    else flags
  let flags := if mem.any (·.memType = .dgmaImport) then flags ||| pteSystem else flags
  let flags := if dev.tonga then flags ||| pteExecutable else flags
  let flags := flags ||| pteReadable
  if ttmTtIsReadonly ttm then flags else flags ||| pteWriteable

/-- The `pages_addr` of an update that does not clear. -/
def BoPlace.pagesAddr (pl : BoPlace) : Option (ℕ → BitVec 64) :=
  match pl.mem.memType with
  | .tt => pl.ttm.map (·.dmaAddress)
  | .dgmaImport => some pl.mem.busBase
  | _ => none

/-- The loop of `amdgpu_vm_bo_update` over the mappings, until one update fails. -/
def updateMappings (dev : VmDevice) (tables : ℕ → Option PtBo) (gttFlags : BitVec 32)
    (pagesAddr : Option (ℕ → BitVec 64)) (flags : BitVec 32) (mem : Option MemReg) :
    List Mapping → (ℕ → ℕ → UpdateEnv cfg) → PtStore → Outcome PtStore
  | [], _, st => .ret st none
  | m :: ms, envs, st =>
    match vmBoSplitMapping dev tables gttFlags pagesAddr m flags mem (envs 0) st with
    | .ret st' none =>
      updateMappings dev tables gttFlags pagesAddr flags mem ms (fun k => envs (k + 1)) st'
    | o => o

/-- The `bo_va` after `list_splice_init(&bo_va->valids, &bo_va->invalids)`, which happens if it
is on a status list. -/
def spliceInvalid (vm : Vm cfg) (i : ℕ) (bv : BoVa) : BoVa :=
  if vm.OnStatusList i then { bv with valids := [], invalids := bv.valids ++ bv.invalids }
  else bv

/-- The page table part of `amdgpu_vm_bo_update`. -/
def vmBoUpdatePts (dev : VmDevice) (bv : BoVa) (pl : BoPlace) (clear : Bool)
    (envs : ℕ → ℕ → UpdateEnv cfg) (tables : ℕ → Option PtBo) (st : PtStore) :
    Outcome PtStore :=
  let mem := if clear then none else some pl.mem
  let pagesAddr := if clear then none else pl.pagesAddr
  let flags := ttmTtPteFlags dev pl.ttm mem
  let gttFlags := if ttmIsBound pl.ttm && pl.sameDevice then flags else 0
  updateMappings dev tables gttFlags pagesAddr flags mem bv.invalids envs st

/-- `amdgpu_vm_bo_update` -/
def vmBoUpdate (dev : VmDevice) (i : ℕ) (bv : BoVa) (pl : BoPlace) (clear : Bool)
    (envs : ℕ → ℕ → UpdateEnv cfg) (vm : Vm cfg) : Outcome (Vm cfg) :=
  let bv := spliceInvalid vm i bv
  let vm := vm.setBoVa i bv
  match vmBoUpdatePts dev bv pl clear envs vm.tables vm.pts with
  | .ret pts none =>
    .ret { vm.setBoVa i { bv with valids := bv.invalids ++ bv.valids, invalids := [] } with
      pts := pts
      invalidated := vm.invalidated.erase i
      cleared := if clear then i :: vm.cleared.erase i else vm.cleared.erase i } none
  | .ret pts (some e) => .ret { vm with pts := pts } (some e)
  | .bug pts => .bug { vm with pts := pts }

/-- The loop of `amdgpu_vm_bo_invalidate` over the `bo_va`s of the buffer object. -/
def invalidateAll : List ℕ → Vm cfg → Vm cfg
  | [], vm => vm
  | i :: is, vm =>
    invalidateAll is
      (if vm.OnStatusList i then vm else { vm with invalidated := i :: vm.invalidated })

/-- `amdgpu_vm_bo_invalidate` -/
def vmBoInvalidate (bo : ℕ) (vm : Vm cfg) : Vm cfg := invalidateAll (vm.boList bo) vm

/-! ## `amdgpu_vm_clear_freed` and `amdgpu_vm_clear_invalids` -/

/-- The loop of `amdgpu_vm_clear_freed`: take a mapping off the list, clear its entries, free
it, and stop if the clearing failed. -/
def clearFreedLoop (dev : VmDevice) :
    List Mapping → (ℕ → ℕ → UpdateEnv cfg) → Vm cfg → Outcome (Vm cfg)
  | [], _, vm => .ret vm none
  | m :: ms, envs, vm =>
    match vmBoSplitMapping dev vm.tables 0 none m 0 none (envs 0) vm.pts with
    | .ret pts none =>
      clearFreedLoop dev ms (fun k => envs (k + 1)) { vm with pts := pts, freed := ms }
    | .ret pts (some e) => .ret { vm with pts := pts, freed := ms } (some e)
    | .bug pts => .bug { vm with pts := pts, freed := ms }

/-- `amdgpu_vm_clear_freed` -/
def vmClearFreed (dev : VmDevice) (envs : ℕ → ℕ → UpdateEnv cfg) (vm : Vm cfg) :
    Outcome (Vm cfg) :=
  clearFreedLoop dev vm.freed envs vm

/-- The loop of `amdgpu_vm_clear_invalids`. A successful update takes its `bo_va` off the list,
so the length of the list is enough fuel. -/
def clearInvalidsLoop (dev : VmDevice) (places : ℕ → BoPlace) :
    ℕ → (ℕ → ℕ → ℕ → UpdateEnv cfg) → Vm cfg → Outcome (Vm cfg)
  | 0, _, vm => .ret vm none
  | fuel + 1, envs, vm =>
    match vm.invalidated with
    | [] => .ret vm none
    | i :: _ =>
      match vm.boVas i with
      | none => .bug vm
      | some bv =>
        match vmBoUpdate dev i bv (places i) true (envs 0) vm with
        | .ret vm' none => clearInvalidsLoop dev places fuel (fun k => envs (k + 1)) vm'
        | o => o

/-- `amdgpu_vm_clear_invalids`; `syncFence` is the result of `amdgpu_sync_fence`. -/
def vmClearInvalids (dev : VmDevice) (places : ℕ → BoPlace)
    (envs : ℕ → ℕ → ℕ → UpdateEnv cfg) (syncFence : Option Errno) (vm : Vm cfg) :
    Outcome (Vm cfg) :=
  match clearInvalidsLoop dev places vm.invalidated.length envs vm with
  | .ret vm' none => .ret vm' (if vm.invalidated = [] then none else syncFence)
  | o => o

/-! ## Calls and steps -/

/-- A call on a VM, with its arguments and with what the rest of the kernel answers. -/
inductive VmCall (cfg : VmConfig)
  | add (bo : Bo) (alloc : Bool)
  | map (i : ℕ) (saddr offset size : BitVec 64) (flags : BitVec 32) (env : MapEnv)
  | unmap (i : ℕ) (saddr : BitVec 64)
  | rmv (i : ℕ)
  | update (i : ℕ) (pl : BoPlace) (clear : Bool) (envs : ℕ → ℕ → UpdateEnv cfg)
  | invalidate (bo : ℕ)
  | clearFreed (envs : ℕ → ℕ → UpdateEnv cfg)
  | clearInvalids (places : ℕ → BoPlace) (envs : ℕ → ℕ → ℕ → UpdateEnv cfg)
      (syncFence : Option Errno)

/-- The outcome of a call. `none`: there is no such `bo_va`, so that no caller can make the
call. -/
def VmCall.run (dev : VmDevice) (vm : Vm cfg) : VmCall cfg → Option (Outcome (Vm cfg))
  | add bo alloc => some (.ret (vmBoAdd bo alloc vm) none)
  | map i saddr offset size flags env =>
    (vm.boVas i).map fun bv => vmBoMap i bv saddr offset size flags env vm
  | unmap i saddr => (vm.boVas i).map fun bv => vmBoUnmap i bv saddr vm
  | rmv i => (vm.boVas i).map fun bv => .ret (vmBoRmv i bv vm) none
  | update i pl clear envs => (vm.boVas i).map fun bv => vmBoUpdate dev i bv pl clear envs vm
  | invalidate bo => some (.ret (vmBoInvalidate bo vm) none)
  | clearFreed envs => some (vmClearFreed dev envs vm)
  | clearInvalids places envs syncFence => some (vmClearInvalids dev places envs syncFence vm)

/-- `vm'` is the VM after a call on `vm` that returned `r`. -/
def VmReturns (dev : VmDevice) (vm : Vm cfg) (c : VmCall cfg) (vm' : Vm cfg)
    (r : Option Errno) : Prop :=
  c.run dev vm = some (.ret vm' r)

/-- The step relation: a call that returns. -/
def VmStep (dev : VmDevice) (vm : Vm cfg) (c : VmCall cfg) (vm' : Vm cfg) : Prop :=
  ∃ r, VmReturns dev vm c vm' r

end Amdgpu
