import AmdgpuPro.Ctx
import AmdgpuPro.Lib.Ledger
import AmdgpuPro.Sync

set_option autoImplicit false

/-!
# Command submission

`amdgpu_cs_ioctl` collects what a job needs in a parser, step by step: the context, the chunks the
user has passed, the list of buffer objects, the fences to wait for. Each step can fail, and
`amdgpu_cs_parser_fini` gives back what the parser has.

## Main definitions

* `Amdgpu.CsEnv`, `CsIn` — what the user passes, and what the rest of the kernel answers.
* `CsRes`, `CsParser` — the resources of a call, and the parser with its ledger.
* `csParserInit`, `csParserBos`, `csIbFill`, `csDependencies`, `csSubmit`, `csParserFini` — the
  steps.
* `csIoctl` — the call.

## Design

The ledger names resources by where they are acquired, so that every resource is acquired once. An
access through a pointer that is `NULL` or was never set ends the call without a return. The
memory of the chunk array keeps its contents after it was freed.

Reserving, validating and mapping buffer objects, and filling the IBs, do not touch the resources
of the ledger; their results are part of the environment. The references of fences in the `sync` of
a job belong to the job and are counted. The reference that a slot of the context gets of the fence
of the new job is handed over at once.
-/

namespace Amdgpu

/-! ## Input -/

/-- `drm_amdgpu_cs_in` -/
structure CsIn where
  ctxId : BitVec 32
  boListHandle : BitVec 32
  numChunks : BitVec 32

/-- `AMDGPU_CHUNK_ID_*` -/
inductive ChunkId
  | ib | fence | dependencies
  deriving DecidableEq

/-- The kind of a chunk by its number. -/
def ChunkId.ofNum (n : BitVec 32) : Option ChunkId :=
  if n = 1 then some .ib else if n = 2 then some .fence else if n = 3 then some .dependencies
  else none

/-- A buffer object that is named as the place of a user fence: its size, and whether its pages
are those of a user. -/
structure UfBo where
  size : ℕ
  usermm : Bool

/-- What the user passes, and what the rest of the kernel answers. -/
structure CsEnv where
  accelWorking : Bool
  rings : Rings
  /-- UVD and VCE rings -/
  multimedia : ℕ → Bool
  schedJobs : BitVec 64
  ctxHandles : BitVec 32 → Option ℕ
  ctxRings : ℕ → ℕ → CtxRing ℕ
  /-- memory for the copy of the array of pointers, and the copy -/
  chunkArray : Bool
  copyChunkArray : Bool
  /-- memory for the chunks -/
  chunks : Bool
  /-- the number and length of a chunk, if it can be copied -/
  header : ℕ → Option (BitVec 32 × BitVec 32)
  /-- memory for the data of a chunk, and the data as double words, if it can be copied; behind the
  end of a chunk there is anything -/
  kdata : ℕ → Bool
  data : ℕ → Option (ℕ → BitVec 32)
  gemObjects : BitVec 32 → Option UfBo
  jobAlloc : Bool
  /-- the lists of buffer objects, and whether GDS, GWS or OA memory is on a list -/
  boLists : BitVec 32 → Option Bool
  reserve : Option Errno
  validate : Option Errno
  ttmBind : Option Errno
  ufGpuOffset : BitVec 64
  /-- the mapping of the `j`th IB -/
  ibGet : ℕ → Option Errno
  /-- adding the fence of a dependency to the `sync` of the job -/
  depSync : ℕ → ℕ → SyncEnd
  /-- the semaphores that wait for the submission -/
  sems : List SyncEnd
  /-- the fences `amdgpu_cs_ib_vm_chunk` adds, and its result -/
  vmSync : List SyncEnd
  vmChunk : Option Errno
  schedJobInit : Option Errno
  gpuReset : Option Errno

/-! ## The parser -/

/-- The resources of a call: buffers, and references of objects. The number of a chunk, and of a
dependency in a chunk, says where a resource was acquired. -/
inductive CsRes
  | chunkArray
  | chunks
  | kdata (i : ℕ)
  | ctx
  | boList
  /-- the GEM object of a user fence, and its buffer object -/
  | gem (i : ℕ)
  | ufBo (i : ℕ)
  | depCtx (i j : ℕ)
  | depFence (i j : ℕ)
  /-- the fences in the `sync` of the job -/
  | sync
  | fence
  deriving DecidableEq

/-- `amdgpu_cs_chunk`; `kdata` may be `NULL`. -/
structure CsChunk where
  chunkId : BitVec 32
  lengthDw : BitVec 32
  kdata : Option (ℕ → BitVec 32)

/-- `amdgpu_job`; `sync` counts the references of fences in `sync`. -/
structure CsJob where
  numIbs : ℕ
  ufAddr : BitVec 64
  ring : Option ℕ
  sync : ℕ

/-- `amdgpu_cs_parser`. The user fence is named by the chunk that asked for it. -/
structure CsParser where
  ctx : Option ℕ
  nchunks : ℕ
  chunks : Option (List CsChunk)
  job : Option CsJob
  boList : Option Bool
  ufRobj : Option ℕ
  fence : Bool
  held : Ledger CsRes

namespace CsParser

/-- `struct amdgpu_cs_parser parser = {}` -/
def init : CsParser := ⟨none, 0, none, none, none, none, false, .empty⟩

/-- A resource is acquired. -/
def acquire (p : CsParser) (k : CsRes) : CsParser := { p with held := p.held.acquire k }

/-- A resource is released, or handed over. -/
def release (p : CsParser) (k : CsRes) : CsParser := { p with held := p.held.release k }

/-- Several resources are released, or handed over. -/
def releaseAll (p : CsParser) (ks : List CsRes) : CsParser :=
  { p with held := p.held.releaseAll ks }

/-- A resource is released if a pointer to it is not `NULL`. -/
def releaseIf (p : CsParser) (c : Bool) (k : CsRes) : CsParser :=
  p.releaseAll (if c then [k] else [])

/-- The next entry of `chunks` is written. -/
def addChunk (p : CsParser) (chunk : CsChunk) : CsParser :=
  { p with chunks := p.chunks.map (· ++ [chunk]) }

end CsParser

/-! ## `amdgpu_cs_parser_init` -/

/-- `amdgpu_cs_user_fence_chunk` for chunk `i`. -/
def csUserFenceChunk (env : CsEnv) (i : ℕ) (data : ℕ → BitVec 32) (p : CsParser) :
    CsParser × Except Errno (BitVec 32) :=
  match env.gemObjects (data 0) with
  | none => (p, .error .EINVAL)
  | some bo =>
    let p := { (p.acquire (.gem i)).acquire (.ufBo i) with ufRobj := some i }
    if bo.size ≠ 4096 ∨ bo.size < (data 1 + 8).toNat then (p, .error .EINVAL)
    else
      let p := p.release (.gem i)
      if bo.usermm then ({ p.release (.ufBo i) with ufRobj := none }, .error .EINVAL)
      else (p, .ok (data 1))

/-- The local variables `num_ibs` and `uf_offset`. -/
structure InitLocals where
  numIbs : ℕ
  ufOffset : BitVec 32

/-- One round of the loop over the chunks. An error comes with the number of chunks the data of
which is freed. -/
def csInitChunk (env : CsEnv) (i : ℕ) (st : InitLocals) (p : CsParser) :
    CsParser × Except (Errno × ℕ) InitLocals :=
  match env.header i with
  | none => (p, .error (.EFAULT, i))
  | some (chunkId, lengthDw) =>
    if !env.kdata i then (p.addChunk ⟨chunkId, lengthDw, none⟩, .error (.ENOMEM, i))
    else
      let p := p.acquire (.kdata i)
      match env.data i with
      | none => (p.addChunk ⟨chunkId, lengthDw, some fun _ => 0⟩, .error (.EFAULT, i + 1))
      | some data =>
        let p := p.addChunk ⟨chunkId, lengthDw, some data⟩
        match ChunkId.ofNum chunkId with
        | some .ib => (p, .ok { st with numIbs := st.numIbs + 1 })
        | some .fence =>
          if lengthDw.toNat * 4 < 8 then (p, .error (.EINVAL, i + 1))
          else
            match csUserFenceChunk env i data p with
            | (p, .error e) => (p, .error (e, i + 1))
            | (p, .ok offset) => (p, .ok { st with ufOffset := offset })
        | some .dependencies => (p, .ok st)
        | none => (p, .error (.EINVAL, i + 1))

/-- The loop over `n` chunks from chunk `i` on. -/
def csInitChunks (env : CsEnv) :
    ℕ → ℕ → InitLocals → CsParser → CsParser × Except (Errno × ℕ) InitLocals
  | 0, _, st, p => (p, .ok st)
  | n + 1, i, st, p =>
    match csInitChunk env i st p with
    | (p, .error e) => (p, .error e)
    | (p, .ok st) => csInitChunks env n (i + 1) st p

/-- From the label `put_ctx` on. -/
def csPutCtx (p : CsParser) : CsParser := (p.release .ctx).release .chunkArray

/-- From the label `free_partial_kdata` on. -/
def csFreePartialKdata (n : ℕ) (p : CsParser) : CsParser :=
  csPutCtx ((p.releaseAll ((List.range n).map .kdata)).release .chunks)

/-- `amdgpu_cs_parser_init` -/
def csParserInit (env : CsEnv) (cs : CsIn) (p : CsParser) : CsParser × Option Errno :=
  let num := cs.numChunks.toNat
  if num = 0 then (p, none)
  else if !env.chunkArray then (p, some .ENOMEM)
  else
    let p := p.acquire .chunkArray
    match env.ctxHandles cs.ctxId with
    | none => (p.release .chunkArray, some .EINVAL)
    | some ctx =>
      let p := { p.acquire .ctx with ctx := some ctx }
      if !env.copyChunkArray then (csPutCtx p, some .EFAULT)
      else
        let p := { p with nchunks := num }
        if !env.chunks then (csPutCtx p, some .ENOMEM)
        else
          let p := { p.acquire .chunks with chunks := some [] }
          match csInitChunks env num 0 ⟨0, 0⟩ p with
          | (p, .error (e, k)) => (csFreePartialKdata k p, some e)
          | (p, .ok st) =>
            if st.numIbs = 0 then (csFreePartialKdata num p, some .EINVAL)
            else if !env.jobAlloc then (csFreePartialKdata num p, some .ENOMEM)
            else
              let ufAddr := if p.ufRobj.isSome then st.ufOffset.setWidth 64 else 0
              ({ p.release .chunkArray with job := some ⟨st.numIbs, ufAddr, none, 0⟩ }, none)

/-! ## Buffer objects and IBs -/

/-- `amdgpu_cs_parser_bos` -/
def csParserBos (env : CsEnv) (cs : CsIn) (p : CsParser) : Outcome CsParser :=
  let boList := env.boLists cs.boListHandle
  let p := { (if boList.isSome then p.acquire .boList else p) with boList := boList }
  match env.reserve with
  | some e => .ret p (some e)
  | none =>
    match env.validate with
    | some e => .ret p (some e)
    | none =>
      -- the job gets the addresses of GDS, GWS and OA memory
      if boList = some true ∧ p.job.isNone then .bug p
      else if p.ufRobj.isNone then .ret p none
      else
        match p.job with
        | none => .bug p
        | some job =>
          .ret { p with job := some { job with ufAddr := job.ufAddr + env.ufGpuOffset } }
            env.ttmBind

/-- The data of a chunk with an IB. -/
def CsChunk.ibData (chunk : CsChunk) : Option (ℕ → BitVec 32) :=
  if ChunkId.ofNum chunk.chunkId = some .ib then chunk.kdata else none

/-- The loop of `amdgpu_cs_ib_fill`: the ring of the job, and the error. -/
def csIbFillLoop (env : CsEnv) (numIbs : ℕ) :
    List CsChunk → ℕ → Option ℕ → Option ℕ × Option Errno
  | [], _, ring => (ring, none)
  | chunk :: chunks, j, ring =>
    if j < numIbs then
      match chunk.ibData with
      | none => csIbFillLoop env numIbs chunks j ring
      | some data =>
        match csGetRing env.rings ⟨data 5, data 6, data 7⟩ with
        | .error e => (ring, some e)
        | .ok r =>
          if ring.isSome ∧ ring ≠ some r then (ring, some .EINVAL)
          else
            match env.ibGet j with
            | some e => (some r, some e)
            | none => csIbFillLoop env numIbs chunks (j + 1) (some r)
    else (ring, none)

/-- `amdgpu_cs_ib_fill` -/
def csIbFill (env : CsEnv) (p : CsParser) : Outcome CsParser :=
  match p.job with
  | none => .bug p
  | some job =>
    let (ring, r) := csIbFillLoop env job.numIbs (p.chunks.getD []) 0 job.ring
    let p := { p with job := some { job with ring := ring } }
    match r with
    | some e => .ret p (some e)
    | none =>
      -- UVD and VCE do not support user fences
      if job.ufAddr = 0 then .ret p none
      else
        match ring with
        | none => .bug p
        | some ring => .ret p (if env.multimedia ring then some .EINVAL else none)

/-! ## Dependencies -/

/-- `amdgpu_sync_fence` for the `sync` of the job. -/
def CsParser.syncFence (p : CsParser) : SyncEnd → CsParser × Option Errno
  | .error e => (p, some e)
  | .added =>
    ({ p.acquire .sync with job := p.job.map fun job => { job with sync := job.sync + 1 } }, none)
  | .kept => (p, none)

/-- Several fences are added, until there is an error. -/
def CsParser.syncFences : List SyncEnd → CsParser → CsParser × Option Errno
  | [], p => (p, none)
  | s :: ss, p =>
    match p.syncFence s with
    | (p, some e) => (p, some e)
    | (p, none) => CsParser.syncFences ss p

/-- `drm_amdgpu_cs_chunk_dep` -/
structure CsDep where
  sel : RingSel
  ctxId : BitVec 32
  handle : BitVec 64

/-- The dependencies of chunk `i`, with their places. -/
def CsChunk.deps (i : ℕ) (chunk : CsChunk) : List (ℕ × ℕ × CsDep) :=
  match ChunkId.ofNum chunk.chunkId, chunk.kdata with
  | some .dependencies, some data =>
    (List.range ((chunk.lengthDw * 4).toNat / 24)).map fun j =>
      (i, j, ⟨⟨data (6 * j), data (6 * j + 1), data (6 * j + 2)⟩, data (6 * j + 3),
        (data (6 * j + 5)) ++ (data (6 * j + 4))⟩)
  | _, _ => []

/-- The dependencies of all chunks, in their order. -/
def csDeps (chunks : List CsChunk) : List (ℕ × ℕ × CsDep) :=
  (chunks.zipIdx.map fun c => c.1.deps c.2).flatten

/-- The loops of `amdgpu_cs_dependencies`. -/
def csDepLoop (env : CsEnv) : List (ℕ × ℕ × CsDep) → CsParser → CsParser × Option Errno
  | [], p => (p, none)
  | (i, j, dep) :: deps, p =>
    match csGetRing env.rings dep.sel with
    | .error e => (p, some e)
    | .ok ring =>
      match env.ctxHandles dep.ctxId with
      | none => (p, some .EINVAL)
      | some ctx =>
        let p := p.acquire (.depCtx i j)
        match ctxGetFence env.schedJobs (env.ctxRings ctx ring) dep.handle with
        | .error e => (p.release (.depCtx i j), some e)
        | .ok none => csDepLoop env deps p
        | .ok (some _) =>
          let res := (p.acquire (.depFence i j)).syncFence (env.depSync i j)
          let p := (res.1.release (.depFence i j)).release (.depCtx i j)
          match res.2 with
          | some e => (p, some e)
          | none => csDepLoop env deps p

/-- `amdgpu_cs_dependencies` -/
def csDependencies (env : CsEnv) (p : CsParser) : CsParser × Option Errno :=
  match csDepLoop env (csDeps (p.chunks.getD [])) p with
  | (p, some e) => (p, some e)
  | (p, none) => p.syncFences env.sems

/-- `amdgpu_cs_ib_vm_chunk` -/
def csIbVmChunk (env : CsEnv) (p : CsParser) : CsParser × Option Errno :=
  match p.syncFences env.vmSync with
  | (p, some e) => (p, some e)
  | (p, none) => (p, env.vmChunk)

/-! ## The end of a submission -/

/-- The references of a job: they are dropped by `amdgpu_job_free`, or go with the job. -/
def CsParser.dropJob (p : CsParser) (job : CsJob) : CsParser :=
  p.releaseAll (List.replicate job.sync .sync)

/-- `amdgpu_cs_submit` -/
def csSubmit (env : CsEnv) (p : CsParser) : Outcome CsParser :=
  match p.job with
  | none => .bug p
  | some job =>
    let p := { p with job := none }
    match env.schedJobInit with
    | some e => .ret (p.dropJob job) (some e)
    | none => .ret { (p.acquire .fence).dropJob job with fence := true } none

/-- The loop of `amdgpu_cs_parser_fini` over `n` chunks from chunk `i` on. -/
def csFiniKdata : ℕ → ℕ → CsParser → Outcome CsParser
  | 0, _, p => .ret p none
  | n + 1, i, p =>
    match p.chunks.bind (·[i]?) with
    | none => .bug p
    | some chunk =>
      csFiniKdata n (i + 1) (if chunk.kdata.isSome then p.release (.kdata i) else p)

/-- The references that `amdgpu_cs_parser_fini` drops before the chunks. -/
def csFiniRefs (p : CsParser) : CsParser :=
  ((p.releaseIf p.fence .fence).releaseIf p.ctx.isSome .ctx).releaseIf p.boList.isSome .boList

/-- What `amdgpu_cs_parser_fini` releases after the data of the chunks. -/
def csFiniRest (p : CsParser) : CsParser :=
  let p := p.releaseIf p.chunks.isSome .chunks
  let p := p.job.elim p p.dropJob
  { p.releaseAll (p.ufRobj.toList.map .ufBo) with ufRobj := none }

/-- `amdgpu_cs_parser_fini` -/
def csParserFini (p : CsParser) : Outcome CsParser :=
  match csFiniKdata p.nchunks 0 (csFiniRefs p) with
  | .bug p => .bug p
  | .ret p _ => .ret (csFiniRest p) none

/-- `amdgpu_cs_handle_lockup` -/
def csHandleLockup (env : CsEnv) (r : Option Errno) : Option Errno :=
  if r = some .EDEADLK then
    match env.gpuReset with
    | none => some .EAGAIN
    | some e => some e
  else r

/-- `amdgpu_cs_parser_fini` and the return from the call. -/
def csOut (env : CsEnv) (p : CsParser) (r : Option Errno) : Outcome CsParser :=
  match csParserFini p with
  | .bug p => .bug p
  | .ret p _ => .ret p (csHandleLockup env r)

/-- The part of the call after the buffer objects were reserved. -/
def csProcess (env : CsEnv) (p : CsParser) : Outcome CsParser :=
  match csIbFill env p with
  | .bug p => .bug p
  | .ret p (some e) => csOut env p (some e)
  | .ret p none =>
    match csDependencies env p with
    | (p, some e) => csOut env p (some e)
    | (p, none) =>
      match csIbVmChunk env p with
      | (p, some e) => csOut env p (some e)
      | (p, none) =>
        match csSubmit env p with
        | .bug p => .bug p
        | .ret p r => csOut env p r

/-- The part of the call after the parser was initialised. -/
def csParsed (env : CsEnv) (cs : CsIn) (p : CsParser) : Outcome CsParser :=
  match csParserBos env cs p with
  | .bug p => .bug p
  | .ret p (some e) => csOut env p (some e)
  | .ret p none => csProcess env p

/-- `amdgpu_cs_ioctl` -/
def csIoctl (env : CsEnv) (cs : CsIn) : Outcome CsParser :=
  if !env.accelWorking then .ret .init (some .EBUSY)
  else
    match csParserInit env cs .init with
    | (p, some e) => csOut env p (some e)
    | (p, none) => csParsed env cs p

end Amdgpu
