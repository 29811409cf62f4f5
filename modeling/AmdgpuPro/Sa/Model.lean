import AmdgpuPro.Sync
import AmdgpuPro.Lib.Transition

set_option autoImplicit false

/-!
# The suballocator

`amdgpu_sa` gives away parts of one buffer object, mainly for indirect buffers. `olist` has the
suballocations by offset, and `hole` is the place in it after which the next one is tried. A
suballocation is freed with a fence: until this has signaled it stays in `olist`, and in one of the
lists `flist`, by the context of the fence.

`amdgpu_sa_bo_new` removes what has signaled after the hole, tries to allocate there, and goes to
the next hole, which is the beginning at the end of the list and else the place of a signaled
suballocation; when there is none it waits and starts again. The manager is locked meanwhile, but
fences signal at any time, also between two tests of one pass over the lists. So one step is here
one test: the loops of the function are steps of the thread that has the lock, and what it knows
is its program counter. A thread that waits has no lock and starts again later, like a new one.

## Main definitions

* `Amdgpu.SaConfig` — a manager; `SaConfig.ringTmpBo` is the one of the driver.
* `SaState.removeLocked`, `SaState.tryFree`, `SaState.tryAlloc`, `SaState.scanList`, `SaState.free`
  — the functions.
* `SaState.step` — the steps of a run.
* `SaState.Safe` — no range is given away twice.
-/

namespace Amdgpu

/-! ## The state -/

/-- A manager; its size and its alignment together fit into an `unsigned`. -/
structure SaConfig where
  size : ℕ
  align : ℕ
  fits : size + align ≤ 2 ^ 32

/-- `AMDGPU_IB_POOL_SIZE` and `AMDGPU_GPU_PAGE_SIZE`: the manager `ring_tmp_bo`, the only one of the
driver. -/
def SaConfig.ringTmpBo : SaConfig := ⟨16 * 64 * 1024, 4096, by decide⟩

/-- `AMDGPU_SA_NUM_FENCE_LISTS` -/
def saNumFenceLists : ℕ := 32

/-- `struct amdgpu_sa_bo`; `id` is its address. -/
structure SaBo where
  id : ℕ
  soffset : ℕ
  eoffset : ℕ
  fence : Option Fence
  deriving DecidableEq

/-- A call of `amdgpu_sa_bo_new`; `bo` is the address of the new `struct amdgpu_sa_bo`. -/
structure SaRequest where
  bo : ℕ
  size : ℕ
  align : ℕ
  align_pos : 0 < align

/-- The local variables of `amdgpu_sa_bo_next_hole`, and `tries`. -/
structure SaScan where
  tries : ℕ → ℕ
  best : ℕ
  bestBo : Option ℕ

/-- Where the thread is that has the lock. -/
inductive SaPc
  | unlocked
  /-- in `amdgpu_sa_bo_try_free` -/
  | tryFree (req : SaRequest) (tries : ℕ → ℕ)
  /-- before `amdgpu_sa_bo_try_alloc` -/
  | tryAlloc (req : SaRequest) (tries : ℕ → ℕ)
  /-- before `amdgpu_sa_bo_next_hole` -/
  | nextHole (req : SaRequest) (tries : ℕ → ℕ)
  /-- in the loop over the fence lists, before list `i` -/
  | scan (req : SaRequest) (i : ℕ) (scan : SaScan)
  /-- a pointer to something that is not there was used -/
  | fault

/-- A range that was given away. This is never forgotten: `released` is how the owner freed it. -/
structure SaGrant where
  bo : ℕ
  soffset : ℕ
  size : ℕ
  align : ℕ
  released : Option (Option Fence)

/-- A manager, the fences, and what was given away. -/
structure SaState where
  olist : List SaBo
  /-- the suballocation before the hole, or the head of the list -/
  hole : Option ℕ
  flist : ℕ → List ℕ
  signaled : Fence → Bool
  pc : SaPc
  grants : List SaGrant

namespace SaState

variable (cfg : SaConfig) (s : SaState)

/-- Follow a pointer. -/
def find (bo : ℕ) : Option SaBo := s.olist.find? fun b => b.id = bo

/-- `olist.prev` of a suballocation: the one before it, or the head. -/
def prev (bo : ℕ) : Option ℕ := (s.olist.takeWhile fun b => b.id ≠ bo).getLast?.map SaBo.id

/-- The number of suballocations up to the hole. -/
def holePos : ℕ :=
  match s.hole with
  | none => 0
  | some bo => (s.olist.findIdx fun b => b.id = bo) + 1

/-- The suballocations after the hole; `hole->next` is the first one, or the head. -/
def afterHole : List SaBo := s.olist.drop s.holePos

/-! ## Freeing -/

/-- `amdgpu_sa_bo_remove_locked` -/
def removeLocked (bo : ℕ) : SaState :=
  { s with
    hole := if s.hole = some bo then s.prev bo else s.hole
    olist := s.olist.filter fun b => b.id ≠ bo
    flist := fun i => (s.flist i).filter fun id => id ≠ bo }

/-- One round of the loop of `amdgpu_sa_bo_try_free`: the first suballocation after the hole is
removed if its fence has signaled, and else the loop ends. -/
def tryFree : Option SaState :=
  match s.afterHole with
  | [] => none
  | b :: _ =>
    match b.fence with
    | none => none
    | some f => if s.signaled f then some (s.removeLocked b.id) else none

/-- The owner has freed a range. -/
def releaseGrant (bo : ℕ) (fence : Option Fence) (g : SaGrant) : SaGrant :=
  if g.bo = bo ∧ g.released = none then { g with released := some fence } else g

/-- `amdgpu_sa_bo_free` -/
def free (bo : ℕ) (fence : Option Fence) : SaState :=
  let s := { s with grants := s.grants.map (releaseGrant bo fence) }
  match fence with
  | some f =>
    if s.signaled f then s.removeLocked bo
    else
      let idx := f.context % saNumFenceLists
      { s with
        olist := s.olist.map fun b => if b.id = bo then { b with fence := some f } else b
        flist := Function.update s.flist idx (s.flist idx ++ [bo]) }
  | none => s.removeLocked bo

/-! ## Allocating -/

/-- `amdgpu_sa_bo_hole_soffset` -/
def holeSoffset : ℕ :=
  match s.hole with
  | none => 0
  | some bo => ((s.find bo).map SaBo.eoffset).getD 0

/-- `amdgpu_sa_bo_hole_eoffset` -/
def holeEoffset : ℕ :=
  match s.afterHole with
  | [] => cfg.size
  | b :: _ => b.soffset

/-- The difference of two values of type `unsigned`. -/
def unsignedSub (a b : ℕ) : ℕ := (a + (2 ^ 32 - b)) % 2 ^ 32

/-- `amdgpu_sa_bo_try_alloc`; the result is missing if there is no room. -/
def tryAlloc (req : SaRequest) : Option SaState :=
  let soffset := s.holeSoffset
  let eoffset := s.holeEoffset cfg
  let wasted := (req.align - soffset % req.align) % req.align
  if (req.size + wasted) % 2 ^ 32 ≤ unsignedSub eoffset soffset then
    let soffset := (soffset + wasted) % 2 ^ 32
    some { s with
      olist := s.olist.take s.holePos ++
        ⟨req.bo, soffset, (soffset + req.size) % 2 ^ 32, none⟩ :: s.afterHole
      hole := some req.bo
      grants := ⟨req.bo, soffset, req.size, req.align, none⟩ :: s.grants }
  else none

/-- One round of the loop of `amdgpu_sa_bo_next_hole`, for the fence list `i`. A pointer to
something that is not there gives no result. -/
def scanList (i : ℕ) (scan : SaScan) : Option SaScan :=
  match s.flist i with
  | [] => some scan
  | bo :: _ =>
    match s.find bo with
    | none => none
    | some b =>
      match b.fence with
      | none => none
      | some f =>
        if !s.signaled f then some scan
        else if 2 < scan.tries i then some scan
        else
          let soffset := s.holeSoffset
          let tmp := if b.soffset < soffset then (b.soffset + cfg.size) % 2 ^ 32 else b.soffset
          let tmp := unsignedSub tmp soffset
          if tmp < scan.best then some { scan with best := tmp, bestBo := some bo } else some scan

/-- The end of `amdgpu_sa_bo_next_hole` with a suballocation that was found: its place is the hole,
and it is removed. -/
def nextHoleAt (req : SaRequest) (scan : SaScan) (bo : ℕ) : SaState :=
  match s.find bo with
  | none => { s with pc := .fault }
  | some b =>
    match b.fence with
    | none => { s with pc := .fault }
    | some f =>
      let idx := f.context % saNumFenceLists
      let tries := Function.update scan.tries idx (scan.tries idx + 1)
      { { s with hole := s.prev bo }.removeLocked bo with pc := .tryFree req tries }

/-- The next step of the thread that has the lock. -/
def run : Option SaState :=
  match s.pc with
  | .unlocked => none
  | .tryFree req tries =>
    match s.tryFree with
    | some t => some t
    | none => some { s with pc := .tryAlloc req tries }
  | .tryAlloc req tries =>
    match s.tryAlloc cfg req with
    | some t => some { t with pc := .unlocked }
    | none => some { s with pc := .nextHole req tries }
  | .nextHole req tries =>
    -- the hole is at the end of the buffer: try again with its beginning
    if s.afterHole = [] then some { s with hole := none, pc := .tryFree req tries }
    else some { s with pc := .scan req 0 ⟨tries, cfg.size * 2 % 2 ^ 32, none⟩ }
  | .scan req i scan =>
    if i < saNumFenceLists then
      match s.scanList cfg i scan with
      | some scan => some { s with pc := .scan req (i + 1) scan }
      | none => some { s with pc := .fault }
    else
      match scan.bestBo with
      | some bo => some (s.nextHoleAt req scan bo)
      -- wait, without the lock
      | none => some { s with pc := .unlocked }
  | .fault => none

end SaState

/-! ## Runs -/

/-- The steps: a fence signals, a thread takes the lock in `amdgpu_sa_bo_new`, goes on with it, or
frees a suballocation. -/
inductive SaOp
  | signal (f : Fence)
  | new (req : SaRequest)
  | run
  | free (bo : ℕ) (fence : Option Fence)

namespace SaState

/-- A new manager. -/
def init : SaState where
  olist := []
  hole := none
  flist := fun _ => []
  signaled := fun _ => false
  pc := .unlocked
  grants := []

/-- One step, if it is possible. The address of a new `struct amdgpu_sa_bo` is not in use, and only
what is owned is freed. -/
def step (cfg : SaConfig) (s : SaState) : SaOp → Option SaState
  | .signal f => some { s with signaled := Function.update s.signaled f true }
  | .new req =>
    match s.pc, s.find req.bo with
    | .unlocked, none =>
      -- `-EINVAL`
      if cfg.align < req.align ∨ cfg.size < req.size then some s
      else some { s with pc := .tryFree req fun _ => 0 }
    | _, _ => none
  | .run => s.run cfg
  | .free bo fence =>
    match s.pc, s.find bo with
    | .unlocked, some b => if b.fence = none then some (s.free bo fence) else none
    | _, _ => none

end SaState

/-! ## What should hold -/

/-- The range may still be used: its owner has it, or has freed it with a fence that has not
signaled. -/
def SaGrant.InUse (s : SaState) (g : SaGrant) : Prop :=
  match g.released with
  | none => True
  | some none => False
  | some (some f) => s.signaled f = false

/-- Ranges that may still be used have nothing in common, so that a range is given away again only
after its owner has freed it without a fence or with one that has signaled. They are aligned as
asked for and inside of the manager, the list is sorted, and the hole is a place in it. -/
structure SaState.Safe (cfg : SaConfig) (s : SaState) : Prop where
  disjoint : s.grants.Pairwise fun g g' => g.InUse s → g'.InUse s →
    g.soffset + g.size ≤ g'.soffset ∨ g'.soffset + g'.size ≤ g.soffset
  aligned : ∀ g ∈ s.grants, g.align ∣ g.soffset
  inside : ∀ g ∈ s.grants, g.soffset + g.size ≤ cfg.size
  sorted : s.olist.Pairwise fun b b' => b.eoffset ≤ b'.soffset
  hole : ∀ bo, s.hole = some bo → ∃ b ∈ s.olist, b.id = bo
  no_fault : s.pc ≠ .fault

end Amdgpu
