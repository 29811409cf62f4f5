import AmdgpuPro.Kernel
import Mathlib.Logic.Function.Basic
import Mathlib.Tactic.SplitIfs

set_option autoImplicit false

/-!
# Contexts and rings

A request names a ring by the type of its IP block, an instance and a number. A context keeps, for
each ring, the fences of the last `amdgpu_sched_jobs` submissions in slots that are used again and
again, and numbers the submissions from `1` on.

## Main definitions

* `Amdgpu.RingSel`, `csGetRing` — how a request names a ring.
* `CtxRing`, `ctxGetFence`, `ctxAddFence` — the fences of a context on a ring.
-/

namespace Amdgpu

/-! ## Rings -/

/-- `AMDGPU_HW_IP_*` -/
inductive HwIp
  | gfx | compute | dma | uvd | vce
  deriving DecidableEq

/-- The IP block with a number. -/
def HwIp.ofNum (n : BitVec 32) : Option HwIp :=
  if n = 0 then some .gfx
  else if n = 1 then some .compute
  else if n = 2 then some .dma
  else if n = 3 then some .uvd
  else if n = 4 then some .vce
  else none

/-- How a request names a ring. -/
structure RingSel where
  ipType : BitVec 32
  ipInstance : BitVec 32
  ring : BitVec 32

/-- The rings of a device, and their numbers (`ring->idx`). -/
structure Rings where
  numGfxRings : ℕ
  numComputeRings : ℕ
  numSdmaInstances : ℕ
  idx : HwIp → ℕ → ℕ

/-- `amdgpu_cs_get_ring`: the number of the ring. -/
def csGetRing (rings : Rings) (sel : RingSel) : Except Errno ℕ :=
  if sel.ipInstance ≠ 0 then .error .EINVAL
  else
    let ring := sel.ring.toNat
    match HwIp.ofNum sel.ipType with
    | none => .error .EINVAL
    | some .gfx => if ring < rings.numGfxRings then .ok (rings.idx .gfx ring) else .error .EINVAL
    | some .compute =>
      if ring < rings.numComputeRings then .ok (rings.idx .compute ring) else .error .EINVAL
    | some .dma =>
      if ring < rings.numSdmaInstances then .ok (rings.idx .dma ring) else .error .EINVAL
    | some .uvd => .ok (rings.idx .uvd 0)
    | some .vce => if ring < 2 then .ok (rings.idx .vce ring) else .error .EINVAL

/-! ## Fences of a context -/

variable {F : Type*}

/-- `amdgpu_ctx_ring`: the number of the next submission, and the slots. -/
structure CtxRing (F : Type*) where
  sequence : BitVec 64
  fences : ℕ → Option F

/-- The state after `amdgpu_ctx_init`. -/
def CtxRing.init : CtxRing F := ⟨1, fun _ => none⟩

/-- The slot of a submission. -/
def ctxSlot (schedJobs : BitVec 64) (seq : BitVec 64) : ℕ := (seq &&& (schedJobs - 1)).toNat

/-- `amdgpu_ctx_get_fence`; `none` for `NULL`. -/
def ctxGetFence (schedJobs : BitVec 64) (cring : CtxRing F) (seq : BitVec 64) :
    Except Errno (Option F) :=
  if cring.sequence ≤ seq then .error .EINVAL
  else if seq + schedJobs < cring.sequence then .ok none
  else .ok (cring.fences (ctxSlot schedJobs seq))

/-- `amdgpu_ctx_add_fence`: the fences with the new one, and the fence that stood in its slot, the
reference of which is dropped. -/
def ctxAddFence (schedJobs : BitVec 64) (cring : CtxRing F) (fence : F) : CtxRing F × Option F :=
  let idx := ctxSlot schedJobs cring.sequence
  (⟨cring.sequence + 1, Function.update cring.fences idx (some fence)⟩, cring.fences idx)

end Amdgpu
