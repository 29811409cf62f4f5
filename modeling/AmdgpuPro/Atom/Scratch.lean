import AmdgpuPro.Kernel
import AmdgpuPro.Lib.Transition
import Mathlib.Tactic

set_option autoImplicit false

/-!
# The scratch memory of the ATOM interpreter

The bytecode of the video BIOS can read and write a scratch memory through a window, whose base it
sets itself. An operand of the interpreter is an index of a dword behind the base. The interpreter
checks the address of the dword, computed in 32 bits, against the size of the memory, but lets an
address pass that is equal to the size.

## Main definitions

* `Amdgpu.AtomFb.step` — the bytecode moves the window, or an operand is read or written.
* `AtomFb.Inside` — all dwords that were accessed lie inside of the memory.

## Main results

* `Amdgpu.atomFb_inside_iff` — when all runs of the bytecode stay inside of the memory.
* `atomFb_outside` — the dword behind the memory is read.

## Design

Of the interpreter only what it does with the window and the scratch memory is modelled: the
operands of kind `ATOM_ARG_FB` of `atom_get_src_int` and `atom_put_dst`, and what sets `fb_base`.
The dwords from the address of the memory on are a function, of which those that were accessed are
remembered.
-/

namespace Amdgpu

open Transition

/-- `amdgpu_atom_allocate_fb_scratch`: the size of the memory, with `usFirmwareUseInKb` if the BIOS
has the table, and whether `kzalloc` has memory -/
def atomAllocateFbScratch (useInKb : Option (BitVec 16)) (kzalloc : Bool) : Except Errno ℕ :=
  let usageBytes := match useInKb with
    | some kb => kb.toNat * 1024
    | none => 0
  let usageBytes := if usageBytes = 0 then 20 * 1024 else usageBytes
  if kzalloc then .ok usageBytes else .error .ENOMEM

/-- The window and the scratch memory. -/
structure AtomFb where
  fbBase : BitVec 32
  scratch : ℕ → BitVec 32
  /-- the dwords that were read or written -/
  touched : List ℕ

/-- What the bytecode does. -/
inductive AtomFbOp
  /-- `amdgpu_atom_execute_table` starts -/
  | execute
  /-- `atom_op_setfbbase`, or `ATOM_WS_FB_WINDOW` of `atom_put_dst` -/
  | window (value : BitVec 32)
  /-- `ATOM_ARG_FB` of `atom_get_src_int` -/
  | read (idx : BitVec 8)
  /-- `ATOM_ARG_FB` of `atom_put_dst` -/
  | write (idx : BitVec 8) (value : BitVec 32)

namespace AtomFb

/-- The memory after `kzalloc`. -/
def init : AtomFb := ⟨0, fun _ => 0, []⟩

/-- `(fb_base + (idx * 4)) > scratch_size_bytes`, in 32 bits -/
def beyond (size : ℕ) (s : AtomFb) (idx : BitVec 8) : Bool :=
  BitVec.ofNat 32 size < s.fbBase + idx.setWidth 32 * 4

/-- `(fb_base / 4) + idx` -/
def dword (s : AtomFb) (idx : BitVec 8) : ℕ := s.fbBase.toNat / 4 + idx.toNat

/-- An operand of `atom_get_src_int`: the value, and the state -/
def getSrc (size : ℕ) (s : AtomFb) (idx : BitVec 8) : BitVec 32 × AtomFb :=
  if s.beyond size idx then (0, s)
  else (s.scratch (s.dword idx), { s with touched := s.dword idx :: s.touched })

/-- An operand of `atom_put_dst` -/
def putDst (size : ℕ) (s : AtomFb) (idx : BitVec 8) (value : BitVec 32) : AtomFb :=
  if s.beyond size idx then s
  else { s with
    scratch := Function.update s.scratch (s.dword idx) value
    touched := s.dword idx :: s.touched }

/-- One step of the bytecode. -/
def step (size : ℕ) (s : AtomFb) : AtomFbOp → Option AtomFb
  | .execute => some { s with fbBase := 0 }
  | .window value => some { s with fbBase := value }
  | .read idx => some (s.getSrc size idx).2
  | .write idx value => some (s.putDst size idx value)

/-- The dwords that were accessed lie inside of the memory. -/
def Inside (size : ℕ) (s : AtomFb) : Prop := ∀ i ∈ s.touched, 4 * i + 4 ≤ size

/-- The address of an operand fits in 32 bits and is not the end of the memory. -/
def Addressed (size : ℕ) (s : AtomFb) (idx : BitVec 8) : Prop :=
  s.fbBase.toNat + 4 * idx.toNat < 2 ^ 32 ∧ s.fbBase.toNat + 4 * idx.toNat ≠ size

/-- The operand of a step, if it has one, is `Addressed`. -/
def Before (size : ℕ) (s : AtomFb) : AtomFbOp → Prop
  | .read idx => s.Addressed size idx
  | .write idx _ => s.Addressed size idx
  | _ => True

variable {size : ℕ} {s s' : AtomFb}

/-- The dword of an operand lies inside of the memory if it starts before its end. -/
theorem dword_inside_iff (hsize : 4 ∣ size) (idx : BitVec 8) :
    4 * s.dword idx + 4 ≤ size ↔ s.fbBase.toNat + 4 * idx.toNat < size := by
  obtain ⟨n, rfl⟩ := hsize
  rw [dword]
  omega

/-- What the check of an operand lets pass starts before the end of the memory, if and only if the
operand is `Addressed`.

**Proof sketch.** An address that wraps around is below 1024, so it passes, and the dword lies far
behind the memory. An address that does not wrap around passes up to the end of the memory, which
is the only one of them that is not before the end. -/
theorem addressed_iff (hlow : 1024 ≤ size) (hhigh : size < 2 ^ 32) (idx : BitVec 8) :
    s.Addressed size idx ↔
      (s.beyond size idx = false → s.fbBase.toNat + 4 * idx.toNat < size) := by
  have hidx := idx.isLt
  have hbase := s.fbBase.isLt
  have hmul : (idx.setWidth 32 * 4).toNat = 4 * idx.toNat := by
    rw [BitVec.toNat_mul, BitVec.toNat_setWidth, show (4 : BitVec 32).toNat = 4 from rfl]
    omega
  have hbeyond : s.beyond size idx = false ↔
      (s.fbBase.toNat + 4 * idx.toNat) % 2 ^ 32 ≤ size := by
    rw [beyond, decide_eq_false_iff_not, BitVec.lt_def, BitVec.toNat_add, hmul,
      BitVec.toNat_ofNat, Nat.mod_eq_of_lt hhigh, not_lt]
  rw [hbeyond, Addressed]
  omega

/-- An operand is accessed if it passes the check. -/
theorem Inside.access (hsize : 4 ∣ size) (hlow : 1024 ≤ size) (hhigh : size < 2 ^ 32)
    (h : s.Inside size) {idx : BitVec 8}
    (hs' : s'.touched = if s.beyond size idx then s.touched else s.dword idx :: s.touched) :
    s.Addressed size idx ↔ s'.Inside size := by
  rw [addressed_iff hlow hhigh]
  cases hbeyond : s.beyond size idx with
  | true =>
    have hsame : s'.touched = s.touched := by simpa [hbeyond] using hs'
    exact iff_of_true (fun hpass => by cases hpass) fun i hi => h i (hsame ▸ hi)
  | false =>
    have hnew : s'.touched = s.dword idx :: s.touched := by simpa [hbeyond] using hs'
    rw [Inside, hnew, List.forall_mem_cons, dword_inside_iff hsize, imp_iff_right rfl]
    exact (and_iff_left h).symm

/-- **One step**: the accesses stay inside if and only if the operand is `Addressed`. -/
theorem Inside.step (hsize : 4 ∣ size) (hlow : 1024 ≤ size) (hhigh : size < 2 ^ 32) {op : AtomFbOp}
    (h : s.Inside size) (hs : s.step size op = some s') :
    (s.Before size op → s'.Inside size) ∧ (s'.Inside size → s.Before size op) := by
  cases op with
  | execute => exact Option.some.inj hs ▸ ⟨fun _ => h, fun _ => trivial⟩
  | window value => exact Option.some.inj hs ▸ ⟨fun _ => h, fun _ => trivial⟩
  | read idx =>
    have hiff : s.Before size (.read idx) ↔ s'.Inside size := by
      refine h.access hsize hlow hhigh ?_
      rw [← Option.some.inj hs, getSrc]
      split_ifs <;> rfl
    exact ⟨hiff.mp, hiff.mpr⟩
  | write idx value =>
    have hiff : s.Before size (.write idx value) ↔ s'.Inside size := by
      refine h.access hsize hlow hhigh ?_
      rw [← Option.some.inj hs, putDst]
      split_ifs <;> rfl
    exact ⟨hiff.mp, hiff.mpr⟩

end AtomFb

/-- The size is a multiple of a kilobyte, and fits in 32 bits. -/
theorem atomAllocateFbScratch_size {useInKb : Option (BitVec 16)} {kzalloc : Bool} {size : ℕ}
    (h : atomAllocateFbScratch useInKb kzalloc = .ok size) :
    4 ∣ size ∧ 1024 ≤ size ∧ size < 2 ^ 32 := by
  simp only [atomAllocateFbScratch] at h
  split_ifs at h with _ hzero
  · obtain rfl := Except.ok.inj h
    decide
  · obtain rfl := Except.ok.inj h
    cases useInKb with
    | none => simp at hzero
    | some kb =>
      have hkb := kb.isLt
      simp only at hzero ⊢
      omega

/-- **The scratch memory**: in a run of the bytecode, all dwords that are accessed lie inside of the
memory all the time, if and only if the address of every operand, before it is accessed, fits in 32
bits and is not the end of the memory. -/
theorem atomFb_inside_iff {useInKb : Option (BitVec 16)} {kzalloc : Bool} {size : ℕ}
    (halloc : atomAllocateFbScratch useInKb kzalloc = .ok size) {ops : List AtomFbOp} {s : AtomFb}
    (hrun : Run (fun s op s' => AtomFb.step size s op = some s') .init ops s) :
    (∀ ops₁ ops₂ u, ops = ops₁ ++ ops₂ →
        Run (fun s op s' => AtomFb.step size s op = some s') .init ops₁ u → u.Inside size) ↔
      Run (Guarded (fun s op s' => AtomFb.step size s op = some s') (AtomFb.Before size))
        .init ops s := by
  obtain ⟨hdvd, hlow, hhigh⟩ := atomAllocateFbScratch_size halloc
  exact hrun.forall_states_iff (AtomFb.Inside size) (AtomFb.Inside size) (fun _ h => h)
    (fun _ _ _ h hstep => h.step hdvd hlow hhigh hstep) fun _ h => absurd h List.not_mem_nil

/-- The last dword of 20 KiB. -/
theorem atomFb_inside_iff_last : ∃ s : AtomFb, s.touched = [5119] ∧ s.Inside 20480 := by
  have hguarded : ∃ s : AtomFb, s.touched = [5119] ∧
      Run (Guarded (fun s op s' => AtomFb.step 20480 s op = some s') (AtomFb.Before 20480)) .init
        [.window 20472, .read 1] s :=
    ⟨_, by decide, .cons ⟨rfl, trivial⟩ (.single ⟨rfl, by decide, by decide⟩)⟩
  obtain ⟨s, hs, hguarded⟩ := hguarded
  have hrun := hguarded.mono fun _ _ _ h => h.1
  have halloc : atomAllocateFbScratch none true = .ok 20480 := rfl
  exact ⟨s, hs, (atomFb_inside_iff halloc hrun).mpr hguarded _ [] s (by simp) hrun⟩

/-- **The window is moved to the end of the memory**: the dword behind it passes the check. So does
a dword far behind it, when the address in 32 bits wraps around. -/
theorem atomFb_outside : ∃ s : AtomFb, s.touched = [0x40000000, 5120] ∧ ¬ s.Inside 20480 ∧
    Run (fun s op s' => AtomFb.step 20480 s op = some s') .init
      [.window 20480, .read 0, .window 0xFFFFFFFC, .write 1 7] s := by
  refine ⟨_, ?_, ?_, .cons rfl (.cons rfl (.cons rfl (.single rfl)))⟩
  · decide
  · exact fun h => absurd (h 5120 (by decide)) (by decide)

end Amdgpu
