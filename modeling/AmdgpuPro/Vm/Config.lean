import Mathlib.Tactic.NormNum
import Mathlib.Data.Nat.Log

set_option autoImplicit false

/-!
# The GPUVM address space: module parameters and page numbers

The size of a GPU virtual address space and the split of a page number into a page directory
index and a page table index are the module parameters `amdgpu_vm_size` (in GiB) and
`amdgpu_vm_block_size`. `amdgpu_check_arguments` repairs whatever the user passes, so the rest
of the driver only ever sees a pair that meets `Amdgpu.VmConfig`.

## Main definitions

* `Amdgpu.checkVmSize`, `checkVmBlockSize` — the repairs of `amdgpu_check_arguments`.
* `VmConfig` — a repaired pair; `checkArguments` builds it from any pair.

## Main results

* `Amdgpu.VmConfig.numPdes_mul` — the page tables cover the address space exactly, so a page below
  `maxPfn` has a directory index below `numPdes` and conversely (`VmConfig.div_lt_numPdes`).
-/

namespace Amdgpu

/-- The GPU page size, `AMDGPU_GPU_PAGE_SIZE`. -/
def gpuPageSize : ℕ := 4096

/-- The low bits of an address inside a GPU page, `AMDGPU_GPU_PAGE_MASK`. -/
def gpuPageMask : BitVec 64 := 4095

/-! ## Module parameters -/

/-- `amdgpu_check_pot_argument`: at most one bit is set. -/
def checkPotArgument (arg : BitVec 32) : Bool := arg &&& (arg - 1) == 0

/-- The repair of `amdgpu_vm_size` in `amdgpu_check_arguments`: a size that is not a power of
two, below 1 GiB or above 1 TiB becomes 8 GiB. The comparisons are signed. -/
def checkVmSize (vmSize : BitVec 32) : BitVec 32 :=
  let vmSize := if checkPotArgument vmSize then vmSize else 8
  let vmSize := if vmSize.slt 1 then 8 else vmSize
  if (1024#32).slt vmSize then 8 else vmSize

/-- The repair of `amdgpu_vm_block_size` in `amdgpu_check_arguments`: `-1` asks for a split
computed from the address space size, and a page table that is too small or larger than the
address space becomes the minimal one. -/
def checkVmBlockSize (vmSize blockSize : BitVec 32) : BitVec 32 :=
  let blockSize :=
    if blockSize = -1 then
      -- total bits covered by the directory and the tables
      let bits := Nat.log 2 vmSize.toNat + 18
      if vmSize.sle 8 then BitVec.ofNat 32 (bits - 9) else BitVec.ofNat 32 ((bits + 3) / 2)
    else if blockSize.slt 9 then 9 else blockSize
  if (24#32).slt blockSize ∨ (vmSize * 1024).toNat < 2 ^ blockSize.toNat then 9 else blockSize

/-- The module parameters after `amdgpu_check_arguments`: `vmSize` GiB of address space, page
tables of `2 ^ blockSize` entries. -/
structure VmConfig where
  /-- `amdgpu_vm_size`, in GiB -/
  vmSize : ℕ
  /-- `amdgpu_vm_block_size` -/
  blockSize : ℕ
  /-- the size is a power of two between 1 GiB and 1 TiB -/
  vmSize_pow : ∃ k ≤ 10, vmSize = 2 ^ k
  nine_le_blockSize : 9 ≤ blockSize
  blockSize_le : blockSize ≤ 24
  /-- a page table is not larger than the address space -/
  two_pow_blockSize_le : 2 ^ blockSize ≤ vmSize * 1024

/-- A number below `2 ^ 31` is its own value as a signed one. -/
theorem toInt_ofNat_of_lt {c : ℕ} (hc : c < 2 ^ 31) : (BitVec.ofNat 32 c).toInt = c := by
  rw [BitVec.toInt_eq_toNat_cond, BitVec.toNat_ofNat, Nat.mod_eq_of_lt (by omega),
    if_pos (by omega)]

/-- Among numbers below `2 ^ 31` the signed comparison is the usual one. -/
theorem slt_ofNat_eq_false {a c : ℕ} (hac : a ≤ c) (hc : c < 2 ^ 31) :
    (BitVec.ofNat 32 c).slt (BitVec.ofNat 32 a) = false := by
  rw [← Bool.not_eq_true, BitVec.slt_iff_toInt_lt, toInt_ofNat_of_lt hc,
    toInt_ofNat_of_lt (by omega)]
  omega

/-- A number that is, as a signed one, neither below `a` nor above `b` lies between them. -/
theorem toNat_bounds_of_slt {x : BitVec 32} {a b : ℕ} (ha : a < 2 ^ 31) (hb : b < 2 ^ 31)
    (hlo : x.slt (BitVec.ofNat 32 a) = false) (hhi : (BitVec.ofNat 32 b).slt x = false) :
    a ≤ x.toNat ∧ x.toNat ≤ b := by
  have hx := x.isLt
  rw [← Bool.not_eq_true, BitVec.slt_iff_toInt_lt, BitVec.toInt_eq_toNat_cond] at hlo hhi
  rw [toInt_ofNat_of_lt ha] at hlo
  rw [← BitVec.toInt_eq_toNat_cond, toInt_ofNat_of_lt hb, BitVec.toInt_eq_toNat_cond] at hhi
  split_ifs at hlo hhi <;> omega

/-- A repaired address space size is a power of two up to `1024`.

**Proof sketch.** The three repairs leave either the value `8` or the parameter itself, which
then is between `1` and `1024` as a signed number and has at most one bit set. -/
theorem checkVmSize_pow (vmSize : BitVec 32) : ∃ k ≤ 10, (checkVmSize vmSize).toNat = 2 ^ k := by
  have h8 : ∃ k ≤ 10, (8#32).toNat = 2 ^ k := ⟨3, by decide, by decide⟩
  unfold checkVmSize
  cases hpot : checkPotArgument vmSize with
  | false => exact h8
  | true =>
    simp only [if_true]
    cases hneg : vmSize.slt 1 with
    | true => exact h8
    | false =>
      simp only [Bool.false_eq_true, if_false]
      cases hbig : (1024#32).slt vmSize with
      | true => exact h8
      | false =>
        obtain ⟨hpos, hle⟩ := toNat_bounds_of_slt (a := 1) (b := 1024) (by norm_num)
          (by norm_num) hneg hbig
        have hand : vmSize.toNat &&& (vmSize.toNat - 1) = 0 := by
          have h := congrArg BitVec.toNat (eq_of_beq hpot)
          have hsub : (vmSize - 1).toNat = vmSize.toNat - 1 := by
            rw [BitVec.toNat_sub]; simp; omega
          rwa [BitVec.toNat_and, hsub] at h
        obtain ⟨k, hk⟩ := (Nat.and_sub_one_eq_zero_iff_isPowerOfTwo (by omega)).mp hand
        refine ⟨k, ?_, hk⟩
        by_contra hlt
        have : 2 ^ 11 ≤ 2 ^ k := Nat.pow_le_pow_right (by norm_num) (by omega)
        omega

/-- A repaired block size is between `9` and `24` and its page table fits the address space.

**Proof sketch.** The last repair leaves the minimal block size or one that passed both of its
tests; a computed or given block size is at least `9` because the address space has at least
`18` bits. -/
theorem checkVmBlockSize_bounds (vmSize blockSize : BitVec 32)
    (hpow : ∃ k ≤ 10, vmSize.toNat = 2 ^ k) :
    9 ≤ (checkVmBlockSize vmSize blockSize).toNat ∧
      (checkVmBlockSize vmSize blockSize).toNat ≤ 24 ∧
      2 ^ (checkVmBlockSize vmSize blockSize).toNat ≤ vmSize.toNat * 1024 := by
  obtain ⟨k, hk, hvm⟩ := hpow
  have hlog : Nat.log 2 vmSize.toNat = k := by rw [hvm]; exact Nat.log_pow (by norm_num) k
  have hpos : 1 ≤ vmSize.toNat := hvm ▸ Nat.one_le_two_pow
  have hle : vmSize.toNat ≤ 2 ^ 10 := hvm ▸ Nat.pow_le_pow_right (by norm_num) hk
  have hmul : (vmSize * 1024).toNat = vmSize.toNat * 1024 := by
    rw [BitVec.toNat_mul]; simp; omega
  unfold checkVmBlockSize
  simp only [hlog, hmul]
  set b := if blockSize = -1 then
      if vmSize.sle 8 then BitVec.ofNat 32 (k + 18 - 9) else BitVec.ofNat 32 ((k + 18 + 3) / 2)
    else if blockSize.slt 9 then 9 else blockSize with hb
  -- whatever the parameter was, the block size before the last test is at least `9`
  have hb9 : b.slt 9 = false := by
    rw [hb]
    split_ifs with h1 h2 h3
    · exact slt_ofNat_eq_false (a := 9) (by omega) (by omega)
    · exact slt_ofNat_eq_false (a := 9) (by omega) (by omega)
    · rfl
    · exact Bool.not_eq_true _ ▸ h3
  split_ifs with hcond
  · exact ⟨by decide, by decide, by simp; omega⟩
  · push Not at hcond
    obtain ⟨h24, hfit⟩ := hcond
    obtain ⟨h9, h24⟩ := toNat_bounds_of_slt (a := 9) (b := 24) (by norm_num) (by norm_num) hb9
      (Bool.not_eq_true _ ▸ h24)
    exact ⟨h9, h24, hfit⟩

/-- `amdgpu_check_arguments`, the part about the GPUVM address space: from any pair of module
parameters to the pair the driver uses. -/
def checkArguments (vmSize blockSize : BitVec 32) : VmConfig where
  vmSize := (checkVmSize vmSize).toNat
  blockSize := (checkVmBlockSize (checkVmSize vmSize) blockSize).toNat
  vmSize_pow := checkVmSize_pow vmSize
  nine_le_blockSize := (checkVmBlockSize_bounds _ blockSize (checkVmSize_pow vmSize)).1
  blockSize_le := (checkVmBlockSize_bounds _ blockSize (checkVmSize_pow vmSize)).2.1
  two_pow_blockSize_le := (checkVmBlockSize_bounds _ blockSize (checkVmSize_pow vmSize)).2.2

namespace VmConfig

variable (cfg : VmConfig)

/-- `adev->vm_manager.max_pfn`, set to `amdgpu_vm_size << 18` by the memory controller blocks:
the number of GPU pages of an address space. -/
def maxPfn : ℕ := cfg.vmSize <<< 18

/-- `amdgpu_vm_num_pdes`: the number of page directory entries. -/
def numPdes : ℕ := cfg.maxPfn >>> cfg.blockSize

/-- The number of entries of a page table, `AMDGPU_VM_PTE_COUNT`. -/
def pteCount : ℕ := 2 ^ cfg.blockSize

theorem pteCount_pos : 0 < cfg.pteCount := Nat.two_pow_pos _

theorem pteCount_lt : cfg.pteCount < 2 ^ 32 :=
  Nat.pow_lt_pow_right (by norm_num) (by have := cfg.blockSize_le; omega)

/-- `max_pfn` fits its 32 bit field. -/
theorem maxPfn_lt : cfg.maxPfn < 2 ^ 32 := by
  obtain ⟨k, hk, hvm⟩ := cfg.vmSize_pow
  have : cfg.vmSize ≤ 2 ^ 10 := hvm ▸ Nat.pow_le_pow_right (by norm_num) hk
  have hpfn : cfg.maxPfn = cfg.vmSize * 2 ^ 18 := Nat.shiftLeft_eq _ _
  omega

/-- The page tables cover the address space exactly.

**Proof sketch.** Both the address space and a page table are powers of two, and the table is
the smaller one. -/
theorem numPdes_mul : cfg.numPdes * cfg.pteCount = cfg.maxPfn := by
  obtain ⟨k, hk, hvm⟩ := cfg.vmSize_pow
  have hle : cfg.blockSize ≤ k + 10 := by
    have hpow : 2 ^ k * 1024 = 2 ^ (k + 10) := (pow_add 2 k 10).symm
    have h := cfg.two_pow_blockSize_le
    rw [hvm, hpow] at h
    exact (Nat.pow_le_pow_iff_right (by norm_num)).mp h
  have hpfn : cfg.maxPfn = 2 ^ (k + 18) := by
    rw [pow_add, ← hvm]
    exact Nat.shiftLeft_eq _ _
  have hdvd : cfg.pteCount ∣ cfg.maxPfn := by
    rw [hpfn]
    exact pow_dvd_pow 2 (by omega)
  have hdiv : cfg.numPdes = cfg.maxPfn / cfg.pteCount := Nat.shiftRight_eq_div_pow _ _
  rw [hdiv]
  exact Nat.div_mul_cancel hdvd

/-- A page lies in the address space exactly when its directory index does. -/
theorem div_lt_numPdes {p : ℕ} : p / cfg.pteCount < cfg.numPdes ↔ p < cfg.maxPfn := by
  rw [Nat.div_lt_iff_lt_mul cfg.pteCount_pos, numPdes_mul]

end VmConfig

end Amdgpu
