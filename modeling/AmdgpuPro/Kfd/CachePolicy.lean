import Mathlib.Tactic

set_option autoImplicit false

/-!
# The alternate aperture

A process can ask for another cache policy in one range of addresses, the alternate aperture `APE1`.
The hardware has two registers of 32 bits for it. The range they stand for begins at a multiple of
64 KiB and ends before one; the upper bits of its ends are copies of the highest bit of the
register. `set_cache_memory_policy` refuses a range that cannot be written in this way.

## Main definitions

* `Amdkfd.ape1Base`, `ape1Limit` — what the two registers stand for.

## Main results

* `Amdkfd.ape1Base_encode`, `ape1Limit_encode` — the checks are enough for the ends of the range to
  be written exactly.
* `setCacheMemoryPolicy_exact` — the aperture is the range that was asked for.

## Design

The registers are written when the process has a VMID and there is no hardware scheduler; otherwise
they are written later, with the values that are in the process device.
-/

namespace Amdkfd

/-! ## The registers -/

/-- `APE1_Base[63:0] = { 16{SH_MEM_APE1_BASE[31]}, SH_MEM_APE1_BASE[31:0], 0x0000 }` -/
def ape1Base (reg : BitVec 32) : BitVec 64 := reg.signExtend 48 ++ 0x0000#16

/-- `APE1_Limit[63:0] = { 16{SH_MEM_APE1_LIMIT[31]}, SH_MEM_APE1_LIMIT[31:0], 0xFFFF }` -/
def ape1Limit (reg : BitVec 32) : BitVec 64 := reg.signExtend 48 ++ 0xFFFF#16

/-- `APE1_FIXED_BITS_MASK` -/
def ape1FixedBitsMask : BitVec 64 := 0xFFFF80000000FFFF#64

/-- `APE1_LIMIT_ALIGNMENT` -/
def ape1LimitAlignment : BitVec 64 := 0xFFFF#64

/-- `enum cache_policy` -/
inductive CachePolicy
  | coherent
  | noncoherent
  deriving DecidableEq

/-- The families of chips, which differ in `ops_asic_specific`. -/
inductive KfdAsic
  | cik
  | vi

/-- `struct qcm_process_device` -/
structure QcmProcessDevice where
  vmid : ℕ
  shMemConfig : BitVec 32
  shMemApe1Base : BitVec 32
  shMemApe1Limit : BitVec 32
  shMemBases : BitVec 32

/-- The registers of a VMID, as `program_sh_mem_settings` writes them. -/
structure ShMemRegs where
  vmid : ℕ
  config : BitVec 32
  ape1Base : BitVec 32
  ape1Limit : BitVec 32
  bases : BitVec 32

/-- `program_sh_mem_settings` -/
def programShMemSettings (qpd : QcmProcessDevice) : ShMemRegs :=
  ⟨qpd.vmid, qpd.shMemConfig, qpd.shMemApe1Base, qpd.shMemApe1Limit, qpd.shMemBases⟩

/-! ## `set_cache_memory_policy` -/

/-- `set_cache_memory_policy_cik`, on `sh_mem_config`. `PTR32` is kept. -/
def setCacheMemoryPolicyCik (config : BitVec 32) (dflt alternate : CachePolicy) : BitVec 32 :=
  let mtype : CachePolicy → BitVec 32 := fun policy => if policy = .coherent then 3 else 0
  (config &&& 1) ||| (3 <<< 2) ||| (mtype dflt <<< 4) ||| (mtype alternate <<< 7)

/-- `set_cache_memory_policy_vi`, on `sh_mem_config`. The address mode is kept. -/
def setCacheMemoryPolicyVi (config : BitVec 32) (dflt alternate : CachePolicy) : BitVec 32 :=
  let mtype : CachePolicy → BitVec 32 := fun policy => if policy = .coherent then 2 else 1
  (config &&& 0x3) ||| (3 <<< 3) ||| (mtype dflt <<< 5) ||| (mtype alternate <<< 8) ||| 0x4

/-- The ends of the aperture in the process device, or `none` if the range is refused. -/
def encodeApe1 (qpd : QcmProcessDevice) (base size : BitVec 64) : Option QcmProcessDevice :=
  if size = 0 then
    -- base > limit disables APE1
    some { qpd with shMemApe1Base := 1, shMemApe1Limit := 0 }
  else
    let limit := base + size - 1
    if limit ≤ base then none
    else if base &&& ape1FixedBitsMask ≠ 0 then none
    else if limit &&& ape1FixedBitsMask ≠ ape1LimitAlignment then none
    else
      some { qpd with
        shMemApe1Base := (base >>> 16).setWidth 32
        shMemApe1Limit := (limit >>> 16).setWidth 32 }

/-- What `set_cache_memory_policy` returns, leaves in the process device, and writes to the
hardware. -/
structure CachePolicyOut where
  ret : Bool
  qpd : QcmProcessDevice
  written : Option ShMemRegs

/-- `set_cache_memory_policy`. `noHws` tells that there is no hardware scheduler. -/
def setCacheMemoryPolicy (asic : KfdAsic) (noHws : Bool) (qpd : QcmProcessDevice)
    (dflt alternate : CachePolicy) (base size : BitVec 64) : CachePolicyOut :=
  match encodeApe1 qpd base size with
  | none => ⟨false, qpd, none⟩
  | some qpd =>
    let qpd := { qpd with
      shMemConfig :=
        match asic with
        | .cik => setCacheMemoryPolicyCik qpd.shMemConfig dflt alternate
        | .vi => setCacheMemoryPolicyVi qpd.shMemConfig dflt alternate }
    ⟨true, qpd, if noHws && qpd.vmid ≠ 0 then some (programShMemSettings qpd) else none⟩

/-- The address is in the alternate aperture. -/
def QcmProcessDevice.InApe1 (qpd : QcmProcessDevice) (addr : BitVec 64) : Prop :=
  ape1Base qpd.shMemApe1Base ≤ addr ∧ addr ≤ ape1Limit qpd.shMemApe1Limit

/-! ## Encoding and decoding -/

/-- The bits that have to be the same in all ends are the lower 16 and the upper 17. -/
theorem ape1FixedBitsMask_getLsbD {i : ℕ} (hi : i < 64) :
    ape1FixedBitsMask.getLsbD i = decide (i < 16 ∨ 47 ≤ i) := by
  unfold ape1FixedBitsMask
  interval_cases i <;> rfl

/-- What a check of the fixed bits says about each of them. -/
theorem getLsbD_of_fixedBits {x y : BitVec 64} (h : x &&& ape1FixedBitsMask = y) {i : ℕ}
    (hi : i < 64) (hfixed : i < 16 ∨ 47 ≤ i) : x.getLsbD i = y.getLsbD i := by
  rw [← h, BitVec.getLsbD_and, ape1FixedBitsMask_getLsbD hi, decide_eq_true hfixed, Bool.and_true]

/-- An end whose upper bits are zero is what its register stands for, up to the lower bits. -/
theorem signExtend_append {x : BitVec 64} {low : BitVec 16}
    (hlow : ∀ i < 16, x.getLsbD i = low.getLsbD i)
    (hhigh : ∀ i < 64, 47 ≤ i → x.getLsbD i = false) :
    ((x >>> 16).setWidth 32).signExtend 48 ++ low = x := by
  apply BitVec.eq_of_getLsbD_eq
  intro i hi
  rw [BitVec.getLsbD_append]
  by_cases hlt : i < 16
  · simp [hlt, hlow i hlt]
  · have hbit : ∀ j, ((x >>> 16).setWidth 32).getLsbD j =
        (decide (j < 32) && x.getLsbD (16 + j)) := by
      intro j
      rw [BitVec.getLsbD_setWidth, BitVec.getLsbD_ushiftRight]
    have hmsb : ((x >>> 16).setWidth 32).msb = false := by
      rw [BitVec.msb_eq_getLsbD_last, hbit]
      exact hhigh 47 (by omega) le_rfl
    rw [if_neg hlt, BitVec.getLsbD_signExtend, hbit, hmsb]
    have hsum : 16 + (i - 16) = i := by omega
    rw [hsum]
    by_cases hshort : i - 16 < 32
    · have hin : i - 16 < 48 := by omega
      simp [hshort, hin]
    · rw [hhigh i hi (by omega)]
      simp [hshort]

/-- **The base** is what is decoded from its register. -/
theorem ape1Base_encode {base : BitVec 64} (h : base &&& ape1FixedBitsMask = 0) :
    ape1Base ((base >>> 16).setWidth 32) = base := by
  apply signExtend_append
  · intro i hi
    simpa using getLsbD_of_fixedBits h (by omega) (.inl hi)
  · intro i hi hhigh
    simpa using getLsbD_of_fixedBits h hi (.inr hhigh)

/-- **The limit** is what is decoded from its register. -/
theorem ape1Limit_encode {limit : BitVec 64}
    (h : limit &&& ape1FixedBitsMask = ape1LimitAlignment) :
    ape1Limit ((limit >>> 16).setWidth 32) = limit := by
  apply signExtend_append
  · intro i hi
    rw [getLsbD_of_fixedBits h (by omega) (.inl hi)]
    unfold ape1LimitAlignment
    interval_cases i <;> rfl
  · intro i hi hhigh
    rw [getLsbD_of_fixedBits h hi (.inr hhigh)]
    unfold ape1LimitAlignment
    interval_cases i <;> rfl

/-- An end of the range that is above the base did not wrap around. -/
theorem toNat_limit {base size : BitVec 64} (hsize : size ≠ 0)
    (hlimit : ¬ base + size - 1 ≤ base) :
    base.toNat + size.toNat ≤ 2 ^ 64 ∧
      (base + size - 1).toNat = base.toNat + size.toNat - 1 := by
  have hpos : size.toNat ≠ 0 := fun h => hsize (BitVec.eq_of_toNat_eq h)
  have hbase := base.isLt
  have hlt := size.isLt
  rw [BitVec.le_def, BitVec.toNat_sub, BitVec.toNat_add] at hlimit
  rw [BitVec.toNat_sub, BitVec.toNat_add]
  have hone : (1 : BitVec 64).toNat = 1 := rfl
  rw [hone] at hlimit ⊢
  omega

/-! ## The aperture -/

variable {qpd qpd' : QcmProcessDevice} {base size : BitVec 64}

/-- A size of zero is accepted, and nothing is in the aperture. -/
theorem encodeApe1_zero (qpd : QcmProcessDevice) (base : BitVec 64) :
    ∃ qpd', encodeApe1 qpd base 0 = some qpd' ∧ ∀ addr, ¬ qpd'.InApe1 addr := by
  refine ⟨_, if_pos rfl, fun addr h => ?_⟩
  have hle : ape1Base 1 ≤ ape1Limit 0 := BitVec.le_trans h.1 h.2
  exact absurd hle (by decide)

/-- What is accepted is decoded exactly. -/
theorem encodeApe1_decode (hsize : size ≠ 0) (h : encodeApe1 qpd base size = some qpd') :
    base.toNat + size.toNat ≤ 2 ^ 64 ∧ ape1Base qpd'.shMemApe1Base = base ∧
      ape1Limit qpd'.shMemApe1Limit = base + size - 1 ∧
      (base + size - 1).toNat = base.toNat + size.toNat - 1 := by
  rw [encodeApe1, if_neg hsize] at h
  dsimp only at h
  split_ifs at h with hwrap hbase hlimit
  cases h
  obtain ⟨hsum, htoNat⟩ := toNat_limit hsize hwrap
  exact ⟨hsum, ape1Base_encode (not_not.mp hbase), ape1Limit_encode (not_not.mp hlimit), htoNat⟩

/-- A range that cannot be encoded changes nothing. -/
theorem setCacheMemoryPolicy_none (asic : KfdAsic) (noHws : Bool) (dflt alternate : CachePolicy)
    (h : encodeApe1 qpd base size = none) :
    setCacheMemoryPolicy asic noHws qpd dflt alternate base size = ⟨false, qpd, none⟩ := by
  simp only [setCacheMemoryPolicy, h]

/-- A range that can be encoded is accepted. The configuration changes, the ends of the aperture do
not. -/
theorem setCacheMemoryPolicy_some (asic : KfdAsic) (noHws : Bool) (dflt alternate : CachePolicy)
    (h : encodeApe1 qpd base size = some qpd') :
    let out := setCacheMemoryPolicy asic noHws qpd dflt alternate base size
    out.ret = true ∧ out.qpd.shMemApe1Base = qpd'.shMemApe1Base ∧
      out.qpd.shMemApe1Limit = qpd'.shMemApe1Limit ∧
      ∀ regs, out.written = some regs → regs = programShMemSettings out.qpd := by
  simp only [setCacheMemoryPolicy, h]
  refine ⟨trivial, trivial, trivial, fun regs hregs => ?_⟩
  split_ifs at hregs
  exact (Option.some.inj hregs).symm

/-- **The alternate aperture is the range that was asked for.** A size of zero gives an empty
aperture. Any other range is accepted only if both of its ends can be written in the registers; then
the registers stand for exactly these ends, which did not wrap around, and they are what is written
to the hardware. A range that is refused changes nothing. -/
theorem setCacheMemoryPolicy_exact (asic : KfdAsic) (noHws : Bool) (qpd : QcmProcessDevice)
    (dflt alternate : CachePolicy) (base size : BitVec 64) :
    let out := setCacheMemoryPolicy asic noHws qpd dflt alternate base size
    (size = 0 → out.ret = true ∧ ∀ addr, ¬ out.qpd.InApe1 addr) ∧
    (size ≠ 0 → out.ret = true →
      (∃ reg, ape1Base reg = base) ∧ (∃ reg, ape1Limit reg = base + size - 1) ∧
      base.toNat + size.toNat ≤ 2 ^ 64 ∧
      (ape1Base out.qpd.shMemApe1Base).toNat = base.toNat ∧
      (ape1Limit out.qpd.shMemApe1Limit).toNat = base.toNat + size.toNat - 1 ∧
      ∀ addr, out.qpd.InApe1 addr ↔
        base.toNat ≤ addr.toNat ∧ addr.toNat ≤ base.toNat + size.toNat - 1) ∧
    (∀ regs, out.written = some regs → regs = programShMemSettings out.qpd) ∧
    (out.ret = false → out.qpd = qpd) := by
  intro out
  cases henc : encodeApe1 qpd base size with
  | none =>
    have hout : out = ⟨false, qpd, none⟩ := setCacheMemoryPolicy_none asic noHws dflt alternate henc
    rw [hout]
    refine ⟨fun hzero => ?_, fun _ hret => (by cases hret), fun _ hregs => (by cases hregs),
      fun _ => rfl⟩
    subst hzero
    obtain ⟨qpd', hsome, -⟩ := encodeApe1_zero qpd base
    rw [henc] at hsome
    cases hsome
  | some qpd' =>
    obtain ⟨hret, hbase, hlimit, hwritten⟩ :=
      setCacheMemoryPolicy_some asic noHws dflt alternate henc
    have hin : ∀ addr, out.qpd.InApe1 addr ↔ qpd'.InApe1 addr := by
      intro addr
      unfold QcmProcessDevice.InApe1
      rw [hbase, hlimit]
    refine ⟨fun hzero => ⟨hret, fun addr => ?_⟩, fun hsize _ => ?_, hwritten, fun hfalse => ?_⟩
    · subst hzero
      obtain ⟨q, hsome, hempty⟩ := encodeApe1_zero qpd base
      rw [henc] at hsome
      cases hsome
      rw [hin]
      exact hempty addr
    · obtain ⟨hsum, hdec, hdec', htoNat⟩ := encodeApe1_decode hsize henc
      refine ⟨⟨_, hdec⟩, ⟨_, hdec'⟩, hsum, ?_, ?_, fun addr => ?_⟩
      · rw [hbase, hdec]
      · rw [hlimit, hdec', htoNat]
      · rw [hin, QcmProcessDevice.InApe1, hdec, hdec', BitVec.le_def, BitVec.le_def, htoNat]
    · rw [hret] at hfalse
      cases hfalse

end Amdkfd
