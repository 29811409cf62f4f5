import AmdgpuPro.Vm.State

set_option autoImplicit false

/-!
# The command buffer of an engine without virtual memory

UVD and VCE see physical addresses, so the driver parses their command buffers and replaces the
addresses the submitter used by the places of the buffer objects. Both parsers read and write a
copy of the buffer with `amdgpu_get_ib_value` and `amdgpu_set_ib_value`, and find the buffer
object of an address with `amdgpu_cs_find_mapping`.

## Main definitions

* `Amdgpu.csFindMapping` — the mapping of an address, among the buffer objects of the submission.
* `PlacedBos` — the buffer objects of a submission together with their places.

## Main results

* `Amdgpu.csFindMapping_spec` — a mapping that is found contains the address.
* `PlacedBos.room` — an address of a mapping, moved to the place of the buffer object, leaves the
  rest of the mapping as room inside the buffer object.
-/

namespace Amdgpu

/-! ## Dwords and addresses -/

/-- `ib->ptr`, the copy of a command buffer. -/
abbrev IbWords := ℕ → BitVec 32

/-- `amdgpu_get_ib_value` -/
def getIbValue (ptr : IbWords) (idx : ℕ) : BitVec 32 := ptr idx

/-- `amdgpu_set_ib_value` -/
def setIbValue (ptr : IbWords) (idx : ℕ) (value : BitVec 32) : IbWords :=
  Function.update ptr idx value

/-- `lower_32_bits` -/
def lower32Bits (addr : BitVec 64) : BitVec 32 := addr.setWidth 32

/-- `upper_32_bits` -/
def upper32Bits (addr : BitVec 64) : BitVec 32 := (addr >>> 32).setWidth 32

/-- `((uint64_t)lo) | (((uint64_t)hi) << 32)` -/
def ibAddr (lo hi : BitVec 32) : BitVec 64 := lo.setWidth 64 ||| (hi.setWidth 64 <<< 32)

/-- The halves of an address make the address again. -/
theorem ibAddr_lower_upper (addr : BitVec 64) :
    ibAddr (lower32Bits addr) (upper32Bits addr) = addr := by
  ext i hi
  simp only [ibAddr, lower32Bits, upper32Bits, BitVec.getElem_or, BitVec.getElem_setWidth,
    BitVec.getElem_shiftLeft, BitVec.getLsbD_setWidth, BitVec.getLsbD_ushiftRight]
  by_cases h : i < 32
  · simp [h, ← BitVec.getLsbD_eq_getElem]
  · have h32 : i - 32 < 32 := by omega
    have hsum : 32 + (i - 32) = i := by omega
    simp [h, h32, hsum, ← BitVec.getLsbD_eq_getElem]

/-! ## The lookup of a mapping -/

/-- The mapping of a page in one `bo_va`: the up to date mappings first. -/
def BoVa.findMapping (bv : BoVa) (page : ℕ) : Option Mapping :=
  (bv.valids.find? (·.Contains page)).or (bv.invalids.find? (·.Contains page))

/-- `amdgpu_cs_find_mapping` over the `bo_va` pointers of `parser->bo_list`, `none` where the
submission has no list and where a buffer object is not in the VM. -/
def csFindMapping (boList : Option (List (Option BoVa))) (addr : BitVec 64) :
    Option (Bo × Mapping) :=
  match boList with
  | none => none
  | some entries =>
    entries.findSome? fun entry =>
      entry.bind fun bv => (bv.findMapping (addr.toNat / gpuPageSize)).map (bv.bo, ·)

theorem BoVa.findMapping_spec {bv : BoVa} {page : ℕ} {m : Mapping}
    (h : bv.findMapping page = some m) :
    m ∈ bv.valids ++ bv.invalids ∧ m.Contains page := by
  rw [BoVa.findMapping, Option.or_eq_some_iff] at h
  rcases h with h | ⟨-, h⟩
  · exact ⟨by simp [List.mem_of_find?_eq_some h], by simpa using List.find?_some h⟩
  · exact ⟨by simp [List.mem_of_find?_eq_some h], by simpa using List.find?_some h⟩

/-- The mapping found for an address belongs to a buffer object of the submission and contains
the address. -/
theorem csFindMapping_spec {boList : Option (List (Option BoVa))} {addr : BitVec 64} {bo : Bo}
    {m : Mapping} (h : csFindMapping boList addr = some (bo, m)) :
    ∃ entries bv, boList = some entries ∧ some bv ∈ entries ∧ bv.bo = bo ∧
      m ∈ bv.valids ++ bv.invalids ∧ m.Contains (addr.toNat / gpuPageSize) := by
  cases boList with
  | none => cases h
  | some entries =>
    obtain ⟨entry, hmem, hentry⟩ := List.exists_of_findSome?_eq_some h
    obtain ⟨bv, rfl, hbv⟩ := Option.bind_eq_some_iff.mp hentry
    obtain ⟨m', hm', heq⟩ := Option.map_eq_some_iff.mp hbv
    obtain ⟨rfl, rfl⟩ := Prod.mk.inj heq
    exact ⟨entries, bv, rfl, hmem, rfl, BoVa.findMapping_spec hm'⟩

/-! ## Buffer objects at their places -/

/-- The buffer objects of a submission, and where they are while its commands are parsed. -/
structure CsBos where
  /-- the `bo_va` pointers of `parser->bo_list` -/
  boList : Option (List (Option BoVa))
  /-- `amdgpu_bo_gpu_offset` -/
  gpuOffset : Bo → BitVec 64

/-- The `bo_va`s of the submission: what its submitter mapped. -/
def CsBos.boVas (bos : CsBos) : List BoVa := (bos.boList.getD []).filterMap id

/-- Buffer objects that lie below the end of the address space, with mappings no larger than
the buffer object they map. -/
structure PlacedBos extends CsBos where
  placed : ∀ bv ∈ toCsBos.boVas, (gpuOffset bv.bo).toNat + bv.bo.size.toNat ≤ 2 ^ 64
  mapped : ∀ bv ∈ toCsBos.boVas, ∀ m ∈ bv.valids ++ bv.invalids,
    (m.last + 1 - m.start) * gpuPageSize ≤ bv.bo.size.toNat

/-- The distance of an address from the start of a mapping. -/
def Mapping.byteOffset (m : Mapping) (addr : BitVec 64) : BitVec 64 :=
  addr - BitVec.ofNat 64 m.start * BitVec.ofNat 64 gpuPageSize

/-- The bytes of a mapping. -/
def Mapping.byteSize (m : Mapping) : BitVec 64 :=
  BitVec.ofNat 64 (m.last + 1 - m.start) * BitVec.ofNat 64 gpuPageSize

theorem Mapping.toNat_byteOffset {m : Mapping} {addr : BitVec 64}
    (h : m.Contains (addr.toNat / gpuPageSize)) :
    (m.byteOffset addr).toNat = addr.toNat - m.start * gpuPageSize ∧
      addr.toNat - m.start * gpuPageSize < (m.last + 1 - m.start) * gpuPageSize := by
  obtain ⟨hstart, hlast⟩ := h
  have haddr := addr.isLt
  simp only [Mapping.byteOffset, gpuPageSize, BitVec.toNat_sub, BitVec.toNat_mul,
    BitVec.toNat_ofNat] at hstart hlast ⊢
  omega

theorem Mapping.toNat_byteSize {m : Mapping}
    (h : (m.last + 1 - m.start) * gpuPageSize < 2 ^ 64) :
    m.byteSize.toNat = (m.last + 1 - m.start) * gpuPageSize := by
  simp only [Mapping.byteSize, gpuPageSize, BitVec.toNat_mul, BitVec.toNat_ofNat] at h ⊢
  omega

/-- An address of a mapping, moved to the place of the buffer object, and the room from there to
the end of the mapping lie inside the buffer object. -/
theorem PlacedBos.room (bos : PlacedBos) {addr : BitVec 64} {bo : Bo} {m : Mapping}
    (h : csFindMapping bos.boList addr = some (bo, m)) {start stop : BitVec 64}
    (hstart : start = bos.gpuOffset bo + m.byteOffset addr)
    (hstop : stop = m.byteSize + bos.gpuOffset bo) :
    ∃ bv ∈ bos.boVas, bv.bo = bo ∧ (bos.gpuOffset bo).toNat ≤ start.toNat ∧
      start.toNat + (stop - start).toNat ≤ (bos.gpuOffset bo).toNat + bo.size.toNat := by
  obtain ⟨entries, bv, hlist, hmem, rfl, hm, hcontains⟩ := csFindMapping_spec h
  have hbv : bv ∈ bos.boVas := by simp [CsBos.boVas, hlist, hmem]
  have hplaced := bos.placed bv hbv
  have hsize := bos.mapped bv hbv m hm
  have hlt := bv.bo.size.isLt
  obtain ⟨hoff, hoff_lt⟩ := Mapping.toNat_byteOffset hcontains
  have hbytes := Mapping.toNat_byteSize (hsize.trans_lt hlt)
  refine ⟨bv, hbv, rfl, ?_, ?_⟩
  · rw [hstart, BitVec.toNat_add, hoff]
    omega
  · rw [hstart, hstop, BitVec.toNat_sub, BitVec.toNat_add, BitVec.toNat_add, hoff, hbytes]
    omega

end Amdgpu
