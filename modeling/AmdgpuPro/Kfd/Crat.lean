import AmdgpuPro.Kernel
import Mathlib.Tactic

set_option autoImplicit false

/-!
# The component resource association table

The firmware describes the processors, memories, caches and links of the system in a table. Behind a
header the table has records of different types. Each begins with a generic header that has its type
and its length, and the next record begins where this length ends. `kfd_parse_crat_table` makes a
device for each node and fills it from the records.

## Main definitions

* `Amdkfd.CratState` — the devices, what was allocated, and what was read of the table.
* `CratImage.Reached` — the places where the parser looks for records.

## Main results

* `Amdkfd.CratImage.walk_reads`, `CratImage.walk_ends` — a walk over a well formed table.
* `parseCratTable_safe_iff` — when the parser ends and reads nothing behind the table.
* `parseCratTable_endless` — a record of length zero.

## Design

The loop over the records gets fuel, and a call that has run out of fuel has no result. What is read
are whole structures: the generic header, and the record of its type when it is interpreted. Whether
there is memory is decided by an oracle for each allocation.
-/

namespace Amdkfd

open Amdgpu (Errno)

/-! ## The table -/

/-- The memory at `crat_image`. -/
def CratImage : Type := ℕ → UInt8

namespace CratImage

variable (img : CratImage)

/-- A member of one byte. -/
def u8 (off : ℕ) : ℕ := (img off).toNat

/-- A member of two bytes. -/
def u16 (off : ℕ) : ℕ := img.u8 off + 2 ^ 8 * img.u8 (off + 1)

/-- A member of four bytes. -/
def u32 (off : ℕ) : ℕ := img.u16 off + 2 ^ 16 * img.u16 (off + 2)

/-- The member `length` of `struct crat_header`. -/
def length : ℕ := img.u32 4

/-- The member `num_domains` of `struct crat_header`. -/
def numDomains : ℕ := img.u16 40

/-- The member `length` of `struct crat_subtype_generic`. -/
def recordLength (off : ℕ) : ℕ := img.u8 (off + 1)

/-- The flag `CRAT_SUBTYPE_FLAGS_ENABLED`. -/
def enabled (off : ℕ) : Bool := img.u32 (off + 4) &&& 1 ≠ 0

end CratImage

/-- `sizeof(struct crat_header)` -/
def sizeofCratHeader : ℕ := 48

/-- `sizeof(struct crat_subtype_generic)` -/
def sizeofCratSubtypeGeneric : ℕ := 8

/-- The size of the structure as which a record with this `type` is interpreted, or zero. -/
def sizeofCratSubtype : ℕ → ℕ
  | 0 => 40
  | 1 => 40
  | 2 => 64
  | 5 => 64
  | _ => 0

/-! ## The topology -/

/-- `struct kfd_node_properties` -/
structure KfdNodeProperties where
  cpuCoresCount : ℕ
  simdCount : ℕ
  memBanksCount : ℕ
  cachesCount : ℕ
  ioLinksCount : ℕ
  cpuCoreIdBase : ℕ
  simdIdBase : ℕ
  capability : ℕ
  maxWavesPerSimd : ℕ
  ldsSizeInKb : ℕ
  waveFrontSize : ℕ
  arrayCount : ℕ
  cuPerSimdArray : ℕ
  simdPerCu : ℕ
  maxSlotsScratchCu : ℕ

/-- `struct kfd_mem_properties` -/
structure KfdMemProperties where
  heapType : ℕ
  sizeInBytes : ℕ
  flags : ℕ
  width : ℕ

/-- `struct kfd_cache_properties` -/
structure KfdCacheProperties where
  processorIdLow : ℕ
  cacheLevel : ℕ
  cacheSize : ℕ
  cachelineSize : ℕ
  cachelinesPerTag : ℕ
  cacheAssoc : ℕ
  cacheLatency : ℕ
  cacheType : ℕ

/-- `struct kfd_iolink_properties` -/
structure KfdIolinkProperties where
  nodeFrom : ℕ
  nodeTo : ℕ
  verMaj : ℕ
  verMin : ℕ
  weight : ℕ
  minLatency : ℕ
  maxLatency : ℕ
  minBandwidth : ℕ
  maxBandwidth : ℕ
  recTransferSize : ℕ

/-- `struct kfd_topology_device`. The numbers of its properties are the lengths of the lists. -/
structure KfdTopologyDevice where
  nodeProps : KfdNodeProperties
  memProps : List KfdMemProperties
  cacheProps : List KfdCacheProperties
  ioLinkProps : List KfdIolinkProperties

/-- A device that was filled with zeros. -/
def KfdTopologyDevice.zero : KfdTopologyDevice :=
  ⟨⟨0, 0, 0, 0, 0, 0, 0, 0, 0, 0, 0, 0, 0, 0, 0⟩, [], [], []⟩

/-- `struct kfd_system_properties` -/
structure KfdSystemProperties where
  numDevices : ℕ
  generationCount : ℕ
  platformOem : ℕ
  platformId : ℕ
  platformRev : ℕ

/-- The state of the parser: `topology_device_list`, `sys_props`, the number of allocations, and the
structures that were read, each with its place and its size. -/
structure CratState where
  devices : List KfdTopologyDevice
  sysProps : KfdSystemProperties
  allocs : ℕ
  reads : List (ℕ × ℕ)

namespace CratState

variable (alloc : ℕ → Bool) (st : CratState)

/-- A structure is read. -/
def read (off size : ℕ) : CratState := { st with reads := (off, size) :: st.reads }

/-- `kfd_release_live_view` -/
def releaseLiveView : CratState := { st with devices := [], sysProps := ⟨0, 0, 0, 0, 0⟩ }

/-- The loop that creates the devices. -/
def createTopologyDevices : ℕ → CratState → CratState × Option Errno
  | 0, st => (st, none)
  | n + 1, st =>
    if alloc st.allocs then
      createTopologyDevices n { st with
        devices := st.devices ++ [.zero]
        sysProps := { st.sysProps with numDevices := st.sysProps.numDevices + 1 }
        allocs := st.allocs + 1 }
    else (st.releaseLiveView, some .ENOMEM)

/-- Change a device, if there is one at the index. -/
def updateDevice (k : ℕ) (f : KfdTopologyDevice → KfdTopologyDevice) : CratState :=
  { st with devices := st.devices.modify k f }

/-- Allocate properties and add them to a device, if there is one at the index. -/
def addProps (k : Option ℕ) (f : KfdTopologyDevice → KfdTopologyDevice) :
    CratState × Option Errno :=
  match k.filter (· < st.devices.length) with
  | none => (st, none)
  | some k =>
    if alloc st.allocs then ({ st.updateDevice k f with allocs := st.allocs + 1 }, none)
    else (st, some .ENOMEM)

end CratState

/-! ## The records -/

namespace CratImage

variable (img : CratImage) (alloc : ℕ → Bool) (off : ℕ)

/-- `kfd_populated_cu_info_cpu` -/
def populatedCuInfoCpu (p : KfdNodeProperties) : KfdNodeProperties :=
  { p with
    cpuCoresCount := img.u16 (off + 16)
    cpuCoreIdBase := img.u32 (off + 12)
    capability := if img.u16 (off + 24) &&& 0x10 ≠ 0 then p.capability ||| 2 else p.capability }

/-- `kfd_populated_cu_info_gpu` -/
def populatedCuInfoGpu (p : KfdNodeProperties) : KfdNodeProperties :=
  { p with
    simdIdBase := img.u32 (off + 12)
    simdCount := img.u16 (off + 18)
    ldsSizeInKb := img.u16 (off + 26)
    maxWavesPerSimd := img.u16 (off + 20)
    waveFrontSize := img.u8 (off + 28)
    memBanksCount := img.u8 (off + 29)
    arrayCount := img.u8 (off + 32)
    cuPerSimdArray := img.u8 (off + 33)
    simdPerCu := img.u8 (off + 34)
    maxSlotsScratchCu := img.u8 (off + 35)
    capability := if img.u16 (off + 24) &&& 0x2 ≠ 0 then p.capability ||| 1 else p.capability }

/-- `kfd_parse_subtype_cu` -/
def parseSubtypeCu (st : CratState) : CratState × Option Errno :=
  let flags := img.u32 (off + 4)
  (st.updateDevice (img.u32 (off + 8)) fun dev =>
    let p := if flags &&& 0x4 ≠ 0 then img.populatedCuInfoCpu off dev.nodeProps else dev.nodeProps
    { dev with nodeProps := if flags &&& 0x8 ≠ 0 then img.populatedCuInfoGpu off p else p }, none)

/-- `kfd_parse_subtype_mem` -/
def parseSubtypeMem (st : CratState) : CratState × Option Errno :=
  let flags := img.u32 (off + 4)
  st.addProps alloc (some (img.u32 (off + 8))) fun dev =>
    { dev with
      memProps := dev.memProps ++
        [{ heapType := if dev.nodeProps.cpuCoresCount = 0 then 2 else 0
           flags := (if flags &&& 0x2 ≠ 0 then 1 else 0) ||| (if flags &&& 0x4 ≠ 0 then 2 else 0)
           sizeInBytes := img.u32 (off + 24) * 2 ^ 32 + img.u32 (off + 20)
           width := img.u32 (off + 28) }] }

/-- `kfd_parse_subtype_cache` -/
def parseSubtypeCache (st : CratState) : CratState × Option Errno :=
  let flags := img.u32 (off + 4)
  let id := img.u32 (off + 8)
  st.addProps alloc
    (st.devices.findIdx? fun dev =>
      id = dev.nodeProps.cpuCoreIdBase || id = dev.nodeProps.simdIdBase)
    fun dev =>
      { dev with
        nodeProps := { dev.nodeProps with cachesCount := dev.nodeProps.cachesCount + 1 }
        cacheProps := dev.cacheProps ++
          [{ processorIdLow := id
             cacheLevel := img.u8 (off + 48)
             cacheSize := img.u32 (off + 44)
             cachelineSize := img.u16 (off + 50)
             cachelinesPerTag := img.u8 (off + 49)
             cacheAssoc := img.u8 (off + 52)
             cacheLatency := img.u16 (off + 54)
             -- the four flags of the record are the types, one bit higher
             cacheType := (flags >>> 1) &&& 0xF }] }

/-- `kfd_parse_subtype_iolink` -/
def parseSubtypeIolink (st : CratState) : CratState × Option Errno :=
  st.addProps alloc (some (img.u32 (off + 8))) fun dev =>
    { dev with
      nodeProps := { dev.nodeProps with ioLinksCount := dev.nodeProps.ioLinksCount + 1 }
      ioLinkProps := dev.ioLinkProps ++
        [{ nodeFrom := img.u32 (off + 8)
           nodeTo := img.u32 (off + 12)
           verMaj := img.u8 (off + 17)
           verMin := img.u16 (off + 18)
           weight := 1
           minLatency := img.u32 (off + 20)
           maxLatency := img.u32 (off + 24)
           minBandwidth := img.u32 (off + 28)
           maxBandwidth := img.u32 (off + 32)
           recTransferSize := img.u32 (off + 36) }] }

/-- `kfd_parse_subtype` -/
def parseSubtype (st : CratState) : CratState × Option Errno :=
  match img.u8 off with
  | 0 => img.parseSubtypeCu off (st.read off (sizeofCratSubtype 0))
  | 1 => img.parseSubtypeMem alloc off (st.read off (sizeofCratSubtype 1))
  | 2 => img.parseSubtypeCache alloc off (st.read off (sizeofCratSubtype 2))
  | 5 => img.parseSubtypeIolink alloc off (st.read off (sizeofCratSubtype 5))
  | _ => (st, none)

/-- The loop of `kfd_parse_crat_table` over the records, from the place `off` on. The result is
`none` if there is no fuel left. -/
def walk : ℕ → ℕ → CratState → CratState × Option (Option Errno)
  | 0, _, st => (st, none)
  | fuel + 1, off, st =>
    if off + sizeofCratSubtypeGeneric < img.length then
      let st := st.read off sizeofCratSubtypeGeneric
      match if img.enabled off then img.parseSubtype alloc off st else (st, none) with
      | (st, some e) => (st.releaseLiveView, some (some e))
      | (st, none) => walk fuel (off + img.recordLength off) st
    else
      ({ st with
        sysProps := { st.sysProps with generationCount := st.sysProps.generationCount + 1 } },
        some none)

/-- `kfd_parse_crat_table`. What is read is recorded from the beginning of the call on. -/
def parseCratTable (fuel : ℕ) (st : CratState) : CratState × Option (Option Errno) :=
  match CratState.createTopologyDevices alloc img.numDomains { st with reads := [] } with
  | (st, some e) => (st, some (some e))
  | (st, none) =>
    img.walk alloc fuel sizeofCratHeader { st with
      sysProps := { st.sysProps with
        platformId := img.u32 10 + 2 ^ 32 * img.u16 14
        platformOem := img.u32 16 + 2 ^ 32 * img.u32 20
        platformRev := img.u8 8 } }

/-! ## What should hold -/

/-- The call ends, nothing is read behind the table, and after an error there are no devices. -/
structure ParsesSafely (st : CratState) : Prop where
  ends : ∃ fuel ret, (img.parseCratTable alloc fuel st).2 = some ret
  reads : ∀ fuel, ∀ r ∈ (img.parseCratTable alloc fuel st).1.reads, r.1 + r.2 ≤ img.length
  empty : ∀ fuel e, (img.parseCratTable alloc fuel st).2 = some (some e) →
    (img.parseCratTable alloc fuel st).1.devices = []

/-- The places where the loop looks for a record. -/
inductive Reached : ℕ → Prop
  | first : Reached sizeofCratHeader
  | next {off : ℕ} (h : Reached off) (hin : off + sizeofCratSubtypeGeneric < img.length) :
      Reached (off + img.recordLength off)

/-- No record has the length zero, and the records that are interpreted are inside the table. -/
def WellFormed : Prop := ∀ off, img.Reached off → off + sizeofCratSubtypeGeneric < img.length →
  img.recordLength off ≠ 0 ∧
    (img.enabled off = true → off + sizeofCratSubtype (img.u8 off) ≤ img.length)

/-! ## One record -/

section Records

variable {img : CratImage} {alloc : ℕ → Bool} {off : ℕ} {st : CratState}

theorem addProps_reads (k : Option ℕ) (f : KfdTopologyDevice → KfdTopologyDevice) :
    (st.addProps alloc k f).1.reads = st.reads := by
  unfold CratState.addProps
  split
  · rfl
  · split_ifs <;> rfl

/-- With enough memory there is no error. -/
theorem addProps_ok (halloc : ∀ n, alloc n = true) (k : Option ℕ)
    (f : KfdTopologyDevice → KfdTopologyDevice) : (st.addProps alloc k f).2 = none := by
  unfold CratState.addProps
  split
  · rfl
  · rw [if_pos (halloc _)]

/-- A record that is interpreted is read as a whole. -/
theorem parseSubtype_reads (img : CratImage) (alloc : ℕ → Bool) (off : ℕ) (st : CratState) :
    (img.parseSubtype alloc off st).1.reads =
      if sizeofCratSubtype (img.u8 off) = 0 then st.reads
      else (off, sizeofCratSubtype (img.u8 off)) :: st.reads := by
  unfold parseSubtype
  split
  · next htype => simp [htype, sizeofCratSubtype, parseSubtypeCu, CratState.updateDevice,
      CratState.read]
  · next htype => simp [htype, sizeofCratSubtype, parseSubtypeMem, addProps_reads, CratState.read]
  · next htype =>
    simp [htype, sizeofCratSubtype, parseSubtypeCache, addProps_reads, CratState.read]
  · next htype =>
    simp [htype, sizeofCratSubtype, parseSubtypeIolink, addProps_reads, CratState.read]
  · next h0 h1 h2 h5 =>
    have hsize : sizeofCratSubtype (img.u8 off) = 0 := by
      unfold sizeofCratSubtype
      split <;> first | rfl | exact absurd ‹_› ‹_›
    rw [if_pos hsize]

theorem parseSubtype_ok (halloc : ∀ n, alloc n = true) :
    (img.parseSubtype alloc off st).2 = none := by
  unfold parseSubtype
  split
  · rfl
  · exact addProps_ok halloc _ _
  · exact addProps_ok halloc _ _
  · exact addProps_ok halloc _ _
  · rfl

/-- What the loop reads of the table at one place. -/
def recordReads (img : CratImage) (off : ℕ) : List (ℕ × ℕ) :=
  if img.enabled off = true ∧ sizeofCratSubtype (img.u8 off) ≠ 0 then
    [(off, sizeofCratSubtype (img.u8 off)), (off, sizeofCratSubtypeGeneric)]
  else [(off, sizeofCratSubtypeGeneric)]

/-- **One round of the loop** reads the header and maybe the record; then it stops with an error and
without devices, or goes on behind the record. -/
theorem walk_succ (img : CratImage) (alloc : ℕ → Bool) (off : ℕ) (st : CratState)
    (hin : off + sizeofCratSubtypeGeneric < img.length) :
    ∃ st', st'.reads = img.recordReads off ++ st.reads ∧
      ((∃ e, (∀ fuel, img.walk alloc (fuel + 1) off st = (st'.releaseLiveView, some (some e))) ∧
        ¬ ∀ n, alloc n = true) ∨
      ∀ fuel, img.walk alloc (fuel + 1) off st =
        img.walk alloc fuel (off + img.recordLength off) st') := by
  simp only [walk, if_pos hin]
  by_cases hen : img.enabled off = true
  · simp only [if_pos hen]
    have hreads := img.parseSubtype_reads alloc off (st.read off sizeofCratSubtypeGeneric)
    have hok := @parseSubtype_ok img alloc off (st.read off sizeofCratSubtypeGeneric)
    generalize img.parseSubtype alloc off (st.read off sizeofCratSubtypeGeneric) = out
      at hreads hok ⊢
    obtain ⟨st', ret⟩ := out
    refine ⟨st', ?_, ?_⟩
    · rw [recordReads]
      by_cases hsize : sizeofCratSubtype (img.u8 off) = 0
      · simpa [hsize, CratState.read] using hreads
      · simpa [hsize, hen, CratState.read] using hreads
    · cases ret with
      | none => exact .inr fun _ => rfl
      | some e =>
        refine .inl ⟨e, fun _ => rfl, fun halloc => ?_⟩
        cases hok halloc
  · simp only [if_neg hen]
    refine ⟨st.read off sizeofCratSubtypeGeneric, ?_, .inr fun _ => rfl⟩
    simp [recordReads, hen, CratState.read]

/-- The loop ends at the end of the table. -/
theorem walk_out (alloc : ℕ → Bool) (st : CratState) (fuel : ℕ)
    (hout : ¬ off + sizeofCratSubtypeGeneric < img.length) :
    ∃ st', st'.reads = st.reads ∧ img.walk alloc (fuel + 1) off st = (st', some none) := by
  rw [walk, if_neg hout]
  refine ⟨_, ?_, rfl⟩
  rfl

/-! ## The walk -/

/-- **An error** leaves no devices. -/
theorem walk_empty (fuel : ℕ) {e : Errno} (h : (img.walk alloc fuel off st).2 = some (some e)) :
    (img.walk alloc fuel off st).1.devices = [] := by
  induction fuel generalizing off st with
  | zero => cases h
  | succ fuel ih =>
    by_cases hin : off + sizeofCratSubtypeGeneric < img.length
    · obtain ⟨st', -, ⟨e', hwalk, -⟩ | hwalk⟩ := img.walk_succ alloc off st hin
      · rw [hwalk]
        rfl
      · rw [hwalk] at h ⊢
        exact ih h
    · obtain ⟨st', -, hwalk⟩ := walk_out alloc st fuel hin
      rw [hwalk] at h
      cases h

/-- **In a well formed table** nothing behind it is read. -/
theorem walk_reads (hwf : img.WellFormed) (fuel : ℕ) (hoff : img.Reached off) :
    ∀ r ∈ (img.walk alloc fuel off st).1.reads, r ∈ st.reads ∨ r.1 + r.2 ≤ img.length := by
  induction fuel generalizing off st with
  | zero => exact fun r hr => .inl hr
  | succ fuel ih =>
    by_cases hin : off + sizeofCratSubtypeGeneric < img.length
    · obtain ⟨-, hsize⟩ := hwf off hoff hin
      -- what this round has read
      have hround : ∀ r ∈ img.recordReads off, r.1 + r.2 ≤ img.length := by
        intro r hr
        unfold recordReads at hr
        split_ifs at hr with hen
        · rcases List.mem_cons.mp hr with rfl | hr
          · exact hsize hen.1
          · rw [List.mem_singleton.mp hr]
            exact hin.le
        · rw [List.mem_singleton.mp hr]
          exact hin.le
      have hst : ∀ {st' : CratState}, st'.reads = img.recordReads off ++ st.reads →
          ∀ r ∈ st'.reads, r ∈ st.reads ∨ r.1 + r.2 ≤ img.length := by
        intro st' hreads r hr
        rw [hreads] at hr
        rcases List.mem_append.mp hr with hr | hr
        · exact .inr (hround r hr)
        · exact .inl hr
      obtain ⟨st', hreads, ⟨e, hwalk, -⟩ | hwalk⟩ := img.walk_succ alloc off st hin
      · rw [hwalk]
        exact hst hreads
      · rw [hwalk]
        intro r hr
        rcases ih (.next hoff hin) r hr with hr | hr
        · exact hst hreads r hr
        · exact .inr hr
    · obtain ⟨st', hreads, hwalk⟩ := walk_out alloc st fuel hin
      rw [hwalk, ← hreads]
      exact fun r hr => .inl hr

/-- **In a well formed table** the walk ends, because every record has a length. -/
theorem walk_ends (hwf : img.WellFormed) (fuel : ℕ) (hoff : img.Reached off)
    (hfuel : img.length ≤ off + fuel) : ∃ ret, (img.walk alloc (fuel + 1) off st).2 = some ret := by
  induction fuel generalizing off st with
  | zero =>
    have hout : ¬ off + sizeofCratSubtypeGeneric < img.length := by omega
    obtain ⟨st', -, hwalk⟩ := walk_out alloc st 0 hout
    exact ⟨none, by rw [hwalk]⟩
  | succ fuel ih =>
    by_cases hin : off + sizeofCratSubtypeGeneric < img.length
    · obtain ⟨hlen, -⟩ := hwf off hoff hin
      obtain ⟨st', -, ⟨e, hwalk, -⟩ | hwalk⟩ := img.walk_succ alloc off st hin
      · exact ⟨some e, by rw [hwalk]⟩
      · rw [hwalk]
        exact ih (.next hoff hin) (by omega)
    · obtain ⟨st', -, hwalk⟩ := walk_out alloc st (fuel + 1) hin
      exact ⟨none, by rw [hwalk]⟩

/-- **A record of length zero** is looked at again and again. -/
theorem walk_zero (halloc : ∀ n, alloc n = true) (hin : off + sizeofCratSubtypeGeneric < img.length)
    (hzero : img.recordLength off = 0) (fuel : ℕ) : (img.walk alloc fuel off st).2 = none := by
  induction fuel generalizing st with
  | zero => rfl
  | succ fuel ih =>
    obtain ⟨st', -, ⟨e, -, hnot⟩ | hwalk⟩ := img.walk_succ alloc off st hin
    · exact absurd halloc hnot
    · rw [hwalk, hzero]
      exact ih

/-- With enough memory the walk comes to every place where there may be a record, and does not end
before. -/
theorem walk_reached (halloc : ∀ n, alloc n = true) (hoff : img.Reached off) (st : CratState) :
    ∃ n st', (∀ fuel < n, (img.walk alloc fuel sizeofCratHeader st).2 = none) ∧
      ∀ fuel, img.walk alloc (fuel + n) sizeofCratHeader st = img.walk alloc fuel off st' := by
  induction hoff with
  | first => exact ⟨0, st, fun fuel hfuel => by omega, fun _ => rfl⟩
  | @next off _ hin ih =>
    obtain ⟨n, st', hbefore, hwalk⟩ := ih
    obtain ⟨st'', -, ⟨e, -, hnot⟩ | hone⟩ := img.walk_succ alloc off st' hin
    · exact absurd halloc hnot
    · refine ⟨n + 1, st'', fun fuel hfuel => ?_, fun fuel => ?_⟩
      · by_cases hlt : fuel < n
        · exact hbefore fuel hlt
        · obtain rfl : fuel = 0 + n := by omega
          rw [hwalk]
          rfl
      · have hassoc : fuel + (n + 1) = (fuel + 1) + n := by omega
        rw [hassoc, hwalk, hone]

end Records

/-! ## The devices -/

section Devices

variable {alloc : ℕ → Bool} {st : CratState}

theorem createTopologyDevices_reads (n : ℕ) :
    (CratState.createTopologyDevices alloc n st).1.reads = st.reads := by
  induction n generalizing st with
  | zero => rfl
  | succ n ih =>
    rw [CratState.createTopologyDevices]
    split_ifs
    · rw [ih]
    · rfl

theorem createTopologyDevices_empty {n : ℕ} {e : Errno}
    (h : (CratState.createTopologyDevices alloc n st).2 = some e) :
    (CratState.createTopologyDevices alloc n st).1.devices = [] := by
  induction n generalizing st with
  | zero => cases h
  | succ n ih =>
    rw [CratState.createTopologyDevices] at h ⊢
    split_ifs at h ⊢
    · exact ih h
    · rfl

theorem createTopologyDevices_ok (halloc : ∀ n, alloc n = true) (n : ℕ) :
    (CratState.createTopologyDevices alloc n st).2 = none := by
  induction n generalizing st with
  | zero => rfl
  | succ n ih =>
    rw [CratState.createTopologyDevices, if_pos (halloc _)]
    exact ih

/-- **The call** fails to create the devices, or walks over the records. -/
theorem parseCratTable_cases (img : CratImage) (alloc : ℕ → Bool) (st : CratState) :
    ∃ st', st'.reads = [] ∧
      ((∃ e, (∀ fuel, img.parseCratTable alloc fuel st = (st', some (some e))) ∧
        st'.devices = [] ∧ ¬ ∀ n, alloc n = true) ∨
      ∀ fuel, img.parseCratTable alloc fuel st = img.walk alloc fuel sizeofCratHeader st') := by
  unfold parseCratTable
  have hreads := @createTopologyDevices_reads alloc { st with reads := [] } img.numDomains
  have hempty := @createTopologyDevices_empty alloc { st with reads := [] } img.numDomains
  have hok := fun halloc =>
    @createTopologyDevices_ok alloc { st with reads := [] } halloc img.numDomains
  generalize CratState.createTopologyDevices alloc img.numDomains { st with reads := [] } = out
    at hreads hempty hok ⊢
  obtain ⟨st', - | e⟩ := out
  · refine ⟨_, ?_, .inr fun _ => rfl⟩
    exact hreads
  · refine ⟨st', hreads, .inl ⟨e, fun _ => rfl, hempty rfl, fun halloc => ?_⟩⟩
    cases hok halloc

end Devices

/-! ## Enough memory -/

section EnoughMemory

variable {img : CratImage} {off : ℕ} {st : CratState}

/-- With enough memory the call comes to every place where there may be a record, and does not end
before. -/
theorem parseCratTable_reached (hoff : img.Reached off) (st : CratState) :
    ∃ n st', (∀ fuel < n, (img.parseCratTable (fun _ => true) fuel st).2 = none) ∧
      ∀ fuel, img.parseCratTable (fun _ => true) (fuel + n) st =
        img.walk (fun _ => true) fuel off st' := by
  have halloc : ∀ n : ℕ, (fun _ : ℕ => true) n = true := fun _ => rfl
  obtain ⟨st₁, -, ⟨e, -, -, hnot⟩ | hparse⟩ := img.parseCratTable_cases (fun _ => true) st
  · exact absurd halloc hnot
  · simp only [hparse]
    exact walk_reached halloc hoff st₁

/-- A record of length zero that the call comes to is never left. -/
theorem ParsesSafely.recordLength_ne_zero (h : img.ParsesSafely (fun _ => true) st)
    (hoff : img.Reached off) (hin : off + sizeofCratSubtypeGeneric < img.length) :
    img.recordLength off ≠ 0 := by
  intro hzero
  obtain ⟨⟨fuel, ret, hends⟩, -, -⟩ := h
  obtain ⟨n, st', hbefore, hwalk⟩ := parseCratTable_reached hoff st
  have hnone : (img.parseCratTable (fun _ => true) fuel st).2 = none := by
    by_cases hlt : fuel < n
    · exact hbefore fuel hlt
    · obtain ⟨m, rfl⟩ : ∃ m, fuel = m + n := ⟨fuel - n, by omega⟩
      rw [hwalk]
      exact walk_zero (fun _ => rfl) hin hzero m
  rw [hnone] at hends
  cases hends

/-- An enabled record that the call comes to is read in the next round. -/
theorem ParsesSafely.record_le (h : img.ParsesSafely (fun _ => true) st)
    (hoff : img.Reached off) (hin : off + sizeofCratSubtypeGeneric < img.length)
    (hen : img.enabled off = true) : off + sizeofCratSubtype (img.u8 off) ≤ img.length := by
  by_cases hsize : sizeofCratSubtype (img.u8 off) = 0
  · rw [hsize]
    omega
  · obtain ⟨-, hreads, -⟩ := h
    obtain ⟨n, st', -, hwalk⟩ := parseCratTable_reached hoff st
    refine hreads (1 + n) (off, sizeofCratSubtype (img.u8 off)) ?_
    rw [hwalk]
    obtain ⟨st₃, hst₃, ⟨e, -, hnot⟩ | hone⟩ := img.walk_succ (fun _ => true) off st' hin
    · exact absurd (fun _ => rfl) hnot
    · have hlast := hone 0
      rw [Nat.zero_add] at hlast
      rw [hlast]
      change _ ∈ st₃.reads
      rw [hst₃, recordReads, if_pos ⟨hen, hsize⟩]
      exact List.mem_cons_self

end EnoughMemory

end CratImage

open CratImage

/-- **Parsing the table.** Whatever memory there is, the call ends, reads no generic header and no
record that it interprets behind the table, and leaves no devices after an error, if and only if no
record that it comes to has the length zero and all records that it interprets are inside the
table. -/
theorem parseCratTable_safe_iff (img : CratImage) (st : CratState) :
    (∀ alloc, img.ParsesSafely alloc st) ↔
      ∀ off, img.Reached off → off + sizeofCratSubtypeGeneric < img.length →
        img.recordLength off ≠ 0 ∧
          (img.enabled off = true → off + sizeofCratSubtype (img.u8 off) ≤ img.length) := by
  constructor
  · intro hsafe off hoff hin
    have hsafe := hsafe fun _ => true
    exact ⟨hsafe.recordLength_ne_zero hoff hin, hsafe.record_le hoff hin⟩
  · intro hwf alloc
    obtain ⟨st₁, hst₁, ⟨e, hparse, hnil, -⟩ | hparse⟩ := img.parseCratTable_cases alloc st
    · refine ⟨⟨0, some e, by rw [hparse]⟩, fun fuel r hr => ?_, fun fuel e' _ => ?_⟩
      · rw [hparse, hst₁] at hr
        cases hr
      · rw [hparse]
        exact hnil
    · refine ⟨?_, fun fuel r hr => ?_, fun fuel e he => ?_⟩
      · obtain ⟨ret, hret⟩ := walk_ends hwf img.length .first (by omega)
        exact ⟨_, ret, by rw [hparse, hret]⟩
      · rw [hparse] at hr
        rcases walk_reads hwf fuel .first r hr with hr | hr
        · rw [hst₁] at hr
          cases hr
        · exact hr
      · rw [hparse] at he ⊢
        exact walk_empty fuel he

/-- A table of 64 bytes with its length as the only one that is not zero. -/
def zeroRecordTable : CratImage := fun off => if off = 4 then 64 else 0

/-- **A record of length zero.** The table has the length that its header says. The first record is
not enabled and has the length zero, so that the parser never gets past it. -/
theorem parseCratTable_endless : zeroRecordTable.length = 64 ∧
    ∀ st, ¬ ∀ alloc, zeroRecordTable.ParsesSafely alloc st := by
  refine ⟨by decide, fun st hsafe => ?_⟩
  have hne := (hsafe fun _ => true).recordLength_ne_zero .first (by decide)
  exact hne (by decide)

end Amdkfd
