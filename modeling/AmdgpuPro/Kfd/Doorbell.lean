import AmdgpuPro.Lib.RangeMap
import AmdgpuPro.Lib.Transition

set_option autoImplicit false

/-!
# Doorbells

A queue is notified through a doorbell, a dword of the device's doorbell aperture. The graphics
driver keeps the start of the aperture. The rest is divided into pages: the first one is for the
queues of the kernel, and page `pasid` is for the process with that address space id. The device
knows a doorbell by its index, counted in dwords from the start of the aperture.

## Main definitions

* `Amdkfd.kfdDoorbellInit` — the layout, from what the graphics driver reports.
* `Pasids`, `kfdSetPasidLimit`, `kfdPasidAlloc` — the ids of the processes.
* `deviceIommuPasidInit` — the limit of the ids, from the layout.
* `KernelDoorbells`, `kfdGetKernelDoorbell`, `kfdReleaseKernelDoorbell` — the doorbells of the
  kernel queues.

## Main results

* `Amdkfd.kfdQueueIdToDoorbell_eq` — the index of a user queue's doorbell is right wherever the
  pages start, because it takes the start into account.
* `doorbells_correct_iff` — everything is right if and only if the graphics driver keeps one page,
  there is room for two more pages (or no id is allowed), and no kernel doorbell is asked for when
  all are taken.
* `doorbell_outside_aperture` — with an aperture of two pages, the doorbells of every process lie
  outside.

## Design

Addresses are physical addresses of 64 bits; `doorbell_kernel_ptr` stands for the page it maps. A
page has 4096 bytes. Besides the bits of the kernel doorbells, the state records which bits were
written: `kfd_get_kernel_doorbell` sets the bit that it found before it looks whether there is one.
-/

namespace Amdkfd

open RangeMap (nextClear nextClear_spec)

/-! ## The layout -/

/-- `roundup`, for `size_t` -/
def roundup (x y : ℕ) : ℕ := (x + (y - 1)) % 2 ^ 64 / y * y

/-- `rounddown`, for `size_t` -/
def rounddown (x y : ℕ) : ℕ := x - x % y

/-- `KFD_MAX_NUM_OF_QUEUES_PER_PROCESS` -/
def kfdMaxNumOfQueuesPerProcess : ℕ := 1024

/-- `KFD_MAX_NUM_OF_PROCESSES` -/
def kfdMaxNumOfProcesses : ℕ := 512

/-- `KERNEL_DOORBELL_PASID` -/
def kernelDoorbellPasid : ℕ := 1

/-- `doorbell_process_allocation` -/
def doorbellProcessAllocation : ℕ := roundup (4 * kfdMaxNumOfQueuesPerProcess) 4096

@[simp] theorem doorbellProcessAllocation_eq : doorbellProcessAllocation = 4096 := by decide

/-- The doorbells in `struct kgd2kfd_shared_resources`. -/
structure SharedResources where
  doorbellPhysicalAddress : BitVec 64
  doorbellApertureSize : BitVec 64
  doorbellStartOffset : BitVec 64

/-- The doorbells in `struct kfd_dev`. -/
structure DoorbellDev where
  sharedResources : SharedResources
  doorbellBase : BitVec 64
  doorbellIdOffset : ℕ
  doorbellProcessLimit : BitVec 64

/-- The rounded start offset of `kfd_doorbell_init`. -/
def SharedResources.start (res : SharedResources) : ℕ :=
  roundup res.doorbellStartOffset.toNat doorbellProcessAllocation

/-- The number of pages behind the start, as `kfd_doorbell_init` computes it. -/
def SharedResources.pages (res : SharedResources) : ℕ :=
  let apertureSize := rounddown res.doorbellApertureSize.toNat doorbellProcessAllocation
  if res.start < apertureSize then (apertureSize - res.start) / doorbellProcessAllocation else 0

/-- `kfd_doorbell_init`; the limit is the number of pages less one, in 64 bits. -/
def kfdDoorbellInit (res : SharedResources) : DoorbellDev where
  sharedResources := res
  doorbellBase := res.doorbellPhysicalAddress + BitVec.ofNat 64 res.start
  doorbellIdOffset := res.start / 4
  doorbellProcessLimit := BitVec.ofNat 64 res.pages - 1

/-- `kfd_get_process_doorbells` -/
def kfdGetProcessDoorbells (dev : DoorbellDev) (pasid : ℕ) : BitVec 64 :=
  dev.doorbellBase + BitVec.ofNat 64 (pasid * doorbellProcessAllocation)

/-- `kfd_queue_id_to_doorbell`: the index of a doorbell of a process, as an `unsigned int`. -/
def kfdQueueIdToDoorbell (dev : DoorbellDev) (pasid queueId : ℕ) : ℕ :=
  (dev.doorbellIdOffset + pasid * (doorbellProcessAllocation / 4) + queueId) % 2 ^ 32

/-- The byte of the aperture that an address denotes. -/
def DoorbellDev.offset (dev : DoorbellDev) (addr : BitVec 64) : ℕ :=
  (addr - dev.sharedResources.doorbellPhysicalAddress).toNat

/-! ## The ids of the processes -/

/-- `pasid_limit` and `pasid_bitmap`. The limit never rises, and id 0 is reserved. -/
structure Pasids where
  limit : ℕ
  used : ℕ → Bool
  limit_le : limit ≤ kfdMaxNumOfProcesses
  used_zero : used 0 = true

/-- `kfd_pasid_init` -/
def kfdPasidInit : Pasids where
  limit := kfdMaxNumOfProcesses
  used i := i == 0
  limit_le := le_rfl
  used_zero := rfl

/-- `kfd_set_pasid_limit`; `none` when an id that is in use would be above the limit. -/
def kfdSetPasidLimit (ps : Pasids) (newLimit : ℕ) : Option Pasids :=
  if h : newLimit < ps.limit then
    if nextClear (fun i => !ps.used i) ps.limit newLimit = ps.limit then
      some { ps with limit := newLimit, limit_le := h.le.trans ps.limit_le }
    else none
  else some ps

/-- `kfd_pasid_alloc`; 0 when there is none. -/
def kfdPasidAlloc (ps : Pasids) : Pasids × ℕ :=
  let found := nextClear ps.used ps.limit 0
  if found = ps.limit then (ps, 0)
  else
    ({ ps with
        used := Function.update ps.used found true
        used_zero := by
          by_cases h0 : found = 0
          · rw [h0]
            exact Function.update_self _ _ _
          · rw [Function.update_of_ne (Ne.symm h0)]
            exact ps.used_zero }, found)

/-- The ids that a process can have. -/
def Pasids.Allowed (ps : Pasids) (pasid : ℕ) : Prop := 0 < pasid ∧ pasid < ps.limit

/-- What the IOMMU driver reports: whether the device was found with the required flags, how many
ids it supports, and whether it could be initialized. -/
structure IommuInfo where
  supported : Bool
  maxPasids : BitVec 32
  initialized : Bool

/-- `device_iommu_pasid_init`; `none` when it fails. The limit is the number of pages less two, in
64 bits, cut to 32. -/
def deviceIommuPasidInit (dev : DoorbellDev) (maxPasidBits : ℕ) (info : IommuInfo) (ps : Pasids) :
    Option Pasids :=
  if info.supported then
    let pasidLimit := min (2 ^ maxPasidBits % 2 ^ 32) info.maxPasids.toNat
    let pasidLimit := min pasidLimit ((dev.doorbellProcessLimit - 1).setWidth 32).toNat
    if info.initialized then kfdSetPasidLimit ps pasidLimit else none
  else none

/-! ## The doorbells of the kernel -/

/-- The bits from `doorbell_available_index` on, the indices that were returned and not released,
and the bits that were written. -/
structure KernelDoorbells where
  availableIndex : ℕ → Bool
  held : List ℕ
  written : List ℕ

/-- No doorbell is taken. -/
def KernelDoorbells.empty : KernelDoorbells := ⟨fun _ => false, [], []⟩

/-- The address that `kfd_get_kernel_doorbell` returns for an index. -/
def kernelDoorbellAddr (dev : DoorbellDev) (inx : ℕ) : BitVec 64 :=
  dev.doorbellBase + BitVec.ofNat 64 (4 * inx)

/-- `*doorbell_off`, the index that the device is given. -/
def kernelDoorbellOff (inx : ℕ) : ℕ := kernelDoorbellPasid * (doorbellProcessAllocation / 4) + inx

/-- `kfd_get_kernel_doorbell`: the address and `*doorbell_off`, if there is a free doorbell. -/
def kfdGetKernelDoorbell (dev : DoorbellDev) (kd : KernelDoorbells) :
    KernelDoorbells × Option (BitVec 64 × ℕ) :=
  let inx := nextClear kd.availableIndex kfdMaxNumOfQueuesPerProcess 0
  let availableIndex := Function.update kd.availableIndex inx true
  if kfdMaxNumOfQueuesPerProcess ≤ inx then
    ({ kd with availableIndex := availableIndex, written := inx :: kd.written }, none)
  else
    ({ availableIndex := availableIndex, held := inx :: kd.held, written := inx :: kd.written },
      some (kernelDoorbellAddr dev inx, kernelDoorbellOff inx))

/-- `kfd_release_kernel_doorbell` -/
def kfdReleaseKernelDoorbell (dev : DoorbellDev) (kd : KernelDoorbells) (dbAddr : BitVec 64) :
    KernelDoorbells :=
  let inx := ((dbAddr - dev.doorbellBase).toNat / 4) % 2 ^ 32
  { availableIndex := Function.update kd.availableIndex inx false
    held := kd.held.erase inx
    written := inx :: kd.written }

/-- A kernel queue is created or destroyed. -/
inductive DoorbellEvent
  | get
  | release (inx : ℕ)

/-- A call; what is released was returned before. -/
def KernelDoorbells.step (dev : DoorbellDev) (kd : KernelDoorbells) :
    DoorbellEvent → Option KernelDoorbells
  | .get => some (kfdGetKernelDoorbell dev kd).1
  | .release inx =>
    if inx ∈ kd.held then some (kfdReleaseKernelDoorbell dev kd (kernelDoorbellAddr dev inx))
    else none

/-! ## What should hold -/

/-- The doorbells of different processes are apart, lie inside the aperture and are not among those
of the kernel, and the index of a kernel doorbell denotes the same doorbell as its address. -/
structure DoorbellDev.Apart (dev : DoorbellDev) (ps : Pasids) : Prop where
  disjoint : ∀ p q, ps.Allowed p → ps.Allowed q → p ≠ q →
    dev.offset (kfdGetProcessDoorbells dev p) + 4096 ≤ dev.offset (kfdGetProcessDoorbells dev q) ∨
    dev.offset (kfdGetProcessDoorbells dev q) + 4096 ≤ dev.offset (kfdGetProcessDoorbells dev p)
  inside : ∀ p, ps.Allowed p → dev.offset (kfdGetProcessDoorbells dev p) + 4096 ≤
    dev.sharedResources.doorbellApertureSize.toNat
  kernel : ∀ p inx, ps.Allowed p → inx < 1024 →
    dev.offset (kernelDoorbellAddr dev inx) + 4 ≤ dev.offset (kfdGetProcessDoorbells dev p) ∨
    dev.offset (kfdGetProcessDoorbells dev p) + 4096 ≤ dev.offset (kernelDoorbellAddr dev inx)
  index : ∀ inx < 1024, dev.offset (kernelDoorbellAddr dev inx) = 4 * kernelDoorbellOff inx

/-- The kernel doorbells that are held are different and have bits in the bitmap, and nothing else
was written. -/
structure KernelDoorbells.Ok (kd : KernelDoorbells) : Prop where
  nodup : kd.held.Nodup
  lt : ∀ inx ∈ kd.held, inx < 1024
  written : ∀ inx ∈ kd.written, inx < 1024

/-- Not all kernel doorbells are held when another one is asked for. -/
def KernelDoorbells.NotFull (kd : KernelDoorbells) : DoorbellEvent → Prop
  | .get => ∃ inx < 1024, inx ∉ kd.held
  | .release _ => True

/-! ## The layout is right -/

variable {res : SharedResources}

theorem SharedResources.start_lt (res : SharedResources) : res.start < 2 ^ 64 := by
  simp only [SharedResources.start, roundup, doorbellProcessAllocation_eq]
  omega

/-- The graphics driver keeps one page. -/
theorem SharedResources.start_eq_iff :
    res.start = 4096 ↔
      0 < res.doorbellStartOffset.toNat ∧ res.doorbellStartOffset.toNat ≤ 4096 := by
  have := res.doorbellStartOffset.isLt
  simp only [SharedResources.start, roundup, doorbellProcessAllocation_eq]
  omega

/-- There is room for two more pages. -/
theorem SharedResources.two_le_pages_iff (h : res.start = 4096) :
    2 ≤ res.pages ↔ 12288 ≤ res.doorbellApertureSize.toNat := by
  simp only [SharedResources.pages, rounddown, doorbellProcessAllocation_eq, h]
  split <;> omega

/-- The pages lie inside the aperture. -/
theorem SharedResources.pages_le (h : res.start = 4096) (hpages : 0 < res.pages) :
    4096 + res.pages * 4096 ≤ res.doorbellApertureSize.toNat := by
  simp only [SharedResources.pages, rounddown, doorbellProcessAllocation_eq, h] at hpages ⊢
  split at hpages
  · rw [if_pos (by assumption)]
    omega
  · omega

/-- The bytes behind `doorbell_base`. -/
theorem offset_doorbellBase_add (n : ℕ) :
    (kfdDoorbellInit res).offset ((kfdDoorbellInit res).doorbellBase + BitVec.ofNat 64 n) =
      (res.start + n) % 2 ^ 64 := by
  have := res.start_lt
  have := res.doorbellPhysicalAddress.isLt
  simp only [DoorbellDev.offset, kfdDoorbellInit, BitVec.toNat_sub, BitVec.toNat_add,
    BitVec.toNat_ofNat]
  omega

/-- The index of a doorbell of a process denotes a doorbell in the process's page, wherever the
pages start. -/
theorem kfdQueueIdToDoorbell_eq {pasid queueId : ℕ} (hqueue : queueId < 1024)
    (hfit : res.start + pasid * 4096 + 4096 ≤ 2 ^ 34) :
    4 * kfdQueueIdToDoorbell (kfdDoorbellInit res) pasid queueId =
      (kfdDoorbellInit res).offset (kfdGetProcessDoorbells (kfdDoorbellInit res) pasid) +
        4 * queueId := by
  have hdvd : res.start % 4096 = 0 := by
    simp only [SharedResources.start, roundup, doorbellProcessAllocation_eq]
    omega
  rw [kfdGetProcessDoorbells, doorbellProcessAllocation_eq, offset_doorbellBase_add]
  simp only [kfdQueueIdToDoorbell, kfdDoorbellInit, doorbellProcessAllocation_eq]
  omega

/-- The limit of the ids is the smallest one of the old limit, what the chip and the IOMMU support
and the number of pages less two. -/
theorem limit_of_deviceIommuPasidInit {dev : DoorbellDev} {maxPasidBits : ℕ} {info : IommuInfo}
    {ps ps' : Pasids} (h : deviceIommuPasidInit dev maxPasidBits info ps = some ps') :
    ps'.limit = min ps.limit (min (min (2 ^ maxPasidBits % 2 ^ 32) info.maxPasids.toNat)
      ((dev.doorbellProcessLimit - 1).setWidth 32).toNat) := by
  simp only [deviceIommuPasidInit, kfdSetPasidLimit] at h
  split_ifs at h with _ _ hlt
  · cases h
    exact (min_eq_right hlt.le).symm
  · cases h
    exact (min_eq_left (not_lt.mp hlt)).symm

/-- No id is allowed: the limit was that low, or the chip or the IOMMU supports no id but 0. -/
def Pasids.NoneAllowed (ps : Pasids) (maxPasidBits : ℕ) (info : IommuInfo) : Prop :=
  ps.limit ≤ 1 ∨ 2 ^ maxPasidBits % 2 ^ 32 ≤ 1 ∨ info.maxPasids.toNat ≤ 1

/-- With less than two pages the number of pages less two wraps around, and does not count. -/
theorem limit_le_one_iff {maxPasidBits : ℕ} {info : IommuInfo} {ps ps' : Pasids}
    (h : deviceIommuPasidInit (kfdDoorbellInit res) maxPasidBits info ps = some ps')
    (hpages : res.pages < 2) : ps'.limit ≤ 1 ↔ ps.NoneAllowed maxPasidBits info := by
  have hwrap : 1 < (((kfdDoorbellInit res).doorbellProcessLimit - 1).setWidth 32).toNat := by
    have hone : (1 : BitVec 64).toNat = 1 := rfl
    simp only [kfdDoorbellInit, BitVec.toNat_setWidth, BitVec.toNat_sub, BitVec.toNat_ofNat, hone]
    omega
  rw [limit_of_deviceIommuPasidInit h, Pasids.NoneAllowed]
  simp only [min_le_iff]
  omega

/-- The limit leaves room for the page of the kernel, if the subtraction does not wrap. -/
theorem limit_add_two_le {maxPasidBits : ℕ} {info : IommuInfo} {ps ps' : Pasids}
    (h : deviceIommuPasidInit (kfdDoorbellInit res) maxPasidBits info ps = some ps')
    (hpages : 2 ≤ res.pages) (hlt : res.pages < 2 ^ 64) : ps'.limit + 2 ≤ res.pages := by
  have hle := limit_of_deviceIommuPasidInit h
  have hone : (1 : BitVec 64).toNat = 1 := rfl
  simp only [kfdDoorbellInit, BitVec.toNat_setWidth, BitVec.toNat_sub, BitVec.toNat_ofNat,
    hone] at hle
  omega

/-- **The layout is right exactly if the graphics driver keeps one page, and there is room for two
more or no id is allowed.** -/
theorem apart_iff {maxPasidBits : ℕ} {info : IommuInfo} {ps ps' : Pasids}
    (h : deviceIommuPasidInit (kfdDoorbellInit res) maxPasidBits info ps = some ps') :
    (kfdDoorbellInit res).Apart ps' ↔
      (0 < res.doorbellStartOffset.toNat ∧ res.doorbellStartOffset.toNat ≤ 4096) ∧
        (12288 ≤ res.doorbellApertureSize.toNat ∨ ps.NoneAllowed maxPasidBits info) := by
  have hnone : res.start = 4096 →
      (12288 ≤ res.doorbellApertureSize.toNat ∨ ps.NoneAllowed maxPasidBits info ↔
        12288 ≤ res.doorbellApertureSize.toNat ∨ ps'.limit ≤ 1) := by
    intro hstart
    by_cases hpages : 2 ≤ res.pages
    · have hroom := (SharedResources.two_le_pages_iff hstart).mp hpages
      exact iff_of_true (.inl hroom) (.inl hroom)
    · exact or_congr_right (limit_le_one_iff h (not_le.mp hpages)).symm
  have haddr : ∀ n, n < 2 ^ 22 → res.start = 4096 →
      (kfdDoorbellInit res).offset ((kfdDoorbellInit res).doorbellBase + BitVec.ofNat 64 n) =
        4096 + n := by
    intro n hn hstart
    rw [offset_doorbellBase_add, hstart]
    omega
  have hlimit : ps'.limit ≤ 512 := ps'.limit_le
  constructor
  · intro hapart
    have hstart : res.start = 4096 := by
      have hindex := hapart.index 0 (by omega)
      have hlt := res.start_lt
      simp only [kernelDoorbellAddr, offset_doorbellBase_add, kernelDoorbellOff,
        kernelDoorbellPasid, doorbellProcessAllocation_eq] at hindex
      omega
    refine ⟨SharedResources.start_eq_iff.mp hstart, (hnone hstart).mpr ?_⟩
    by_contra hnot
    push Not at hnot
    -- the page of the process with id 1 is the second one behind the start
    have hinside := hapart.inside 1 ⟨Nat.one_pos, hnot.2⟩
    simp only [kfdGetProcessDoorbells, doorbellProcessAllocation_eq] at hinside
    rw [haddr _ (by omega) hstart] at hinside
    have hres : (kfdDoorbellInit res).sharedResources = res := rfl
    rw [hres] at hinside
    omega
  · rintro ⟨hoff, hroom⟩
    have hstart : res.start = 4096 := SharedResources.start_eq_iff.mpr hoff
    rw [hnone hstart] at hroom
    have hproc : ∀ p, ps'.Allowed p →
        (kfdDoorbellInit res).offset (kfdGetProcessDoorbells (kfdDoorbellInit res) p) =
          4096 + p * 4096 := by
      intro p hp
      have := hp.2
      simp only [kfdGetProcessDoorbells, doorbellProcessAllocation_eq]
      exact haddr _ (by omega) hstart
    have hkernel : ∀ inx < 1024,
        (kfdDoorbellInit res).offset (kernelDoorbellAddr (kfdDoorbellInit res) inx) =
          4096 + 4 * inx := fun inx hinx => haddr _ (by omega) hstart
    refine ⟨fun p q hp hq hne => ?_, fun p hp => ?_, fun p inx hp hinx => ?_, fun inx hinx => ?_⟩
    · rw [hproc p hp, hproc q hq]
      omega
    · obtain ⟨hpos, hlt⟩ := hp
      have hpages : 2 ≤ res.pages :=
        (SharedResources.two_le_pages_iff hstart).mpr (hroom.resolve_right (by omega))
      have hfit := SharedResources.pages_le hstart (by omega)
      have hap := res.doorbellApertureSize.isLt
      have hlim := limit_add_two_le h hpages (by omega)
      rw [hproc p ⟨hpos, hlt⟩]
      have hres : (kfdDoorbellInit res).sharedResources = res := rfl
      rw [hres]
      omega
    · have := hp.1
      rw [hproc p hp, hkernel inx hinx]
      omega
    · rw [hkernel inx hinx]
      simp only [kernelDoorbellOff, kernelDoorbellPasid, doorbellProcessAllocation_eq]
      omega

/-! ## The kernel doorbells are right -/

/-- The invariant: moreover, the bits that are set are those of the doorbells that are held. -/
structure KernelDoorbells.Good (kd : KernelDoorbells) : Prop extends KernelDoorbells.Ok kd where
  marked : ∀ i < 1024, kd.availableIndex i = true ↔ i ∈ kd.held

theorem KernelDoorbells.empty_good : KernelDoorbells.empty.Good where
  nodup := List.nodup_nil
  lt := by simp [KernelDoorbells.empty]
  written := by simp [KernelDoorbells.empty]
  marked := by simp [KernelDoorbells.empty]

variable {dev : DoorbellDev} {kd kd' : KernelDoorbells}

/-- A doorbell is released. -/
theorem KernelDoorbells.Good.release (h : kd.Good) {inx : ℕ} (hinx : inx ∈ kd.held) :
    (kfdReleaseKernelDoorbell dev kd (kernelDoorbellAddr dev inx)).Good := by
  have hlt := h.lt inx hinx
  have hinx' : (kernelDoorbellAddr dev inx - dev.doorbellBase).toNat / 4 % 2 ^ 32 = inx := by
    have := dev.doorbellBase.isLt
    simp only [kernelDoorbellAddr, BitVec.toNat_sub, BitVec.toNat_add, BitVec.toNat_ofNat]
    omega
  simp only [kfdReleaseKernelDoorbell, hinx']
  refine ⟨⟨h.nodup.erase inx, fun i hi => h.lt i (List.mem_of_mem_erase hi), fun i hi => ?_⟩,
    fun i hi => ?_⟩
  · rcases List.mem_cons.mp hi with rfl | hi
    · exact hlt
    · exact h.written i hi
  · rw [h.nodup.mem_erase_iff]
    by_cases heq : i = inx
    · simp [heq]
    · simp [heq, h.marked i hi]

/-- A doorbell is asked for: the step is right exactly if there is one. -/
theorem KernelDoorbells.Good.get (h : kd.Good) :
    ((∃ inx < 1024, inx ∉ kd.held) → (kfdGetKernelDoorbell dev kd).1.Good) ∧
      ((kfdGetKernelDoorbell dev kd).1.Ok → ∃ inx < 1024, inx ∉ kd.held) := by
  obtain ⟨-, hle, hskip, hfree⟩ := nextClear_spec kd.availableIndex (Nat.zero_le 1024)
  by_cases hfull : 1024 ≤ nextClear kd.availableIndex 1024 0
  · have hfull' : kfdMaxNumOfQueuesPerProcess ≤
        nextClear kd.availableIndex kfdMaxNumOfQueuesPerProcess 0 := hfull
    constructor
    · rintro ⟨inx, hinx, hnot⟩
      exact absurd ((h.marked inx hinx).mp (hskip inx (Nat.zero_le _) (by omega))) hnot
    · -- the bit behind the bitmap was written
      intro hok
      simp only [kfdGetKernelDoorbell, if_pos hfull'] at hok
      have := hok.written _ List.mem_cons_self
      exact absurd this (not_lt.mpr hfull)
  · have hfull' : ¬ kfdMaxNumOfQueuesPerProcess ≤
        nextClear kd.availableIndex kfdMaxNumOfQueuesPerProcess 0 := hfull
    have hnot : nextClear kd.availableIndex 1024 0 ∉ kd.held := by
      intro hmem
      have hset := (h.marked _ (by omega)).mpr hmem
      simp [hfree (by omega)] at hset
    refine ⟨fun _ => ?_, fun _ => ⟨_, not_le.mp hfull, hnot⟩⟩
    simp only [kfdGetKernelDoorbell, if_neg hfull']
    have hlt : nextClear kd.availableIndex kfdMaxNumOfQueuesPerProcess 0 < 1024 := not_le.mp hfull
    refine ⟨⟨List.nodup_cons.mpr ⟨hnot, h.nodup⟩, fun i hi => ?_, fun i hi => ?_⟩, fun i hi => ?_⟩
    · rcases List.mem_cons.mp hi with rfl | hi
      · exact hlt
      · exact h.lt i hi
    · rcases List.mem_cons.mp hi with rfl | hi
      · exact hlt
      · exact h.written i hi
    · rw [List.mem_cons]
      by_cases heq : i = nextClear kd.availableIndex kfdMaxNumOfQueuesPerProcess 0
      · simp [heq]
      · simp [heq, h.marked i hi]

/-- **One step**: from a good state, it is right exactly if not all doorbells are held when another
one is asked for. -/
theorem KernelDoorbells.Good.step (h : kd.Good) {e : DoorbellEvent}
    (hstep : kd.step dev e = some kd') : (kd.NotFull e → kd'.Good) ∧ (kd'.Ok → kd.NotFull e) := by
  cases e with
  | get =>
    cases hstep
    exact h.get
  | release inx =>
    simp only [KernelDoorbells.step] at hstep
    split_ifs at hstep with hinx
    cases hstep
    exact ⟨fun _ => h.release hinx, fun _ => trivial⟩

/-- A run of calls on a device, from the start. -/
def KernelDoorbells.Runs (dev : DoorbellDev) (events : List DoorbellEvent) (kd : KernelDoorbells) :
    Prop :=
  Transition.Run (fun kd e kd' => KernelDoorbells.step dev kd e = some kd') .empty events kd

/-- A run in which no doorbell is asked for when all are held. -/
def KernelDoorbells.RunsNotFull (dev : DoorbellDev) (events : List DoorbellEvent)
    (kd : KernelDoorbells) : Prop :=
  Transition.Run (Transition.Guarded (fun kd e kd' => KernelDoorbells.step dev kd e = some kd')
    KernelDoorbells.NotFull) .empty events kd

/-- **The doorbells are right exactly if** the graphics driver keeps one page, there is room for two
more pages or no id is allowed, and no kernel doorbell is asked for when all are held. -/
theorem doorbells_correct_iff {maxPasidBits : ℕ} {info : IommuInfo} {ps ps' : Pasids}
    (hinit : deviceIommuPasidInit (kfdDoorbellInit res) maxPasidBits info ps = some ps')
    {events : List DoorbellEvent} (hrun : KernelDoorbells.Runs (kfdDoorbellInit res) events kd) :
    ((kfdDoorbellInit res).Apart ps' ∧
      ∀ before after u, events = before ++ after →
        KernelDoorbells.Runs (kfdDoorbellInit res) before u → u.Ok) ↔
      ((0 < res.doorbellStartOffset.toNat ∧ res.doorbellStartOffset.toNat ≤ 4096) ∧
        (12288 ≤ res.doorbellApertureSize.toNat ∨ ps.NoneAllowed maxPasidBits info)) ∧
      KernelDoorbells.RunsNotFull (kfdDoorbellInit res) events kd := by
  refine and_congr (apart_iff hinit) ?_
  exact Transition.Run.forall_states_iff KernelDoorbells.Good KernelDoorbells.Ok
    (fun kd h => h.toOk) (fun kd e kd' h hstep => h.step hstep) hrun KernelDoorbells.empty_good

/-- An aperture of two megabytes, of which the graphics driver keeps one page, and one kernel
queue. -/
theorem doorbells_correct_twoMegabytes :
    ∃ ps' kd, deviceIommuPasidInit (kfdDoorbellInit ⟨0xE0000000, 0x200000, 4096⟩) 16
        ⟨true, 65536, true⟩ kfdPasidInit = some ps' ∧ ps'.limit = 509 ∧
      KernelDoorbells.Runs (kfdDoorbellInit ⟨0xE0000000, 0x200000, 4096⟩) [.get] kd ∧
      (kfdDoorbellInit ⟨0xE0000000, 0x200000, 4096⟩).Apart ps' ∧ kd.Ok := by
  obtain ⟨ps', hinit, hlimit⟩ : ∃ ps', deviceIommuPasidInit
      (kfdDoorbellInit ⟨0xE0000000, 0x200000, 4096⟩) 16 ⟨true, 65536, true⟩ kfdPasidInit =
        some ps' ∧ ps'.limit = 509 := ⟨_, rfl, by decide⟩
  obtain ⟨kd, hkd⟩ : ∃ kd, KernelDoorbells.step (kfdDoorbellInit ⟨0xE0000000, 0x200000, 4096⟩)
      .empty .get = some kd := ⟨_, rfl⟩
  have hboth := (doorbells_correct_iff hinit (.single hkd)).mpr
    ⟨⟨by decide, .inl (by decide)⟩, .single ⟨hkd, 0, by decide, by decide⟩⟩
  exact ⟨ps', kd, hinit, hlimit, .single hkd, hboth.1, hboth.2 [.get] [] kd rfl (.single hkd)⟩

/-- **Doorbells outside the aperture.** An aperture of two pages, of which the graphics driver keeps
one, has no page for a process. The number of pages less two wraps, so that the limit of the ids
stays, and the page of the process with id 1 starts where the aperture ends. -/
theorem doorbell_outside_aperture :
    ∃ ps', deviceIommuPasidInit (kfdDoorbellInit ⟨0xE0000000, 8192, 4096⟩) 16 ⟨true, 65536, true⟩
        kfdPasidInit = some ps' ∧
      (kfdPasidAlloc ps').2 = 1 ∧ ps'.Allowed 1 ∧
      (kfdDoorbellInit ⟨0xE0000000, 8192, 4096⟩).offset
        (kfdGetProcessDoorbells (kfdDoorbellInit ⟨0xE0000000, 8192, 4096⟩) 1) = 8192 := by
  refine ⟨_, rfl, by decide, ⟨by decide, by decide⟩, by decide⟩

end Amdkfd
