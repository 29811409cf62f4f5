import AmdgpuPro.Kernel
import AmdgpuPro.Lib.RangeMap
import AmdgpuPro.Lib.Transition

set_option autoImplicit false

/-!
# The GTT sub-allocator

A device has one buffer in GTT memory, which is handed out in chunks. A bitmap has a bit for each
chunk. An allocation looks for a free chunk and then tries to extend it to a range that is large
enough; when it meets a chunk that is in use, it starts again from there.

## Main definitions

* `Amdkfd.GttDev`, `kfdGttSaInit` — the buffer and its bitmap, as they are set up.
* `GttSa` — the bits, and the ranges handed out.
* `GttSa.Correct` — what the allocator should guarantee.
* `GttSa.Step` — a call, or a write to memory behind the bitmap.

## Main results

* `Amdkfd.searchRange_spec` — the search ends, what it finds is free and large enough, and it finds
  something if there is something to be found.
* `gttSa_correct_iff` — the allocator is correct in all runs if and only if the number of chunks is
  a multiple of eight.
* `gttSa_overlap` — with another number of chunks, two allocations can share a chunk.

## Design

The bitmap is memory: `Amdkfd.GttSa.bits` are the bits from the address of the bitmap on, of which
only the first `8 * bitmapSize` belong to the allocation. `kfd_gtt_sa_init` allocates a byte for
every eight chunks and rounds down. What lies behind is somebody else's, who may write it at any
time.

The loops of the search are bounded by a fuel, and the calls have no result when it runs out.
-/

namespace Amdkfd

open Amdgpu (Errno)
open RangeMap (nextClear nextClear_spec nextClear_eq_self fill Marks)

/-! ## The buffer -/

/-- The fields of `struct kfd_dev` for the sub-allocator, with the size of the buffer behind
`gtt_mem` and the size in bytes of the allocation behind `gtt_sa_bitmap`. -/
structure GttDev where
  gttStartGpuAddr : BitVec 64
  gttStartCpuPtr : BitVec 64
  bufSize : ℕ
  chunkSize : ℕ
  numOfChunks : ℕ
  bitmapSize : ℕ
  chunkSize_pos : 0 < chunkSize
  chunks_fit : numOfChunks * chunkSize ≤ bufSize
  bufSize_lt : bufSize < 2 ^ 32
  bitmapSize_eq : bitmapSize = numOfChunks / 8

/-- `kfd_gtt_sa_init`; `none` is a `BUG`. -/
def kfdGttSaInit (gpuAddr cpuPtr : BitVec 64) (bufSize chunkSize : BitVec 32) (kzalloc : Bool) :
    Option (Except Errno GttDev) :=
  if bufSize < chunkSize then none
  else if bufSize = 0 then none
  else if h : chunkSize = 0 then none
  else
    let numOfChunks := bufSize.toNat / chunkSize.toNat
    let numOfBits := numOfChunks / 8
    if numOfBits = 0 then none
    else if kzalloc then
      some (.ok
        { gttStartGpuAddr := gpuAddr
          gttStartCpuPtr := cpuPtr
          bufSize := bufSize.toNat
          chunkSize := chunkSize.toNat
          numOfChunks := numOfChunks
          bitmapSize := numOfBits
          chunkSize_pos := Nat.pos_of_ne_zero fun h0 => h (BitVec.eq_of_toNat_eq h0)
          chunks_fit := Nat.div_mul_le_self _ _
          bufSize_lt := bufSize.isLt
          bitmapSize_eq := rfl })
    else some (.error .ENOMEM)

/-- `struct kfd_mem_obj` -/
structure KfdMemObj where
  rangeStart : ℕ
  rangeEnd : ℕ
  gpuAddr : BitVec 64
  cpuPtr : BitVec 64
  deriving DecidableEq

/-- An allocation: the address of its descriptor, the descriptor, and the size that was asked
for. -/
structure GttAlloc where
  desc : ℕ
  obj : KfdMemObj
  size : ℕ
  deriving DecidableEq

/-- The bits from `gtt_sa_bitmap` on, and the allocations that were made and not freed. -/
structure GttSa (dev : GttDev) where
  bits : ℕ → Bool
  objs : List GttAlloc

variable {dev : GttDev}

/-- The state after `kfd_gtt_sa_init`: the bitmap is zeroed, and what is behind it is arbitrary. -/
def GttDev.start (dev : GttDev) (memory : ℕ → Bool) : GttSa dev where
  bits i := if i < 8 * dev.bitmapSize then false else memory i
  objs := []

/-- `kfd_gtt_sa_calc_gpu_addr`; the product is computed in 32 bits. -/
def kfdGttSaCalcGpuAddr (startAddr : BitVec 64) (bitNum chunkSize : ℕ) : BitVec 64 :=
  startAddr + BitVec.ofNat 64 (bitNum * chunkSize % 2 ^ 32)

/-- `kfd_gtt_sa_calc_cpu_addr`; the product is computed in 32 bits. -/
def kfdGttSaCalcCpuAddr (startAddr : BitVec 64) (bitNum chunkSize : ℕ) : BitVec 64 :=
  startAddr + BitVec.ofNat 64 (bitNum * chunkSize % 2 ^ 32)

/-! ## The search -/

/-- How the inner loop of the search ends. -/
inductive Extended
  | restart (startSearch : ℕ)
  | noFreeChunk
  | out (rangeEnd : ℕ)

/-- The loop that extends a range behind the chunk `found` until `curSize` more bytes are
covered. -/
def extendRange (dev : GttDev) (bits : ℕ → Bool) : ℕ → ℕ → ℕ → Option Extended
  | 0, _, _ => none
  | fuel + 1, found, curSize =>
    let found := found + 1
    let rangeEnd := nextClear bits dev.numOfChunks found
    if rangeEnd ≠ found then some (.restart found)
    else if found = dev.numOfChunks then some .noFreeChunk
    else
      let curSize := if curSize ≤ dev.chunkSize then 0 else curSize - dev.chunkSize
      if 0 < curSize then extendRange dev bits fuel found curSize else some (.out rangeEnd)

/-- The search from `kfd_gtt_restart_search` on: a range, or none when it leaves to
`kfd_gtt_no_free_chunk`. -/
def searchRange (dev : GttDev) (bits : ℕ → Bool) (size : ℕ) : ℕ → ℕ → Option (Option (ℕ × ℕ))
  | 0, _ => none
  | fuel + 1, startSearch =>
    let found := nextClear bits dev.numOfChunks startSearch
    if found = dev.numOfChunks then some none
    else if size ≤ dev.chunkSize then some (some (found, found))
    else
      match extendRange dev bits (fuel + 1) found (size - dev.chunkSize) with
      | none => none
      | some (.restart startSearch) => searchRange dev bits size fuel startSearch
      | some .noFreeChunk => some none
      | some (.out rangeEnd) => some (some (found, rangeEnd))

/-- The range `first`, …, `last` lies inside the buffer, is free and has room for `size` bytes. -/
structure FreeRange (dev : GttDev) (bits : ℕ → Bool) (size first last : ℕ) : Prop where
  le : first ≤ last
  lt : last < dev.numOfChunks
  clear : ∀ i, first ≤ i → i ≤ last → bits i = false
  room : size ≤ (last + 1 - first) * dev.chunkSize

/-- Every range that starts below `start` and has room for `size` bytes has a chunk in use. -/
def NoneBelow (dev : GttDev) (bits : ℕ → Bool) (size start : ℕ) : Prop :=
  ∀ a k, a < start → a + k ≤ dev.numOfChunks → size ≤ k * dev.chunkSize →
    ∃ i, a ≤ i ∧ i < a + k ∧ bits i = true

/-- What the inner loop has established when it ends, for a range that starts at `first`. -/
def Extended.Ok (dev : GttDev) (bits : ℕ → Bool) (size first found : ℕ) : Extended → Prop
  | .restart s => found < s ∧ s < dev.numOfChunks ∧ bits s = true ∧
      (s - first) * dev.chunkSize < size
  | .noFreeChunk => (dev.numOfChunks - first) * dev.chunkSize < size
  | .out last => FreeRange dev bits size first last

variable {bits : ℕ → Bool} {size first found : ℕ}

/-- It is right with fewer chunks found, too. -/
theorem Extended.Ok.mono {found' : ℕ} {e : Extended} (h : e.Ok dev bits size first found')
    (hle : found ≤ found') : e.Ok dev bits size first found := by
  cases e with
  | restart s => exact ⟨hle.trans_lt h.1, h.2⟩
  | noFreeChunk => exact h
  | out last => exact h

/-- **The inner loop**: it ends, and what it ends with is right.

**Proof sketch.** Induction on the fuel. The chunks from `first` to `found` are free and cover all
but `curSize` bytes, so the next chunk is needed. -/
theorem extendRange_spec (fuel : ℕ) {curSize : ℕ} (hle : first ≤ found)
    (hlt : found < dev.numOfChunks) (hclear : ∀ i, first ≤ i → i ≤ found → bits i = false)
    (hsize : size = (found + 1 - first) * dev.chunkSize + curSize) (hcur : 0 < curSize)
    (hfuel : dev.numOfChunks ≤ found + fuel) :
    ∃ e, extendRange dev bits fuel found curSize = some e ∧ e.Ok dev bits size first found := by
  induction fuel generalizing found curSize with
  | zero => omega
  | succ fuel ih =>
    obtain ⟨hge, hleN, -, hfree⟩ := nextClear_spec bits (Nat.succ_le_of_lt hlt)
    rw [Nat.succ_eq_add_one] at hge hleN hfree
    rw [extendRange]
    by_cases hnext : nextClear bits dev.numOfChunks (found + 1) = found + 1
    · rw [if_neg (not_not.mpr hnext)]
      by_cases hend : found + 1 = dev.numOfChunks
      · refine ⟨.noFreeChunk, if_pos hend, ?_⟩
        show (dev.numOfChunks - first) * dev.chunkSize < size
        rw [← hend, hsize]
        omega
      · rw [if_neg hend]
        have hclear' : ∀ i, first ≤ i → i ≤ found + 1 → bits i = false := by
          intro i hi hi'
          rcases Nat.lt_or_ge i (found + 1) with hlt' | hge'
          · exact hclear i hi (by omega)
          · obtain rfl : i = found + 1 := by omega
            rw [hnext] at hfree
            exact hfree (by omega)
        have hcover : (found + 1 + 1 - first) * dev.chunkSize =
            (found + 1 - first) * dev.chunkSize + dev.chunkSize := by
          rw [show found + 1 + 1 - first = found + 1 - first + 1 by omega, Nat.add_one_mul]
        by_cases hlast : curSize ≤ dev.chunkSize
        · refine ⟨.out (nextClear bits dev.numOfChunks (found + 1)), by simp [hlast], ?_⟩
          rw [hnext]
          exact ⟨by omega, by omega, hclear', by rw [hcover]; omega⟩
        · have hmore : 0 < curSize - dev.chunkSize := by omega
          obtain ⟨e, heq, hok⟩ := @ih (found + 1) (curSize - dev.chunkSize) (by omega) (by omega)
            hclear' (by rw [hcover]; omega) hmore (by omega)
          exact ⟨e, by simpa [hlast, hmore] using heq, hok.mono (by omega)⟩
    · -- the next chunk is in use
      refine ⟨.restart (found + 1), if_pos hnext, by omega, ?_, ?_, ?_⟩
      · by_contra hend
        exact hnext (by omega)
      · by_contra hset
        have hbit : bits (found + 1) = false := by simpa using hset
        exact hnext (nextClear_eq_self (by omega) hbit)
      · omega

/-- **The search**: it ends; a range that it finds is free and has room; and it finds one unless
there is none.

**Proof sketch.** Induction on the fuel: the search starts at a chunk below which no range starts
that has room. It skips chunks that are in use. When the inner loop meets a chunk `s` in use, all
ranges that start before `s` and have room reach `s`. -/
theorem searchRange_spec (fuel : ℕ) {startSearch : ℕ} (hpos : 0 < size)
    (hstart : startSearch ≤ dev.numOfChunks) (hnone : NoneBelow dev bits size startSearch)
    (hfuel : dev.numOfChunks < startSearch + fuel) :
    (searchRange dev bits size fuel startSearch = some none ∧
      NoneBelow dev bits size dev.numOfChunks) ∨
    ∃ a b, searchRange dev bits size fuel startSearch = some (some (a, b)) ∧
      FreeRange dev bits size a b := by
  induction fuel generalizing startSearch with
  | zero => omega
  | succ fuel ih =>
    obtain ⟨hge, hleN, hskip, hfree⟩ := nextClear_spec bits hstart
    have hroom : ∀ k, size ≤ k * dev.chunkSize → 0 < k := by
      intro k hk
      by_contra hzero
      obtain rfl : k = 0 := by omega
      omega
    -- the chunks that the search skips are in use
    have hbelow : NoneBelow dev bits size (nextClear bits dev.numOfChunks startSearch) := by
      intro a k ha hak hk
      have := hroom k hk
      by_cases ha' : a < startSearch
      · exact hnone a k ha' hak hk
      · exact ⟨a, le_rfl, by omega, hskip a (by omega) ha⟩
    rw [searchRange]
    generalize nextClear bits dev.numOfChunks startSearch = found at *
    by_cases hend : found = dev.numOfChunks
    · exact .inl ⟨if_pos hend, hend ▸ hbelow⟩
    · have hlt : found < dev.numOfChunks := by omega
      simp only [if_neg hend]
      by_cases hone : size ≤ dev.chunkSize
      · refine .inr ⟨found, found, if_pos hone, le_rfl, hlt, fun i hi hi' => ?_, ?_⟩
        · obtain rfl : i = found := by omega
          exact hfree hlt
        · simpa using hone
      · rw [if_neg hone]
        have hself : found + 1 - found = 1 := by omega
        have hclear : ∀ i, found ≤ i → i ≤ found → bits i = false := by
          intro i hi hi'
          obtain rfl : i = found := by omega
          exact hfree hlt
        have hsize : size = (found + 1 - found) * dev.chunkSize + (size - dev.chunkSize) := by
          rw [hself]
          omega
        obtain ⟨e, heq, hok⟩ :=
          extendRange_spec (fuel + 1) le_rfl hlt hclear hsize (by omega) (by omega)
        rw [heq]
        cases e with
        | restart s =>
          obtain ⟨hs, hsN, hset, hfar⟩ := hok
          refine ih (by omega) (fun a k ha hak hk => ?_) (by omega)
          by_cases ha' : a < found
          · exact hbelow a k ha' hak hk
          · refine ⟨s, by omega, ?_, hset⟩
            have hk' : s - found < k := Nat.lt_of_mul_lt_mul_right (hfar.trans_le hk)
            omega
        | noFreeChunk =>
          refine .inl ⟨rfl, fun a k ha hak hk => ?_⟩
          by_cases ha' : a < found
          · exact hbelow a k ha' hak hk
          · have hok' : (dev.numOfChunks - found) * dev.chunkSize < size := hok
            have hk' : dev.numOfChunks - found < k :=
              Nat.lt_of_mul_lt_mul_right (hok'.trans_le hk)
            omega
        | out last => exact .inr ⟨found, last, rfl, hok⟩

/-- The search from the first chunk on. -/
theorem searchRange_zero (bits : ℕ → Bool) (hpos : 0 < size) {fuel : ℕ}
    (hfuel : dev.numOfChunks < fuel) :
    (searchRange dev bits size fuel 0 = some none ∧ NoneBelow dev bits size dev.numOfChunks) ∨
    ∃ a b, searchRange dev bits size fuel 0 = some (some (a, b)) ∧ FreeRange dev bits size a b :=
  searchRange_spec fuel hpos (Nat.zero_le _) (fun _ _ ha => absurd ha (Nat.not_lt_zero _))
    (by omega)

/-- More fuel does not change how the inner loop ends. -/
theorem extendRange_mono {fuel fuel' curSize : ℕ} {e : Extended} (hle : fuel ≤ fuel')
    (h : extendRange dev bits fuel found curSize = some e) :
    extendRange dev bits fuel' found curSize = some e := by
  induction fuel generalizing found curSize fuel' with
  | zero => cases h
  | succ fuel ih =>
    obtain ⟨fuel', rfl⟩ : ∃ k, fuel' = k + 1 := ⟨fuel' - 1, by omega⟩
    rw [extendRange] at h ⊢
    by_cases hnext : nextClear bits dev.numOfChunks (found + 1) ≠ found + 1
    · rw [if_pos hnext] at h ⊢
      exact h
    · rw [if_neg hnext] at h ⊢
      by_cases hend : found + 1 = dev.numOfChunks
      · rw [if_pos hend] at h ⊢
        exact h
      · rw [if_neg hend] at h ⊢
        by_cases hmore : 0 < if curSize ≤ dev.chunkSize then 0 else curSize - dev.chunkSize
        · rw [if_pos hmore] at h ⊢
          exact ih (by omega) h
        · rw [if_neg hmore] at h ⊢
          exact h

/-- More fuel does not change how the search ends. -/
theorem searchRange_mono {fuel fuel' startSearch : ℕ} {r : Option (ℕ × ℕ)} (hle : fuel ≤ fuel')
    (h : searchRange dev bits size fuel startSearch = some r) :
    searchRange dev bits size fuel' startSearch = some r := by
  induction fuel generalizing startSearch fuel' with
  | zero => cases h
  | succ fuel ih =>
    obtain ⟨fuel', rfl⟩ : ∃ k, fuel' = k + 1 := ⟨fuel' - 1, by omega⟩
    rw [searchRange] at h ⊢
    by_cases hend : nextClear bits dev.numOfChunks startSearch = dev.numOfChunks
    · rw [if_pos hend] at h ⊢
      exact h
    · rw [if_neg hend] at h ⊢
      by_cases hone : size ≤ dev.chunkSize
      · rw [if_pos hone] at h ⊢
        exact h
      · rw [if_neg hone] at h ⊢
        cases hext : extendRange dev bits (fuel + 1)
            (nextClear bits dev.numOfChunks startSearch) (size - dev.chunkSize) with
        | none => simp [hext] at h
        | some e =>
          rw [extendRange_mono hle hext]
          rw [hext] at h
          cases e with
          | restart s => exact ih (by omega) h
          | noFreeChunk => exact h
          | out last => exact h

/-! ## The calls -/

/-- What `kfd_gtt_sa_allocate` may pass to `kfree`: a descriptor, or the address of the variable in
which the caller gets the descriptor. -/
inductive KfreeArg
  | desc (d : ℕ)
  | memObjVariable

/-- The outcome of `kfd_gtt_sa_allocate`: the state, the return value, what was written to
`*mem_obj`, and the pointers passed to `kfree`. -/
structure GttSaResult (dev : GttDev) where
  sa : GttSa dev
  ret : Option Errno
  memObj : Option ℕ
  kfreed : List KfreeArg

/-- The descriptor that is filled in for the range `first`, …, `last`. -/
def kfdMemObj (dev : GttDev) (first last : ℕ) : KfdMemObj where
  rangeStart := first
  rangeEnd := last
  gpuAddr := kfdGttSaCalcGpuAddr dev.gttStartGpuAddr first dev.chunkSize
  cpuPtr := kfdGttSaCalcCpuAddr dev.gttStartCpuPtr first dev.chunkSize

/-- `kfd_gtt_sa_allocate`; `kmalloc` is the address of the new descriptor, if there is memory. -/
def kfdGttSaAllocate (fuel : ℕ) (sa : GttSa dev) (size : BitVec 32) (kmalloc : Option ℕ) :
    Option (GttSaResult dev) :=
  if size = 0 then some ⟨sa, some .EINVAL, none, []⟩
  else if dev.numOfChunks * dev.chunkSize % 2 ^ 32 < size.toNat then
    some ⟨sa, some .ENOMEM, none, []⟩
  else
    match kmalloc with
    | none => some ⟨sa, some .ENOMEM, none, []⟩
    | some desc =>
      match searchRange dev sa.bits size.toNat fuel 0 with
      | none => none
      -- the failing path frees `mem_obj`, not `*mem_obj`
      | some none => some ⟨sa, some .ENOMEM, some desc, [.memObjVariable]⟩
      | some (some range) =>
        some
          { sa :=
              { bits := fill sa.bits range.1 range.2 true
                objs := ⟨desc, kfdMemObj dev range.1 range.2, size.toNat⟩ :: sa.objs }
            ret := none
            memObj := some desc
            kfreed := [] }

/-- `kfd_gtt_sa_free` -/
def kfdGttSaFree (sa : GttSa dev) (memObj : Option GttAlloc) : GttSa dev :=
  match memObj with
  | none => sa
  | some x =>
    { bits := fill sa.bits x.obj.rangeStart x.obj.rangeEnd false
      objs := sa.objs.erase x }

variable {sa sa' : GttSa dev}

/-- A request is refused before a descriptor is allocated for it. -/
def GttDev.Refused (dev : GttDev) (size : BitVec 32) (kmalloc : Option ℕ) : Prop :=
  size = 0 ∨ dev.numOfChunks * dev.chunkSize % 2 ^ 32 < size.toNat ∨ kmalloc = none

/-- **An allocation** is refused and changes nothing, or it gets a free range, or there is none:
then its descriptor is leaked, and memory of the caller is freed. -/
theorem kfdGttSaAllocate_spec {fuel : ℕ} (hfuel : dev.numOfChunks < fuel) (sa : GttSa dev)
    (size : BitVec 32) (kmalloc : Option ℕ) :
    (dev.Refused size kmalloc ∧ ∃ e, (e = .ENOMEM → size ≠ 0) ∧
      kfdGttSaAllocate fuel sa size kmalloc = some ⟨sa, some e, none, []⟩) ∨
    ¬ dev.Refused size kmalloc ∧ ∃ d, kmalloc = some d ∧
      ((∃ a b, FreeRange dev sa.bits size.toNat a b ∧ kfdGttSaAllocate fuel sa size kmalloc =
          some ⟨⟨fill sa.bits a b true, ⟨d, kfdMemObj dev a b, size.toNat⟩ :: sa.objs⟩, none,
            some d, []⟩) ∨
        (NoneBelow dev sa.bits size.toNat dev.numOfChunks ∧
          kfdGttSaAllocate fuel sa size kmalloc =
            some ⟨sa, some .ENOMEM, some d, [.memObjVariable]⟩)) := by
  unfold kfdGttSaAllocate
  by_cases hzero : size = 0
  · exact .inl ⟨.inl hzero, .EINVAL, nofun, if_pos hzero⟩
  rw [if_neg hzero]
  by_cases hlarge : dev.numOfChunks * dev.chunkSize % 2 ^ 32 < size.toNat
  · exact .inl ⟨.inr (.inl hlarge), .ENOMEM, fun _ => hzero, if_pos hlarge⟩
  rw [if_neg hlarge]
  cases kmalloc with
  | none => exact .inl ⟨.inr (.inr rfl), .ENOMEM, fun _ => hzero, rfl⟩
  | some d =>
    have hnot : ¬ dev.Refused size (some d) := by
      rintro (h | h | h)
      · exact hzero h
      · exact hlarge h
      · cases h
    have hpos : 0 < size.toNat := Nat.pos_of_ne_zero fun h0 => hzero (BitVec.eq_of_toNat_eq h0)
    refine .inr ⟨hnot, d, rfl, ?_⟩
    rcases searchRange_zero sa.bits hpos hfuel with ⟨hnone, hbelow⟩ | ⟨a, b, hfound, hfree⟩
    · exact .inr ⟨hbelow, by rw [hnone]⟩
    · exact .inl ⟨a, b, hfree, by rw [hfound]⟩

/-- More fuel does not change an allocation. -/
theorem kfdGttSaAllocate_mono {fuel fuel' : ℕ} {size : BitVec 32} {kmalloc : Option ℕ}
    {r : GttSaResult dev} (hle : fuel ≤ fuel')
    (h : kfdGttSaAllocate fuel sa size kmalloc = some r) :
    kfdGttSaAllocate fuel' sa size kmalloc = some r := by
  unfold kfdGttSaAllocate at h ⊢
  split_ifs at h ⊢ with hzero hlarge
  · exact h
  · exact h
  · cases kmalloc with
    | none => exact h
    | some d =>
      cases hs : searchRange dev sa.bits size.toNat fuel 0 with
      | none => simp [hs] at h
      | some found =>
        rw [hs] at h
        rw [searchRange_mono hle hs]
        exact h

/-- What is known of an allocation that has a result. -/
theorem kfdGttSaAllocate_some {fuel : ℕ} {size : BitVec 32} {kmalloc : Option ℕ}
    {r : GttSaResult dev} (h : kfdGttSaAllocate fuel sa size kmalloc = some r) :
    kfdGttSaAllocate (max fuel (dev.numOfChunks + 1)) sa size kmalloc = some r ∧
      dev.numOfChunks < max fuel (dev.numOfChunks + 1) :=
  ⟨kfdGttSaAllocate_mono (le_max_left _ _) h, by omega⟩

/-! ## Correctness -/

/-- The chunk `i` belongs to an allocation. -/
def GttSa.InUse (sa : GttSa dev) (i : ℕ) : Prop :=
  ∃ x ∈ sa.objs, x.obj.rangeStart ≤ i ∧ i ≤ x.obj.rangeEnd

/-- The invariant: the bitmap marks the chunks of the allocations, which are disjoint, lie inside
the buffer at the addresses that were returned and have room for what was asked for. -/
structure GttSa.Good (sa : GttSa dev) : Prop where
  marks : Marks sa.bits dev.numOfChunks (fun x => x.obj.rangeStart) (fun x => x.obj.rangeEnd)
    sa.objs
  room : ∀ x ∈ sa.objs, x.size ≤ (x.obj.rangeEnd + 1 - x.obj.rangeStart) * dev.chunkSize
  addr : ∀ x ∈ sa.objs, (x.obj.rangeEnd + 1) * dev.chunkSize ≤ dev.bufSize ∧
    x.obj.gpuAddr = dev.gttStartGpuAddr + BitVec.ofNat 64 (x.obj.rangeStart * dev.chunkSize) ∧
    x.obj.cpuPtr = dev.gttStartCpuPtr + BitVec.ofNat 64 (x.obj.rangeStart * dev.chunkSize)

/-- What the allocator should guarantee: the invariant holds, every allocation ends (with a bound on
its loops), and an allocation fails for lack of space only if every range that has room for the
size has a chunk in use. -/
structure GttSa.Correct (sa : GttSa dev) : Prop extends GttSa.Good sa where
  ends : ∀ fuel size kmalloc, dev.numOfChunks < fuel →
    (kfdGttSaAllocate fuel sa size kmalloc).isSome
  complete : ∀ fuel size desc r, kfdGttSaAllocate fuel sa size (some desc) = some r →
    r.ret = some .ENOMEM → ∀ a k, a + k ≤ dev.numOfChunks → size.toNat ≤ k * dev.chunkSize →
      ∃ i, a ≤ i ∧ i < a + k ∧ sa.InUse i

/-- The address of a chunk inside the buffer is computed without overflow. -/
theorem chunk_addr {i : ℕ} (h : i < dev.numOfChunks) :
    (i + 1) * dev.chunkSize ≤ dev.bufSize ∧
      i * dev.chunkSize % 2 ^ 32 = i * dev.chunkSize := by
  have hle : (i + 1) * dev.chunkSize ≤ dev.bufSize :=
    (Nat.mul_le_mul_right _ h).trans dev.chunks_fit
  have hlt := dev.bufSize_lt
  rw [Nat.add_one_mul] at hle
  exact ⟨by rw [Nat.add_one_mul]; exact hle, Nat.mod_eq_of_lt (by omega)⟩

/-- A range that the search found is handed out. -/
theorem GttSa.Good.allocate (h : sa.Good) {desc size a b : ℕ}
    (hfree : FreeRange dev sa.bits size a b) :
    GttSa.Good
      ({ bits := fill sa.bits a b true
         objs := ⟨desc, kfdMemObj dev a b, size⟩ :: sa.objs } : GttSa dev) where
  marks := h.marks.insert (x := ⟨desc, kfdMemObj dev a b, size⟩) hfree.le hfree.lt hfree.clear
  room := by
    intro x hx
    rcases List.mem_cons.mp hx with rfl | hx
    · exact hfree.room
    · exact h.room x hx
  addr := by
    intro x hx
    rcases List.mem_cons.mp hx with rfl | hx
    · have hfirst := (chunk_addr (hfree.le.trans_lt hfree.lt)).2
      refine ⟨(chunk_addr hfree.lt).1, ?_, ?_⟩
      · show kfdGttSaCalcGpuAddr _ _ _ = _
        rw [kfdGttSaCalcGpuAddr, hfirst]
        rfl
      · show kfdGttSaCalcCpuAddr _ _ _ = _
        rw [kfdGttSaCalcCpuAddr, hfirst]
        rfl
    · exact h.addr x hx

/-- A range comes back. -/
theorem GttSa.Good.free (h : sa.Good) {x : GttAlloc} (hx : x ∈ sa.objs) :
    (kfdGttSaFree sa (some x)).Good := by
  obtain ⟨before, after, -, hobjs, herase⟩ := List.exists_erase_eq hx
  have hsub : ∀ y ∈ sa.objs.erase x, y ∈ sa.objs := fun y hy => List.mem_of_mem_erase hy
  refine ⟨?_, fun y hy => h.room y (hsub y hy), fun y hy => h.addr y (hsub y hy)⟩
  show Marks (fill sa.bits _ _ false) _ _ _ (sa.objs.erase x)
  rw [herase]
  exact h.marks.remove hobjs

/-- The search always ends. -/
theorem kfdGttSaAllocate_isSome {fuel : ℕ} (hfuel : dev.numOfChunks < fuel) (sa : GttSa dev)
    (size : BitVec 32) (kmalloc : Option ℕ) : (kfdGttSaAllocate fuel sa size kmalloc).isSome := by
  rcases kfdGttSaAllocate_spec hfuel sa size kmalloc with
    ⟨-, e, -, heq⟩ | ⟨-, d, -, ⟨a, b, -, heq⟩ | ⟨-, heq⟩⟩ <;> rw [heq] <;> rfl

/-- An allocation keeps the invariant. -/
theorem GttSa.Good.allocated (h : sa.Good) {fuel : ℕ} {size : BitVec 32} {kmalloc : Option ℕ}
    {r : GttSaResult dev} (hr : kfdGttSaAllocate fuel sa size kmalloc = some r) : r.sa.Good := by
  obtain ⟨hr, hfuel⟩ := kfdGttSaAllocate_some hr
  rcases kfdGttSaAllocate_spec hfuel sa size kmalloc with
    ⟨-, e, -, heq⟩ | ⟨-, d, -, ⟨a, b, hfree, heq⟩ | ⟨-, heq⟩⟩ <;>
    obtain rfl := Option.some.inj (hr.symm.trans heq)
  · exact h
  · exact h.allocate hfree
  · exact h

/-- An allocation that fails for lack of space has found no range. -/
theorem noneBelow_of_enomem {fuel : ℕ} {size : BitVec 32} {desc : ℕ} {r : GttSaResult dev}
    (h : kfdGttSaAllocate fuel sa size (some desc) = some r) (hr : r.ret = some .ENOMEM) :
    size ≠ 0 ∧ NoneBelow dev sa.bits size.toNat dev.numOfChunks := by
  obtain ⟨h, hfuel⟩ := kfdGttSaAllocate_some h
  rcases kfdGttSaAllocate_spec hfuel sa size (some desc) with
    ⟨hrefused, e, hsize, heq⟩ | ⟨hnot, d, -, ⟨a, b, -, heq⟩ | ⟨hnone, heq⟩⟩ <;>
    obtain rfl := Option.some.inj (h.symm.trans heq)
  · have hzero := hsize (Option.some.inj hr)
    rcases hrefused with hsize | hlarge | hmem
    · exact absurd hsize hzero
    · -- the buffer itself is too small
      have hbuf := dev.chunks_fit
      have hlt := dev.bufSize_lt
      rw [Nat.mod_eq_of_lt (by omega)] at hlarge
      refine ⟨hzero, fun a k _ hak hk => ?_⟩
      have hmul : k * dev.chunkSize ≤ dev.numOfChunks * dev.chunkSize :=
        Nat.mul_le_mul_right _ (by omega)
      omega
    · cases hmem
  · cases hr
  · exact ⟨fun hzero => hnot (.inl hzero), hnone⟩

/-- The invariant is all that is needed. -/
theorem GttSa.Good.correct (h : sa.Good) : sa.Correct where
  toGood := h
  ends _ size kmalloc hfuel := kfdGttSaAllocate_isSome hfuel sa size kmalloc
  complete := by
    intro fuel size desc r hr hret a k hak hk
    obtain ⟨hzero, hnone⟩ := noneBelow_of_enomem hr hret
    have hpos : 0 < size.toNat := Nat.pos_of_ne_zero fun h0 => hzero (BitVec.eq_of_toNat_eq h0)
    have hk0 : 0 < k := by
      by_contra hzero
      obtain rfl : k = 0 := by omega
      omega
    obtain ⟨i, hai, hik, hset⟩ := hnone a k (by omega) hak hk
    exact ⟨i, hai, hik, (h.marks.marked i (by omega)).mp hset⟩

/-! ## Runs -/

/-- What happens: a call, or somebody writes a bit behind the bitmap. -/
inductive GttSaEvent
  | allocate (size : BitVec 32) (kmalloc : Option ℕ)
  | free (memObj : Option GttAlloc)
  | foreign (bit : ℕ) (value : Bool)

/-- A step. `kmalloc` returns memory that is not in use, callers free what they were given, and
the writes of others stay outside the bitmap's own bytes. -/
inductive GttSa.Step : GttSa dev → GttSaEvent → GttSa dev → Prop
  | allocate {sa : GttSa dev} {size : BitVec 32} {kmalloc : Option ℕ} {fuel : ℕ}
      {r : GttSaResult dev} (hnew : ∀ x ∈ sa.objs, kmalloc ≠ some x.desc)
      (h : kfdGttSaAllocate fuel sa size kmalloc = some r) :
      Step sa (.allocate size kmalloc) r.sa
  | free {sa : GttSa dev} {memObj : Option GttAlloc} (h : ∀ x, memObj = some x → x ∈ sa.objs) :
      Step sa (.free memObj) (kfdGttSaFree sa memObj)
  | foreign {sa : GttSa dev} {bit : ℕ} {value : Bool} (h : 8 * dev.bitmapSize ≤ bit) :
      Step sa (.foreign bit value) { sa with bits := Function.update sa.bits bit value }

/-- Every step keeps the invariant if all bits lie inside the bitmap. -/
theorem GttSa.Good.step (hdvd : 8 ∣ dev.numOfChunks) {e : GttSaEvent} (h : sa.Good)
    (hstep : GttSa.Step sa e sa') : sa'.Good := by
  cases hstep with
  | allocate hnew hr => exact h.allocated hr
  | @free memObj hmem =>
    cases memObj with
    | none => exact h
    | some x => exact h.free (hmem x rfl)
  | @foreign bit value hbit =>
    refine ⟨h.marks.congr fun i hi => ?_, h.room, h.addr⟩
    have := dev.bitmapSize_eq
    exact Function.update_of_ne (by omega) _ _

/-- The state after `kfd_gtt_sa_init` satisfies the invariant if all bits lie inside the bitmap. -/
theorem GttDev.start_good (hdvd : 8 ∣ dev.numOfChunks) (memory : ℕ → Bool) :
    (dev.start memory).Good where
  marks := by
    refine Marks.nil fun i hi => if_pos ?_
    have := dev.bitmapSize_eq
    omega
  room := by simp [GttDev.start]
  addr := by simp [GttDev.start]

/-- The number of chunks that `kfd_gtt_sa_init` computes. -/
theorem numOfChunks_of_kfdGttSaInit {gpuAddr cpuPtr : BitVec 64} {bufSize chunkSize : BitVec 32}
    {kzalloc : Bool} (h : kfdGttSaInit gpuAddr cpuPtr bufSize chunkSize kzalloc = some (.ok dev)) :
    dev.numOfChunks = bufSize.toNat / chunkSize.toNat := by
  simp only [kfdGttSaInit] at h
  split_ifs at h
  · cases h
    rfl
  · cases h

/-- **The sub-allocator is correct in every run exactly if the number of chunks is a multiple of
eight.** Otherwise the bits of the last chunks lie behind the bitmap.

**Proof sketch.** If it is, every step keeps the invariant. If not, the bit of the last chunk is
foreign memory, and setting it marks a chunk that nobody has. -/
theorem gttSa_correct_iff {gpuAddr cpuPtr : BitVec 64} {bufSize chunkSize : BitVec 32}
    {kzalloc : Bool}
    (hinit : kfdGttSaInit gpuAddr cpuPtr bufSize chunkSize kzalloc = some (.ok dev))
    (memory : ℕ → Bool) :
    (∀ events sa, Transition.Run GttSa.Step (dev.start memory) events sa → sa.Correct) ↔
      8 ∣ bufSize.toNat / chunkSize.toNat := by
  rw [← numOfChunks_of_kfdGttSaInit hinit]
  constructor
  · intro hall
    by_contra hdvd
    have hbit : 8 * dev.bitmapSize ≤ dev.numOfChunks - 1 := by
      rw [dev.bitmapSize_eq]
      omega
    have hcorrect := hall [.foreign (dev.numOfChunks - 1) true] _ (.single (.foreign hbit))
    obtain ⟨x, hx, -⟩ := (hcorrect.marks.marked (dev.numOfChunks - 1) (by omega)).mp
      (Function.update_self _ _ _)
    cases hx
  · intro hdvd events sa hrun
    have hgood : sa.Good := hrun.invariant (fun sa => sa.Good)
      (fun _ _ _ h hstep => h.step hdvd hstep) (GttDev.start_good hdvd memory)
    exact hgood.correct

/-- The buffer for 4096 queues has 7704 chunks, a multiple of eight. -/
theorem gttSa_correct_queues4096 :
    ∃ dev, kfdGttSaInit 0 0 3944480#32 512#32 true = some (.ok dev) ∧
      ∀ events sa, Transition.Run GttSa.Step (dev.start fun _ => false) events sa → sa.Correct := by
  obtain ⟨dev, hinit⟩ : ∃ dev, kfdGttSaInit 0 0 3944480#32 512#32 true = some (.ok dev) := ⟨_, rfl⟩
  exact ⟨dev, hinit, (gttSa_correct_iff hinit _).mpr (by decide)⟩

/-! ## Two allocations with a common chunk -/

/-- An allocation of the whole buffer, when nothing is in use, gets all chunks. -/
theorem kfdGttSaAllocate_whole (sa : GttSa dev) {size : BitVec 32}
    (hsize : size.toNat = dev.numOfChunks * dev.chunkSize) (hpos : 0 < dev.numOfChunks)
    (hclear : ∀ i < dev.numOfChunks, sa.bits i = false) (desc : ℕ) :
    kfdGttSaAllocate (dev.numOfChunks + 1) sa size (some desc) =
      some
        { sa :=
            { bits := fill sa.bits 0 (dev.numOfChunks - 1) true
              objs := ⟨desc, kfdMemObj dev 0 (dev.numOfChunks - 1), size.toNat⟩ :: sa.objs }
          ret := none
          memObj := some desc
          kfreed := [] } := by
  have hchunk := dev.chunkSize_pos
  have hroom : 0 < dev.numOfChunks * dev.chunkSize := Nat.mul_pos hpos hchunk
  have hfit := dev.chunks_fit
  have hbuf := dev.bufSize_lt
  rcases kfdGttSaAllocate_spec (Nat.lt_succ_self dev.numOfChunks) sa size (some desc) with
    ⟨hrefused, -⟩ | ⟨-, d, hd, ⟨a, b, hfree, heq⟩ | ⟨hnone, -⟩⟩
  · rcases hrefused with rfl | hlarge | hmem
    · simp at hsize
      omega
    · rw [Nat.mod_eq_of_lt (by omega)] at hlarge
      omega
    · cases hmem
  · obtain rfl := Option.some.inj hd
    have hcover : dev.numOfChunks ≤ b + 1 - a :=
      Nat.le_of_mul_le_mul_right (hsize ▸ hfree.room) hchunk
    have hlt := hfree.lt
    obtain rfl : a = 0 := by omega
    obtain rfl : b = dev.numOfChunks - 1 := by omega
    exact heq
  · obtain ⟨i, -, hi, hset⟩ := hnone 0 dev.numOfChunks hpos (by omega) hsize.le
    simp [hclear i (by omega)] at hset

/-- An allocation of one chunk, when only the last chunk looks free, gets the last chunk. -/
theorem kfdGttSaAllocate_last (sa : GttSa dev) {size : BitVec 32} (hspos : 0 < size.toNat)
    (hsize : size.toNat ≤ dev.chunkSize) (hpos : 0 < dev.numOfChunks)
    (hset : ∀ i < dev.numOfChunks - 1, sa.bits i = true)
    (hlast : sa.bits (dev.numOfChunks - 1) = false) (desc : ℕ) :
    kfdGttSaAllocate (dev.numOfChunks + 1) sa size (some desc) =
      some
        { sa :=
            { bits := fill sa.bits (dev.numOfChunks - 1) (dev.numOfChunks - 1) true
              objs := ⟨desc, kfdMemObj dev (dev.numOfChunks - 1) (dev.numOfChunks - 1),
                size.toNat⟩ :: sa.objs }
          ret := none
          memObj := some desc
          kfreed := [] } := by
  have hfit := dev.chunks_fit
  have hbuf := dev.bufSize_lt
  have hle : 1 * dev.chunkSize ≤ dev.numOfChunks * dev.chunkSize := Nat.mul_le_mul_right _ hpos
  rcases kfdGttSaAllocate_spec (Nat.lt_succ_self dev.numOfChunks) sa size (some desc) with
    ⟨hrefused, -⟩ | ⟨-, d, hd, ⟨a, b, hfree, heq⟩ | ⟨hnone, -⟩⟩
  · rcases hrefused with rfl | hlarge | hmem
    · exact absurd hspos (by decide)
    · rw [Nat.mod_eq_of_lt (by omega)] at hlarge
      omega
    · cases hmem
  · obtain rfl := Option.some.inj hd
    have hlt := hfree.lt
    have hge : dev.numOfChunks - 1 ≤ a := by
      by_contra hsmall
      exact absurd (hfree.clear a le_rfl hfree.le) (by simp [hset a (by omega)])
    have hab := hfree.le
    obtain rfl : a = dev.numOfChunks - 1 := by omega
    obtain rfl : b = dev.numOfChunks - 1 := by omega
    exact heq
  · obtain ⟨i, hi, hi', hbit⟩ := hnone (dev.numOfChunks - 1) 1 (by omega) (by omega) (by omega)
    obtain rfl : i = dev.numOfChunks - 1 := by omega
    simp [hlast] at hbit

/-- If the bit of the last chunk lies behind the bitmap, the last chunk can be handed out twice. -/
theorem exists_overlap {size one : BitVec 32}
    (hsize : size.toNat = dev.numOfChunks * dev.chunkSize) (hone : 0 < one.toNat)
    (hone' : one.toNat ≤ dev.chunkSize) (hpos : 0 < dev.numOfChunks)
    (hbit : 8 * dev.bitmapSize ≤ dev.numOfChunks - 1) :
    ∃ sa, Transition.Run GttSa.Step (dev.start fun _ => false)
        [.allocate size (some 0), .foreign (dev.numOfChunks - 1) false, .allocate one (some 1)] sa ∧
      sa.objs =
        [⟨1, kfdMemObj dev (dev.numOfChunks - 1) (dev.numOfChunks - 1), one.toNat⟩,
          ⟨0, kfdMemObj dev 0 (dev.numOfChunks - 1), size.toNat⟩] := by
  have hfirst := kfdGttSaAllocate_whole (dev.start fun _ => false) hsize hpos
    (fun i _ => by simp [GttDev.start]) 0
  refine ⟨_, .cons (.allocate (by simp [GttDev.start]) hfirst) (.cons (.foreign hbit)
    (.single (.allocate (by simp [GttDev.start])
      (kfdGttSaAllocate_last _ hone hone' hpos (fun i hi => ?_) ?_ 1)))), rfl⟩
  · have hne : i ≠ dev.numOfChunks - 1 := by omega
    simp only [Function.update_of_ne hne, RangeMap.fill_apply]
    exact if_pos ⟨Nat.zero_le i, hi.le⟩
  · exact Function.update_self _ _ _

/-- **Two allocations with a common chunk.** The buffer for 1855 queues has 4097 chunks, and a
bitmap of 512 bytes. All chunks are allocated; whoever owns the byte behind the bitmap clears its
first bit; and the last chunk is handed out again. -/
theorem gttSa_overlap :
    ∃ dev sa x y, kfdGttSaInit 0 0 2097896#32 512#32 true = some (.ok dev) ∧
      Transition.Run GttSa.Step (dev.start fun _ => false)
        [.allocate 2097664#32 (some 0), .foreign 4096 false, .allocate 512#32 (some 1)] sa ∧
      x ∈ sa.objs ∧ y ∈ sa.objs ∧ x.desc ≠ y.desc ∧
      x.obj.rangeStart ≤ 4096 ∧ 4096 ≤ x.obj.rangeEnd ∧
      y.obj.rangeStart ≤ 4096 ∧ 4096 ≤ y.obj.rangeEnd := by
  obtain ⟨dev, hinit, hnum, hchunk, hbitmap⟩ : ∃ dev,
      kfdGttSaInit 0 0 2097896#32 512#32 true = some (.ok dev) ∧ dev.numOfChunks = 4097 ∧
        dev.chunkSize = 512 ∧ dev.bitmapSize = 512 := ⟨_, rfl, by decide, by decide, by decide⟩
  have hwhole : (2097664#32).toNat = dev.numOfChunks * dev.chunkSize := by
    rw [hnum, hchunk]
    decide
  have hone : (512#32).toNat ≤ dev.chunkSize := by
    rw [hchunk]
    decide
  have hend : dev.numOfChunks - 1 = 4096 := by omega
  obtain ⟨sa, hrun, hobjs⟩ := exists_overlap hwhole (by decide) hone (by omega) (by omega)
  rw [hend] at hrun hobjs
  refine ⟨dev, sa, ⟨1, kfdMemObj dev 4096 4096, (512#32).toNat⟩,
    ⟨0, kfdMemObj dev 0 4096, (2097664#32).toNat⟩, hinit, hrun, by simp [hobjs],
    by simp [hobjs], ?_⟩
  simp [kfdMemObj]

end Amdkfd
