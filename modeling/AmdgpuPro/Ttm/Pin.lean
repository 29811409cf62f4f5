import AmdgpuPro.Cs.Validate
import AmdgpuPro.Lib.Tally
import AmdgpuPro.Lib.Transition

set_option autoImplicit false

/-!
# Pinning buffer objects

`amdgpu_bo_pin_restricted` sets the no-evict flag in the places where a buffer object may be, moves
it to one of them and counts its size as pinned. `amdgpu_bo_unpin` undoes this with the last pin.
The device has a counter for VRAM, one for VRAM that is not visible to the CPU and one for GTT.

## Main definitions

* `Amdgpu.PinState` — the buffer objects of a device and its counters.
* `PinState.Right` — the counters are the sums of the sizes that are pinned, and the pinned buffer
  objects are those with the no-evict flag.

## Main results

* `Amdgpu.PinState.Right.step_iff` — a call keeps it if and only if it is careful.
* `pins_right_iff` — so do all calls of a run.

## Design

What `ttm_bo_validate` and `amdgpu_ttm_bind` return is part of the call, and the memory they choose
is one of the places. Unpinning only widens the places, so that the buffer object stays where it is.
The counters are integers. The caching and top-down bits of the places, which only the memory
managers read, and the address that is returned are left out.
-/

namespace Amdgpu

open Transition

/-! ## Places -/

/-- `struct ttm_place`, with the memory type and the no-evict bit of its flags -/
structure PinPlace where
  fpfn : BitVec 32
  lpfn : BitVec 32
  mem : MemType
  noEvict : Bool

/-- The constants of the device. -/
structure PinDevice where
  visibleVramSize : BitVec 64
  realVramSize : BitVec 64
  /-- `amdgpu_direct_gma_size` is not `0` -/
  directGma : Bool

/-- The fields of `struct amdgpu_bo`. -/
structure PinBo where
  size : ℕ
  size_pos : 0 < size
  /-- `amdgpu_ttm_tt_get_usermm` -/
  usermm : Bool
  /-- `AMDGPU_GEM_CREATE_NO_CPU_ACCESS` -/
  noCpuAccess : Bool
  /-- `AMDGPU_GEM_CREATE_CPU_ACCESS_REQUIRED` -/
  cpuAccessRequired : Bool
  /-- `AMDGPU_GEM_CREATE_VRAM_CONTIGUOUS` -/
  vramContiguous : Bool
  pinCount : BitVec 32
  memType : MemType
  places : List PinPlace
  places_ne : places ≠ []

/-- `offset >> PAGE_SHIFT` -/
def pagesOf (offset : BitVec 64) : BitVec 32 := (offset >>> 12).setWidth 32

/-- A place that is there on a condition. -/
def placeIf (c : Bool) (place : PinPlace) : List PinPlace := if c then [place] else []

@[simp] theorem mem_placeIf {c : Bool} {place place' : PinPlace} :
    place' ∈ placeIf c place ↔ c = true ∧ place' = place := by
  cases c <;> simp [placeIf]

section Places

variable (dev : PinDevice) (domain : BitVec 32) (bo : PinBo) (minOffset maxOffset : BitVec 64)

/-- The domain has the bit of a memory type. -/
def inDomain (mem : MemType) : Bool := domain &&& memTypeToDomain mem ≠ 0

/-- The places for VRAM. -/
def vramPlaces : List PinPlace :=
  let lpfn := if bo.vramContiguous then pagesOf dev.realVramSize else 0
  if inDomain domain .vram then
    placeIf (bo.noCpuAccess && !bo.cpuAccessRequired && dev.visibleVramSize < dev.realVramSize)
        ⟨pagesOf dev.visibleVramSize, lpfn, .vram, false⟩ ++
      [⟨0, if bo.cpuAccessRequired then pagesOf dev.visibleVramSize else lpfn, .vram, false⟩]
  else []

/-- The places for direct GMA, which have the no-evict flag. -/
def dgmaPlaces : List PinPlace :=
  placeIf (inDomain domain .dgma && dev.directGma) ⟨0, 0, .dgma, true⟩ ++
    placeIf (inDomain domain .dgmaImport && dev.directGma) ⟨0, 0, .dgmaImport, true⟩

/-- The places for the other memory types. -/
def otherPlaces : List PinPlace :=
  [MemType.tt, .system, .gds, .gws, .oa].flatMap fun mem =>
    placeIf (inDomain domain mem) ⟨0, 0, mem, false⟩

/-- `amdgpu_ttm_placement_init` -/
def ttmPlacementInit : List PinPlace :=
  let places := dgmaPlaces dev domain ++ (vramPlaces dev domain bo ++ otherPlaces domain)
  if places = [] then [⟨0, 0, .system, false⟩] else places

/-- The place is to be in visible VRAM, where the range of the call does not begin. -/
def PinPlace.refused (place : PinPlace) : Bool :=
  place.mem = .vram && !bo.noCpuAccess && (maxOffset = 0 || dev.visibleVramSize < maxOffset) &&
    dev.visibleVramSize < minOffset

/-- The loop body of `amdgpu_bo_pin_restricted` for a place that is not refused. -/
def PinPlace.pin (place : PinPlace) : PinPlace :=
  let fpfn := pagesOf minOffset
  let lpfn :=
    if place.mem = .vram ∧ !bo.noCpuAccess ∧ (maxOffset = 0 ∨ dev.visibleVramSize < maxOffset) then
      pagesOf dev.visibleVramSize
    else pagesOf maxOffset
  { place with
    fpfn := if place.fpfn < fpfn then fpfn else place.fpfn
    lpfn := if place.lpfn = 0 ∨ (lpfn ≠ 0 ∧ lpfn < place.lpfn) then lpfn else place.lpfn
    noEvict := true }

/-- The loop of `amdgpu_bo_pin_restricted` over the places. -/
def pinPlaces : List PinPlace → List PinPlace × Option Errno
  | [] => ([], none)
  | place :: places =>
    if place.refused dev bo minOffset maxOffset then (place :: places, some .EINVAL)
    else
      let rest := pinPlaces places
      (place.pin dev bo minOffset maxOffset :: rest.1, rest.2)

variable {dev domain bo minOffset maxOffset}

/-- There is always a place. -/
theorem ttmPlacementInit_ne : ttmPlacementInit dev domain bo ≠ [] := by
  rw [ttmPlacementInit]
  split_ifs with h
  · exact List.cons_ne_nil _ _
  · exact h

/-- The places are those of the domain, or the one for a domain without any. -/
theorem mem_ttmPlacementInit {place : PinPlace} (h : place ∈ ttmPlacementInit dev domain bo) :
    place ∈ dgmaPlaces dev domain ∨ place ∈ vramPlaces dev domain bo ∨ place ∈ otherPlaces domain ∨
      place = ⟨0, 0, .system, false⟩ ∧ inDomain domain .vram = false ∧
        inDomain domain .tt = false := by
  rw [ttmPlacementInit] at h
  split_ifs at h with hnil
  · refine .inr (.inr (.inr ⟨List.mem_singleton.mp h, ?_, ?_⟩))
    · by_contra hin
      simp [vramPlaces, hin] at hnil
    · by_contra hin
      simp [otherPlaces, placeIf, hin] at hnil
  · simp only [List.mem_append] at h
    tauto

theorem pinPlaces_ne {places : List PinPlace} (h : places ≠ []) :
    (pinPlaces dev bo minOffset maxOffset places).1 ≠ [] := by
  cases places with
  | nil => exact absurd rfl h
  | cons place places =>
    rw [pinPlaces]
    split_ifs <;> exact List.cons_ne_nil _ _

/-- The loop sets the flag of all places, if it is not left early. -/
theorem pinPlaces_noEvict {places : List PinPlace}
    (h : (pinPlaces dev bo minOffset maxOffset places).2 = none) :
    ∀ place ∈ (pinPlaces dev bo minOffset maxOffset places).1, place.noEvict = true := by
  induction places with
  | nil => exact List.forall_mem_nil _
  | cons place places ih =>
    rw [pinPlaces] at h ⊢
    split_ifs at h ⊢
    exact List.forall_mem_cons.mpr ⟨rfl, ih h⟩

/-- The loop is left early for a place in VRAM, and then for every place in VRAM. -/
theorem exists_refused {places : List PinPlace} {e : Errno}
    (h : (pinPlaces dev bo minOffset maxOffset places).2 = some e) :
    ∃ place ∈ places, place.refused dev bo minOffset maxOffset := by
  induction places with
  | nil => cases h
  | cons place places ih =>
    rw [pinPlaces] at h
    split_ifs at h with hrefused
    · exact ⟨place, List.mem_cons_self, hrefused⟩
    · obtain ⟨place', hmem, hrefused'⟩ := ih h
      exact ⟨place', List.mem_cons_of_mem _ hmem, hrefused'⟩

theorem refused_of_mem_eq {place place' : PinPlace} (hmem : place'.mem = .vram)
    (h : place.refused dev bo minOffset maxOffset) : place'.refused dev bo minOffset maxOffset := by
  simp only [PinPlace.refused, Bool.and_eq_true, decide_eq_true_eq] at h ⊢
  exact ⟨⟨⟨hmem, h.1.1.2⟩, h.1.2⟩, h.2⟩

theorem vramPlaces_mem : ∀ place ∈ vramPlaces dev domain bo,
    inDomain domain .vram ∧ place.mem = .vram ∧ place.noEvict = false := by
  intro place hplace
  rw [vramPlaces] at hplace
  by_cases hin : inDomain domain .vram
  · rw [if_pos hin, List.mem_append, List.mem_singleton, mem_placeIf] at hplace
    rcases hplace with ⟨-, rfl⟩ | rfl
    · exact ⟨hin, rfl, rfl⟩
    · exact ⟨hin, rfl, rfl⟩
  · rw [if_neg hin] at hplace
    cases hplace

theorem otherPlaces_mem : ∀ place ∈ otherPlaces domain,
    inDomain domain place.mem ∧ place.mem ≠ .vram ∧ place.noEvict = false := by
  intro place hplace
  simp only [otherPlaces, List.mem_flatMap, mem_placeIf] at hplace
  obtain ⟨mem, hmem, hin, rfl⟩ := hplace
  refine ⟨hin, ?_, rfl⟩
  rintro rfl
  simp at hmem

theorem dgmaPlaces_mem : ∀ place ∈ dgmaPlaces dev domain,
    inDomain domain place.mem ∧ place.mem ≠ .vram ∧ place.noEvict = true := by
  intro place hplace
  simp only [dgmaPlaces, List.mem_append, mem_placeIf, Bool.and_eq_true] at hplace
  rcases hplace with ⟨⟨hin, -⟩, rfl⟩ | ⟨⟨hin, -⟩, rfl⟩
  · exact ⟨hin, by simp, rfl⟩
  · exact ⟨hin, by simp, rfl⟩

/-- Without places for direct GMA no place has the flag. -/
theorem ttmPlacementInit_noEvict (hdgma : dgmaPlaces dev domain = []) :
    ∀ place ∈ ttmPlacementInit dev domain bo, place.noEvict = false := by
  intro place hplace
  rcases mem_ttmPlacementInit hplace with hplace | hplace | hplace | ⟨rfl, -⟩
  · rw [hdgma] at hplace
    cases hplace
  · exact (vramPlaces_mem place hplace).2.2
  · exact (otherPlaces_mem place hplace).2.2
  · rfl

/-- Without places for direct GMA the places in VRAM are the first ones. -/
theorem head_mem_of_vram (hdgma : dgmaPlaces dev domain = []) {place : PinPlace}
    (hplace : place ∈ ttmPlacementInit dev domain bo) (hmem : place.mem = .vram) :
    ∃ first rest, ttmPlacementInit dev domain bo = first :: rest ∧ first.mem = .vram := by
  have hvram : place ∈ vramPlaces dev domain bo := by
    rcases mem_ttmPlacementInit hplace with h | h | h | ⟨rfl, -⟩
    · exact absurd hmem (dgmaPlaces_mem place h).2.1
    · exact h
    · exact absurd hmem (otherPlaces_mem place h).2.1
    · cases hmem
  obtain ⟨first, rest, hfirst⟩ := List.exists_cons_of_ne_nil (List.ne_nil_of_mem hvram)
  have hfirst_mem : first ∈ vramPlaces dev domain bo := by
    rw [hfirst]
    exact List.mem_cons_self
  refine ⟨first, rest ++ otherPlaces domain, ?_, (vramPlaces_mem first hfirst_mem).2.1⟩
  rw [ttmPlacementInit, hdgma, hfirst, List.nil_append, List.cons_append,
    if_neg (List.cons_ne_nil _ _)]

/-- **A refused range** leaves no flag behind exactly if there are no places for direct GMA. -/
theorem pinPlaces_refused_iff {bo' : PinBo} {e : Errno}
    (h : (pinPlaces dev bo minOffset maxOffset (ttmPlacementInit dev domain bo')).2 = some e) :
    (∀ place ∈ (pinPlaces dev bo minOffset maxOffset (ttmPlacementInit dev domain bo')).1,
      place.noEvict = false) ↔ dgmaPlaces dev domain = [] := by
  constructor
  · intro hall
    by_contra hne
    obtain ⟨first, rest, hfirst⟩ := List.exists_cons_of_ne_nil hne
    have hflag := (dgmaPlaces_mem first (hfirst ▸ List.mem_cons_self)).2.2
    rw [ttmPlacementInit, hfirst, List.cons_append, if_neg (List.cons_ne_nil _ _),
      pinPlaces] at hall
    split_ifs at hall
    · exact absurd (hall first List.mem_cons_self) (by simp [hflag])
    · exact absurd (hall _ List.mem_cons_self) (by simp [PinPlace.pin])
  · intro hdgma
    obtain ⟨place, hplace, hrefused⟩ := exists_refused h
    have hmem : place.mem = .vram := by
      simp only [PinPlace.refused, Bool.and_eq_true, decide_eq_true_eq] at hrefused
      exact hrefused.1.1.1
    obtain ⟨first, rest, hinit, hfirst⟩ := head_mem_of_vram hdgma hplace hmem
    have hnone : ∀ place ∈ ttmPlacementInit dev domain bo', place.noEvict = false :=
      ttmPlacementInit_noEvict hdgma
    rw [hinit] at hnone ⊢
    rwa [pinPlaces, if_pos (refused_of_mem_eq hfirst hrefused)]

end Places

/-! ## Calls -/

/-- The counters of the device. -/
structure PinSizes where
  vramPinSize : ℤ
  invisiblePinSize : ℤ
  gartPinSize : ℤ

/-- How a buffer object is moved for a pin. -/
inductive PinAnswer
  | placed (mem : MemType)
  | validateFails (e : Errno)
  /-- moved, but not bound -/
  | bindFails (mem : MemType) (e : Errno)

/-- Where the buffer object is moved to. -/
def PinAnswer.mem : PinAnswer → Option MemType
  | placed mem => some mem
  | validateFails _ => none
  | bindFails mem _ => some mem

/-- The counters after a pin. -/
def PinSizes.pin (sizes : PinSizes) (domain : BitVec 32) (bo : PinBo) : PinSizes :=
  if domain = memTypeToDomain .vram then
    { sizes with
      vramPinSize := sizes.vramPinSize + bo.size
      invisiblePinSize := if bo.noCpuAccess then sizes.invisiblePinSize + bo.size
        else sizes.invisiblePinSize }
  else if domain = memTypeToDomain .tt then
    { sizes with gartPinSize := sizes.gartPinSize + bo.size }
  else sizes

/-- The counters after an unpin. -/
def PinSizes.unpin (sizes : PinSizes) (bo : PinBo) : PinSizes :=
  if bo.memType = .vram then
    { sizes with
      vramPinSize := sizes.vramPinSize - bo.size
      invisiblePinSize := if bo.noCpuAccess then sizes.invisiblePinSize - bo.size
        else sizes.invisiblePinSize }
  else if bo.memType = .tt then { sizes with gartPinSize := sizes.gartPinSize - bo.size }
  else sizes

section Calls

variable (dev : PinDevice) (bo : PinBo) (sizes : PinSizes) (domain : BitVec 32)
  (minOffset maxOffset : BitVec 64)

/-- The places of the domain for a contiguous buffer object. -/
def pinInit : List PinPlace := ttmPlacementInit dev domain { bo with vramContiguous := true }

/-- `amdgpu_bo_pin_restricted` -/
def boPinRestricted (answer : PinAnswer) : Outcome (PinBo × PinSizes) :=
  if bo.usermm then .ret (bo, sizes) (some .EPERM)
  else if maxOffset < minOffset then .ret (bo, sizes) (some .EINVAL)
  else if bo.pinCount ≠ 0 then
    if domain ≠ memTypeToDomain bo.memType then .ret (bo, sizes) (some .EINVAL)
    else .ret ({ bo with pinCount := bo.pinCount + 1 }, sizes) none
  else
    let places := pinPlaces dev bo minOffset maxOffset (pinInit dev bo domain)
    let bo := { bo with
      vramContiguous := true, places := places.1, places_ne := pinPlaces_ne ttmPlacementInit_ne }
    match places.2 with
    | some e => .ret (bo, sizes) (some e)
    | none =>
      match answer with
      | .validateFails e => .ret (bo, sizes) (some e)
      | .bindFails mem e => .ret ({ bo with memType := mem }, sizes) (some e)
      | .placed mem => .ret ({ bo with memType := mem, pinCount := 1 }, sizes.pin domain bo) none

/-- `amdgpu_bo_unpin`, where `ttm_bo_validate` returns `r` -/
def boUnpin (r : Option Errno) : Outcome (PinBo × PinSizes) :=
  if bo.pinCount = 0 then .ret (bo, sizes) none
  else
    let bo := { bo with pinCount := bo.pinCount - 1 }
    if bo.pinCount ≠ 0 then .ret (bo, sizes) none
    else
      let bo := { bo with
        places := bo.places.map fun place => { place with lpfn := 0, noEvict := false }
        places_ne := fun h => bo.places_ne (List.map_eq_nil_iff.mp h) }
      if r ≠ none then .ret (bo, sizes) r else .ret (bo, sizes.unpin bo) none

end Calls

/-- The buffer objects of a device and its counters. -/
structure PinState where
  bos : List PinBo
  sizes : PinSizes

inductive PinOp
  | pin (i : ℕ) (domain : BitVec 32) (minOffset maxOffset : BitVec 64) (answer : PinAnswer)
  | unpin (i : ℕ) (r : Option Errno)

namespace PinState

/-- The state after a call for the buffer object at `i`. -/
def put (s : PinState) (i : ℕ) (call : PinBo × PinSizes) : PinState :=
  ⟨s.bos.set i call.1, call.2⟩

/-- A call; buffer objects are moved to one of their places. -/
def step (dev : PinDevice) (s : PinState) : PinOp → Option PinState
  | .pin i domain minOffset maxOffset answer =>
    match s.bos[i]? with
    | none => none
    | some bo =>
      if ∀ mem ∈ answer.mem, mem ∈ (pinInit dev bo domain).map (·.mem) then
        some (s.put i (boPinRestricted dev bo s.sizes domain minOffset maxOffset answer).state)
      else none
  | .unpin i r =>
    match s.bos[i]? with
    | none => none
    | some bo => some (s.put i (boUnpin bo s.sizes r).state)

end PinState

/-! ## What is right -/

/-- The counters as one. -/
def PinSizes.triple (sizes : PinSizes) : ℤ × ℤ × ℤ :=
  (sizes.vramPinSize, sizes.invisiblePinSize, sizes.gartPinSize)

namespace PinBo

/-- What a buffer object pins in VRAM, in VRAM that the CPU does not access and in GTT when it is in
a memory. -/
def pinnedIn (bo : PinBo) : MemType → ℤ × ℤ × ℤ
  | .vram => (bo.size, if bo.noCpuAccess then bo.size else 0, 0)
  | .tt => (0, 0, bo.size)
  | _ => 0

/-- What a buffer object has pinned. -/
def pinned (bo : PinBo) : ℤ × ℤ × ℤ := if bo.pinCount = 0 then 0 else bo.pinnedIn bo.memType

/-- The places have the no-evict flag exactly if the pin count is not `0`. -/
def FlagsRight (bo : PinBo) : Prop := ∀ place ∈ bo.places, place.noEvict = decide (bo.pinCount ≠ 0)

instance (bo : PinBo) : Decidable bo.FlagsRight := inferInstanceAs (Decidable (∀ _ ∈ _, _))

end PinBo

/-- The counters are the sums of what is pinned, and the flags are right. -/
structure PinState.Right (s : PinState) : Prop where
  sizes : s.sizes.triple = tally PinBo.pinned s.bos
  flags : ∀ bo ∈ s.bos, bo.FlagsRight

/-- A pin that keeps the state right: the pin count does not wrap around, the range is refused only
if no place is for direct GMA, and otherwise the buffer object is moved and bound, and to VRAM or to
GTT only if that is the whole domain. -/
def PinBo.MayPin (bo : PinBo) (dev : PinDevice) (domain : BitVec 32)
    (minOffset maxOffset : BitVec 64) (answer : PinAnswer) : Prop :=
  bo.usermm = false → minOffset ≤ maxOffset →
    if bo.pinCount ≠ 0 then domain = memTypeToDomain bo.memType → bo.pinCount + 1 ≠ 0
    else
      match (pinPlaces dev bo minOffset maxOffset (pinInit dev bo domain)).2 with
      | some _ => dgmaPlaces dev domain = []
      | none =>
        match answer with
        | .placed mem => mem = .vram ∨ mem = .tt → domain = memTypeToDomain mem
        | .validateFails _ => False
        | .bindFails _ _ => False

/-- An unpin that keeps the state right: the last pin of a buffer object in VRAM or GTT does not
fail. -/
def PinBo.MayUnpin (bo : PinBo) (r : Option Errno) : Prop :=
  bo.pinCount = 1 → bo.memType = .vram ∨ bo.memType = .tt → r = none

/-- The calls that keep the state right. -/
def PinOp.Careful (dev : PinDevice) (s : PinState) : PinOp → Prop
  | .pin i domain minOffset maxOffset answer =>
    ∀ bo ∈ s.bos[i]?, bo.MayPin dev domain minOffset maxOffset answer
  | .unpin i r => ∀ bo ∈ s.bos[i]?, bo.MayUnpin r

/-! ## One call -/

/-- The part of a call in what is right: the counters change as the pinned sizes do, and the flags
of the buffer object are right. -/
def PinBo.KeptRight (bo : PinBo) (sizes : PinSizes) (call : PinBo × PinSizes) : Prop :=
  call.2.triple + bo.pinned = sizes.triple + call.1.pinned ∧ call.1.FlagsRight

theorem PinState.Right.put_iff {s : PinState} (h : s.Right) {i : ℕ} {bo : PinBo}
    (hi : s.bos[i]? = some bo) (call : PinBo × PinSizes) :
    (s.put i call).Right ↔ bo.KeptRight s.sizes call := by
  have htally := tally_set PinBo.pinned hi call.1
  constructor
  · rintro ⟨hsizes, hflags⟩
    refine ⟨?_, hflags _ (List.mem_set (List.getElem?_eq_some_iff.mp hi).1 _)⟩
    rw [show call.2.triple = tally PinBo.pinned (s.bos.set i call.1) from hsizes, htally, h.sizes]
  · rintro ⟨hsizes, hflags⟩
    refine ⟨?_, fun b hb => ?_⟩
    · have heq : call.2.triple + bo.pinned =
          tally PinBo.pinned (s.bos.set i call.1) + bo.pinned := by rw [htally, hsizes, h.sizes]
      exact add_right_cancel heq
    · rcases List.mem_or_eq_of_mem_set hb with hb | rfl
      · exact h.flags b hb
      · exact hflags

section Call

variable {dev : PinDevice} {bo : PinBo} {sizes : PinSizes} {domain : BitVec 32}
  {minOffset maxOffset : BitVec 64} {answer : PinAnswer}

theorem PinBo.KeptRight.refl (hflags : bo.FlagsRight) : bo.KeptRight sizes (bo, sizes) :=
  ⟨rfl, hflags⟩

/-- A domain of one memory type has only the bit of this type. -/
theorem eq_of_inDomain {mem mem' : MemType} (h : inDomain (memTypeToDomain mem) mem') :
    mem' = mem := by
  cases mem <;> cases mem' <;> first | rfl | exact absurd h (by decide)

/-- A buffer object that is pinned for VRAM or for GTT alone is there. -/
theorem mem_of_domain {mem mem' : MemType} (hmem : mem ∈ (pinInit dev bo domain).map (·.mem))
    (hdomain : domain = memTypeToDomain mem') (hmem' : mem' = .vram ∨ mem' = .tt) :
    mem = mem' := by
  obtain ⟨place, hplace, rfl⟩ := List.mem_map.mp hmem
  rw [hdomain] at hplace
  rcases mem_ttmPlacementInit hplace with h | h | h | ⟨-, hvram, htt⟩
  · exact eq_of_inDomain (dgmaPlaces_mem place h).1
  · obtain ⟨hin, heq, -⟩ := vramPlaces_mem place h
    exact heq.trans (eq_of_inDomain hin)
  · exact eq_of_inDomain (otherPlaces_mem place h).1
  · rcases hmem' with rfl | rfl
    · exact absurd hvram (by decide)
    · exact absurd htt (by decide)

/-- Only in VRAM and in GTT anything is counted. -/
theorem PinBo.pinnedIn_eq_zero_iff {mem : MemType} :
    bo.pinnedIn mem = 0 ↔ ¬ (mem = .vram ∨ mem = .tt) := by
  have hpos := bo.size_pos.ne'
  cases mem <;> simp [PinBo.pinnedIn, hpos]

/-- The counters of a pin count what is pinned, exactly if VRAM or GTT is the whole domain. -/
theorem triple_pin_iff {mem : MemType}
    (hmem : ∀ mem', domain = memTypeToDomain mem' → mem' = .vram ∨ mem' = .tt → mem = mem') :
    (sizes.pin domain bo).triple = sizes.triple + bo.pinnedIn mem ↔
      (mem = .vram ∨ mem = .tt → domain = memTypeToDomain mem) := by
  rw [PinSizes.pin]
  by_cases hvram : domain = memTypeToDomain .vram
  · obtain rfl := hmem .vram hvram (.inl rfl)
    refine iff_of_true ?_ fun _ => hvram
    rw [if_pos hvram]
    cases hcpu : bo.noCpuAccess <;> simp [PinSizes.triple, PinBo.pinnedIn, hcpu]
  · rw [if_neg hvram]
    by_cases htt : domain = memTypeToDomain .tt
    · obtain rfl := hmem .tt htt (.inr rfl)
      refine iff_of_true ?_ fun _ => htt
      rw [if_pos htt]
      simp [PinSizes.triple, PinBo.pinnedIn]
    · rw [if_neg htt, left_eq_add, PinBo.pinnedIn_eq_zero_iff]
      refine ⟨fun h hmem' => absurd hmem' h, fun h hmem' => ?_⟩
      rcases hmem' with rfl | rfl
      · exact hvram (h (.inl rfl))
      · exact htt (h (.inr rfl))

/-- The counters of an unpin no longer count what was pinned. -/
theorem triple_unpin : (sizes.unpin bo).triple + bo.pinnedIn bo.memType = sizes.triple := by
  rw [PinSizes.unpin]
  cases hmem : bo.memType <;> cases hcpu : bo.noCpuAccess <;>
    simp [PinSizes.triple, PinBo.pinnedIn, hcpu]

/-- A further pin keeps the state right if and only if the pin count does not wrap around. -/
theorem boPinAgain_kept_iff (hflags : bo.FlagsRight) (hpin : bo.pinCount ≠ 0) :
    bo.KeptRight sizes ({ bo with pinCount := bo.pinCount + 1 }, sizes) ↔ bo.pinCount + 1 ≠ 0 := by
  constructor
  · intro h hzero
    obtain ⟨place, hplace⟩ := List.exists_mem_of_ne_nil _ bo.places_ne
    have hbefore := hflags place hplace
    have hafter : place.noEvict = decide (bo.pinCount + 1 ≠ 0) := h.2 place hplace
    rw [hafter, decide_eq_true hpin, hzero] at hbefore
    cases hbefore
  · intro hne
    refine ⟨?_, fun place hplace => ?_⟩
    · rw [PinBo.pinned, if_neg hpin, PinBo.pinned, if_neg hne]
      rfl
    · rw [hflags place hplace, decide_eq_true hpin]
      exact (decide_eq_true hne).symm

/-- A call that leaves a buffer object unpinned must leave it without flags. -/
theorem keptRight_unpinned_iff {bo' : PinBo} (h : bo.pinCount = 0) (h' : bo'.pinCount = 0) :
    bo.KeptRight sizes (bo', sizes) ↔ ∀ place ∈ bo'.places, place.noEvict = false := by
  have hpinned : bo.pinned = 0 := if_pos h
  have hpinned' : bo'.pinned = 0 := if_pos h'
  rw [PinBo.KeptRight, hpinned, hpinned', and_iff_right rfl]
  refine forall₂_congr fun place _ => ?_
  rw [h', decide_eq_false (not_not.mpr rfl)]

/-- **A pin** keeps the state right if and only if it is careful. -/
theorem boPinRestricted_kept_iff (hflags : bo.FlagsRight)
    (hmem : ∀ mem ∈ answer.mem, mem ∈ (pinInit dev bo domain).map (·.mem)) :
    bo.KeptRight sizes (boPinRestricted dev bo sizes domain minOffset maxOffset answer).state ↔
      bo.MayPin dev domain minOffset maxOffset answer := by
  rw [boPinRestricted, PinBo.MayPin.eq_def]
  by_cases husermm : bo.usermm
  · rw [if_pos husermm]
    exact iff_of_true (.refl hflags) fun h => (by simp [husermm] at h)
  rw [if_neg husermm]
  by_cases hrange : maxOffset < minOffset
  · rw [if_pos hrange]
    exact iff_of_true (.refl hflags) fun _ h => absurd hrange (BitVec.not_lt.mpr h)
  rw [if_neg hrange, forall_prop_of_true (by simpa using husermm),
    forall_prop_of_true (BitVec.not_lt.mp hrange)]
  by_cases hpin : bo.pinCount ≠ 0
  · rw [if_pos hpin, if_pos hpin]
    by_cases hdomain : domain = memTypeToDomain bo.memType
    · rw [if_neg (not_not.mpr hdomain), forall_prop_of_true hdomain]
      exact boPinAgain_kept_iff hflags hpin
    · rw [if_pos hdomain]
      exact iff_of_true (.refl hflags) fun h => absurd h hdomain
  rw [if_neg hpin, if_neg hpin]
  have hzero : bo.pinCount = 0 := not_not.mp hpin
  dsimp only
  cases hplaces : (pinPlaces dev bo minOffset maxOffset (pinInit dev bo domain)).2 with
  | some e =>
    refine Iff.trans (keptRight_unpinned_iff hzero ?_) (pinPlaces_refused_iff hplaces)
    exact hzero
  | none =>
    -- all places have the flag now, and there is one
    have hset := pinPlaces_noEvict hplaces
    have hne : (pinPlaces dev bo minOffset maxOffset (pinInit dev bo domain)).1 ≠ [] :=
      pinPlaces_ne ttmPlacementInit_ne
    obtain ⟨place, hplace⟩ := List.exists_mem_of_ne_nil _ hne
    have hfails : place.noEvict ≠ false := by
      rw [hset place hplace]
      exact Bool.noConfusion
    cases answer with
    | validateFails e =>
      refine iff_of_false (fun h => hfails ?_) id
      exact (keptRight_unpinned_iff hzero (by exact hzero)).mp h place hplace
    | bindFails mem e =>
      refine iff_of_false (fun h => hfails ?_) id
      exact (keptRight_unpinned_iff hzero (by exact hzero)).mp h place hplace
    | placed mem =>
      have hpinned : bo.pinned = 0 := if_pos hzero
      have hcount : (sizes.pin domain bo).triple = sizes.triple + bo.pinnedIn mem ↔ _ :=
        triple_pin_iff fun mem' => mem_of_domain (hmem mem rfl)
      rw [PinBo.KeptRight, hpinned, add_zero]
      exact (and_iff_left hset).trans hcount

/-- **An unpin** keeps the state right if and only if it is careful. -/
theorem boUnpin_kept_iff (hflags : bo.FlagsRight) (r : Option Errno) :
    bo.KeptRight sizes (boUnpin bo sizes r).state ↔ bo.MayUnpin r := by
  rw [boUnpin, PinBo.MayUnpin]
  by_cases hzero : bo.pinCount = 0
  · rw [if_pos hzero]
    exact iff_of_true (.refl hflags) fun h => absurd (hzero.symm.trans h) (by decide)
  rw [if_neg hzero]
  have hpinned : bo.pinned = bo.pinnedIn bo.memType := if_neg hzero
  by_cases hone : bo.pinCount = 1
  · have hlast : bo.pinCount - 1 = 0 := by
      rw [hone]
      rfl
    have hflags' : ∀ place ∈ bo.places.map fun place => { place with lpfn := 0, noEvict := false },
        place.noEvict = decide (bo.pinCount - 1 ≠ 0) := by
      intro place hplace
      obtain ⟨place', -, rfl⟩ := List.mem_map.mp hplace
      exact (decide_eq_false (not_not.mpr hlast)).symm
    rw [if_neg (not_not.mpr hlast), forall_prop_of_true hone]
    cases r with
    | some e =>
      rw [if_pos (by simp)]
      refine (and_iff_left hflags').trans ?_
      change sizes.triple + bo.pinned =
        sizes.triple + (if bo.pinCount - 1 = 0 then 0 else bo.pinnedIn bo.memType) ↔ _
      rw [hpinned, if_pos hlast, add_zero, add_eq_left, PinBo.pinnedIn_eq_zero_iff]
      exact ⟨fun h h' => absurd h' h, fun h h' => (by cases h h')⟩
    | none =>
      rw [if_neg (by simp)]
      refine iff_of_true ⟨?_, hflags'⟩ fun _ => rfl
      change (sizes.unpin bo).triple + bo.pinned =
        sizes.triple + (if bo.pinCount - 1 = 0 then 0 else bo.pinnedIn bo.memType)
      rw [hpinned, if_pos hlast, add_zero]
      exact triple_unpin
  · have hmore : bo.pinCount - 1 ≠ 0 := by
      intro h
      exact hone (by bv_omega)
    rw [if_pos hmore]
    refine iff_of_true ⟨?_, fun place hplace => ?_⟩ fun h => absurd h hone
    · change sizes.triple + bo.pinned =
        sizes.triple + (if bo.pinCount - 1 = 0 then 0 else bo.pinnedIn bo.memType)
      rw [hpinned, if_neg hmore]
    · rw [hflags place hplace, decide_eq_true hzero]
      exact (decide_eq_true hmore).symm

end Call

/-- **A call** keeps the state right if and only if it is careful. -/
theorem PinState.Right.step_iff {dev : PinDevice} {s t : PinState} {op : PinOp} (h : s.Right)
    (hs : s.step dev op = some t) : t.Right ↔ op.Careful dev s := by
  cases op with
  | pin i domain minOffset maxOffset answer =>
    rw [PinState.step] at hs
    rw [PinOp.Careful]
    cases hi : s.bos[i]? with
    | none => rw [hi] at hs; cases hs
    | some bo =>
      rw [hi] at hs
      dsimp only at hs
      split_ifs at hs with hmem
      cases hs
      have hflags := h.flags bo (List.mem_of_getElem? hi)
      rw [h.put_iff hi, boPinRestricted_kept_iff hflags hmem]
      simp
  | unpin i r =>
    rw [PinState.step] at hs
    rw [PinOp.Careful]
    cases hi : s.bos[i]? with
    | none => rw [hi] at hs; cases hs
    | some bo =>
      rw [hi] at hs
      cases hs
      have hflags := h.flags bo (List.mem_of_getElem? hi)
      rw [h.put_iff hi, boUnpin_kept_iff hflags r]
      simp

/-- **Pinned sizes.** From a right state on, after each call of a run the counters are the sums of
the pinned sizes and the flags tell what is pinned, if and only if all calls are careful. -/
theorem pins_right_iff {dev : PinDevice} {s t : PinState} {ops : List PinOp} (hs : s.Right)
    (hrun : Run (fun s op t => PinState.step dev s op = some t) s ops t) :
    (∀ ops₁ ops₂ u, ops = ops₁ ++ ops₂ →
        Run (fun s op t => PinState.step dev s op = some t) s ops₁ u → u.Right) ↔
      Run (Guarded (fun s op t => PinState.step dev s op = some t) fun s op => op.Careful dev s)
        s ops t :=
  Run.forall_states_iff PinState.Right PinState.Right (fun _ h => h)
    (fun _ _ _ h hstep => ⟨(h.step_iff hstep).mpr, (h.step_iff hstep).mp⟩) hrun hs

/-- 256 MiB of VRAM, all of it visible. -/
def pinDevice : PinDevice := ⟨0x10000000, 0x10000000, false⟩

/-- A buffer object of one page in GTT. -/
def pinBo : PinBo where
  size := 4096
  size_pos := Nat.succ_pos _
  usermm := false
  noCpuAccess := false
  cpuAccessRequired := false
  vramContiguous := false
  pinCount := 0
  memType := .tt
  places := [⟨0, 0, .tt, false⟩]
  places_ne := List.cons_ne_nil _ _

/-- One buffer object, and nothing pinned. -/
def pinState : PinState := ⟨[pinBo], ⟨0, 0, 0⟩⟩

theorem pinState_right : pinState.Right := ⟨by decide, by decide⟩

/-- A page is pinned twice in VRAM and unpinned twice. -/
theorem pins_right_iff_twice :
    ∃ t : PinState, t.sizes.triple = (0, 0, 0) ∧
      ∀ ops₁ ops₂ u, ([.pin 0 4 0 0 (.placed .vram), .pin 0 4 0 0 (.placed .vram), .unpin 0 none,
          .unpin 0 none] : List PinOp) = ops₁ ++ ops₂ →
        Run (fun s op t => PinState.step pinDevice s op = some t) pinState ops₁ u → u.Right := by
  have hrun : ∃ t, Run (Guarded (fun s op t => PinState.step pinDevice s op = some t)
      fun s op => op.Careful pinDevice s) pinState
      [.pin 0 4 0 0 (.placed .vram), .pin 0 4 0 0 (.placed .vram), .unpin 0 none, .unpin 0 none] t ∧
        t.sizes.triple = (0, 0, 0) := by
    refine ⟨_, .cons ⟨rfl, ?_⟩ <| .cons ⟨rfl, ?_⟩ <| .cons ⟨rfl, fun _ _ _ _ => rfl⟩ <|
      .single ⟨rfl, fun _ _ _ _ => rfl⟩, by decide⟩
    · rintro bo ⟨⟩ - - -
      rfl
    · rintro bo ⟨⟩ - - -
      decide
  obtain ⟨t, hguarded, hsizes⟩ := hrun
  have hplain := hguarded.mono fun _ _ _ h => h.1
  exact ⟨t, hsizes, (pins_right_iff pinState_right hplain).mpr hguarded⟩

/-- Pinning fails, for lack of VRAM say: the places keep the no-evict flag while nothing is pinned.
And when the last unpin fails, the page stays counted. -/
theorem pins_wrong :
    (∃ t, Run (fun s op t => PinState.step pinDevice s op = some t) pinState
        [.pin 0 4 0 0 (.validateFails .ENOMEM)] t ∧
      ∃ bo ∈ t.bos, bo.pinCount = 0 ∧ ∃ place ∈ bo.places, place.noEvict = true) ∧
    ∃ t, Run (fun s op t => PinState.step pinDevice s op = some t) pinState
        [.pin 0 4 0 0 (.placed .vram), .unpin 0 (some .ENOMEM)] t ∧
      t.sizes.vramPinSize = 4096 ∧ ∀ bo ∈ t.bos, bo.pinCount = 0 := by
  refine ⟨⟨_, .single rfl, ?_⟩, _, .cons rfl (.single rfl), ?_⟩
  · decide
  · decide

end Amdgpu
