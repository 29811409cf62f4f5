import AmdgpuPro.Kernel
import AmdgpuPro.Lib.Transition
import Mathlib.Data.List.Basic

set_option autoImplicit false

/-!
# UVD messages and the table of sessions

A UVD session has a handle that its user chooses. A create message takes a slot of the device's
table for the handle, a decode message is checked against the table and brings the sizes of the
buffers it needs, a destroy message gives the slot back, and a closed file gives all of its slots
back (`amdgpu_uvd_cs_msg`, `amdgpu_uvd_cs_msg_decode` and `amdgpu_uvd_free_handles`).

## Main definitions

* `Amdgpu.uvdCsMsgDecode` — the sizes a decode message asks for.
* `uvdCsMsg`, `uvdFreeHandles` — messages and closed files.
* `UvdUnique`, `UvdForeignKept` — no handle has two slots, and an event leaves the slots of other
  files alone.
* `UvdEvent.Careful` — a new handle has no slot behind the first free one, and a destroyed handle
  has no slot of another file.

## Main results

* `Amdgpu.uvdStep_safe_iff` — on a table without duplicates the careful events are those that keep
  it so and that leave the slots of other files alone.
* `uvd_sessions` — the same in every run of careful events.

## Design

The table is a list of slots, `max_handles` long. The scans for a free slot and for the slot of
a handle are recursions over it. A message is its dwords, where the kernel found it, and whether
it could be mapped.
-/

namespace Amdgpu

/-! ## Decode messages -/

/-- `ALIGN(x, a)` of 32 bit numbers, for a power of two `a` -/
def align32 (x a : BitVec 32) : BitVec 32 := (x + (a - 1)) &&& ~~~(a - 1)

/-- `buf_sizes`: the least size of the buffer of each kind of command. -/
abbrev UvdBufSizes := ℕ → BitVec 32

/-- `buf_sizes` at the start of a command buffer. -/
def uvdBufSizes : UvdBufSizes
  | 0 => 2048
  | 3 => 2048
  | _ => 0xffffffff

/-- What the `switch` of `amdgpu_uvd_cs_msg_decode` leaves in its variables. -/
structure UvdFrameSizes where
  imageSize : BitVec 32
  minDpbSize : BitVec 32
  /-- `~0` where the codec needs no context buffer -/
  minCtxSize : BitVec 32

/-- The macroblocks an H.264 level allows in the reference pictures. -/
def h264LevelMbs (level : BitVec 32) : BitVec 32 :=
  if level = 30 then 8100
  else if level = 31 then 18000
  else if level = 32 then 20480
  else if level = 41 then 32768
  else if level = 42 then 34816
  else if level = 50 then 110400
  else 184320

/-- `num_dpb_buffer` of H.264 -/
def h264NumDpbBuffer (level fsInMb : BitVec 32) : BitVec 32 :=
  let numDpbBuffer := h264LevelMbs level / fsInMb + 1
  if numDpbBuffer > 17 then 17 else numDpbBuffer

/-- The image size of the codecs before H.265. -/
def uvdImageSize (width height : BitVec 32) : BitVec 32 :=
  align32 (width * height + width * height / 2) 1024

/-- The sizes of H.264, with a context buffer of its own if `ctxBuf`; `none` is the division by
a frame of no macroblocks. -/
def h264Sizes (ctxBuf : Bool) (level width height : BitVec 32) : Option UvdFrameSizes :=
  let widthInMb := width / 16
  let heightInMb := align32 (height / 16) 2
  let imageSize := uvdImageSize width height
  let numDpbBuffer := h264NumDpbBuffer level (widthInMb * heightInMb)
  if widthInMb * heightInMb = 0 then none
  else if ctxBuf then
    some ⟨imageSize, imageSize * numDpbBuffer, widthInMb * heightInMb * numDpbBuffer * 192⟩
  else
    some ⟨imageSize, imageSize * numDpbBuffer + widthInMb * heightInMb * numDpbBuffer * 192 +
      widthInMb * heightInMb * 32, ~~~0⟩

/-- The sizes of VC-1. -/
def vc1Sizes (width height : BitVec 32) : UvdFrameSizes :=
  let widthInMb := width / 16
  let heightInMb := align32 (height / 16) 2
  let imageSize := uvdImageSize width height
  let tmp := if widthInMb > heightInMb then widthInMb else heightInMb
  ⟨imageSize, imageSize * 3 + widthInMb * heightInMb * 128 + widthInMb * 64 + widthInMb * 128 +
    align32 (tmp * 7 * 16) 64, ~~~0⟩

/-- The sizes of MPEG-2. -/
def mpeg2Sizes (width height : BitVec 32) : UvdFrameSizes :=
  ⟨uvdImageSize width height, uvdImageSize width height * 3, ~~~0⟩

/-- The sizes of MPEG-4. -/
def mpeg4Sizes (width height : BitVec 32) : UvdFrameSizes :=
  let widthInMb := width / 16
  let heightInMb := align32 (height / 16) 2
  let imageSize := uvdImageSize width height
  ⟨imageSize, imageSize * 3 + widthInMb * heightInMb * 64 +
    align32 (widthInMb * heightInMb * 32) 64, ~~~0⟩

/-- The sizes of H.265. -/
def h265Sizes (numRefs width height : BitVec 32) : UvdFrameSizes :=
  let imageSize := align32 (align32 width 16 * align32 height 16 * 3 / 2) 256
  let numDpbBuffer := (numRefs &&& 0xff) + 2
  ⟨imageSize, imageSize * numDpbBuffer,
    (width + 255) / 16 * ((height + 255) / 16) * 16 * numDpbBuffer + 52 * 1024⟩

/-- The `switch` over the stream type; the inner `none` is the division by zero. -/
def uvdFrameSizes (useCtxBuf : Bool) (msg : ℕ → BitVec 32) :
    Except Errno (Option UvdFrameSizes) :=
  let width := msg 6
  let height := msg 7
  if msg 4 = 0 then .ok (h264Sizes false (msg 57) width height)
  else if msg 4 = 1 then .ok (some (vc1Sizes width height))
  else if msg 4 = 3 then .ok (some (mpeg2Sizes width height))
  else if msg 4 = 4 then .ok (some (mpeg4Sizes width height))
  else if msg 4 = 7 then .ok (h264Sizes useCtxBuf (msg 57) width height)
  else if msg 4 = 16 then .ok (some (h265Sizes (msg 59) width height))
  else .error .EINVAL

/-- `amdgpu_uvd_cs_msg_decode`: the pitch and the size of the reference picture buffer of the
message are checked, and the sizes of its buffers are recorded. -/
def uvdCsMsgDecode (useCtxBuf : Bool) (msg : ℕ → BitVec 32) (bufSizes : UvdBufSizes) :
    Outcome UvdBufSizes :=
  match uvdFrameSizes useCtxBuf msg with
  | .error e => .ret bufSizes (some e)
  | .ok none => .bug bufSizes
  | .ok (some sizes) =>
    if msg 6 > msg 28 then .ret bufSizes (some .EINVAL)
    else if msg 9 < sizes.minDpbSize then .ret bufSizes (some .EINVAL)
    else
      .ret (Function.update (Function.update (Function.update bufSizes 1 (msg 9))
        2 sizes.imageSize) 4 sizes.minCtxSize) none

/-! ## The table -/

/-- `handles[i]` and `filp[i]` of the device -/
structure UvdSlot where
  handle : BitVec 32
  filp : Option ℕ
  deriving DecidableEq

/-- A slot nobody used yet. -/
def UvdSlot.free : UvdSlot := ⟨0, none⟩

/-- The scan of a create message: the handle must not be found, and goes to the first free
slot. -/
def uvdClaimHandle (handle : BitVec 32) (filp : ℕ) :
    List UvdSlot → List UvdSlot × Option Errno
  | [] => ([], some .ENOSPC)
  | slot :: slots =>
    if slot.handle = handle then (slot :: slots, some .EINVAL)
    else if slot.handle = 0 then (⟨handle, some filp⟩ :: slots, none)
    else
      let (slots', r) := uvdClaimHandle handle filp slots
      (slot :: slots', r)

/-- The scan of a decode message: the first slot with the handle must belong to the file. -/
def uvdValidateHandle (handle : BitVec 32) (filp : ℕ) (slots : List UvdSlot) : Option Errno :=
  match slots.find? (·.handle = handle) with
  | some slot => if slot.filp ≠ some filp then some .EINVAL else none
  | none => some .ENOENT

/-- The scan of a destroy message. -/
def uvdReleaseHandle (handle : BitVec 32) (slots : List UvdSlot) : List UvdSlot :=
  slots.map fun slot => if slot.handle = handle then { slot with handle := 0 } else slot

/-- A message, as the kernel meets it. -/
structure UvdMsg where
  /-- the offset into the buffer object -/
  offset : BitVec 32
  /-- what `amdgpu_bo_kmap` of the buffer object returns -/
  kmap : Option Errno
  words : ℕ → BitVec 32

/-- `msg[1]` -/
def UvdMsg.type (msg : UvdMsg) : BitVec 32 := msg.words 1

/-- `msg[2]` -/
def UvdMsg.handle (msg : UvdMsg) : BitVec 32 := msg.words 2

/-- What a message can change: the table of the device and the sizes of the parser. -/
structure UvdMsgState where
  slots : List UvdSlot
  bufSizes : UvdBufSizes

/-- `amdgpu_uvd_cs_msg` for a message of the file `filp`. -/
def uvdCsMsg (useCtxBuf : Bool) (filp : ℕ) (msg : UvdMsg) (st : UvdMsgState) :
    Outcome UvdMsgState :=
  if msg.offset &&& 0x3f ≠ 0 then .ret st (some .EINVAL)
  else if msg.kmap.isSome then .ret st msg.kmap
  else if msg.handle = 0 then .ret st (some .EINVAL)
  else if msg.type = 0 then
    let (slots, r) := uvdClaimHandle msg.handle filp st.slots
    .ret { st with slots := slots } r
  else if msg.type = 1 then
    match uvdCsMsgDecode useCtxBuf msg.words st.bufSizes with
    | .ret bufSizes none =>
      .ret { st with bufSizes := bufSizes } (uvdValidateHandle msg.handle filp st.slots)
    | .ret bufSizes (some e) => .ret { st with bufSizes := bufSizes } (some e)
    | .bug bufSizes => .bug { st with bufSizes := bufSizes }
  else if msg.type = 2 then .ret { st with slots := uvdReleaseHandle msg.handle st.slots } none
  else .ret st (some .EINVAL)

/-- `amdgpu_uvd_free_handles` for the file `filp`; `fails i` tells whether the destroy message
for slot `i` cannot be sent, and the slot is then kept. -/
def uvdFreeHandles (filp : ℕ) (fails : ℕ → Bool) (slots : List UvdSlot) : List UvdSlot :=
  slots.mapIdx fun i slot =>
    if slot.handle ≠ 0 ∧ slot.filp = some filp ∧ !fails i then .free else slot

/-! ## Events and what they should respect -/

/-- A message of a file, or its close. -/
inductive UvdEvent
  | msg (filp : ℕ) (m : UvdMsg)
  | close (filp : ℕ) (fails : ℕ → Bool)

/-- The file of an event. -/
def UvdEvent.filp : UvdEvent → ℕ
  | msg filp _ => filp
  | close filp _ => filp

/-- The table after an event. -/
def uvdStep (useCtxBuf : Bool) (slots : List UvdSlot) : UvdEvent → List UvdSlot
  | .msg filp m => (uvdCsMsg useCtxBuf filp m ⟨slots, uvdBufSizes⟩).state.slots
  | .close filp fails => uvdFreeHandles filp fails slots

/-- No handle occupies two slots. -/
def UvdUnique (slots : List UvdSlot) : Prop :=
  slots.Pairwise fun a b => a.handle ≠ 0 → a.handle ≠ b.handle

instance (slots : List UvdSlot) : Decidable (UvdUnique slots) :=
  inferInstanceAs (Decidable (List.Pairwise _ _))

/-- The slots that are occupied by other files than `filp` are the same in both tables. -/
def UvdForeignKept (filp : ℕ) (slots slots' : List UvdSlot) : Prop :=
  ∀ (i : ℕ) (slot : UvdSlot), slots[i]? = some slot → slot.handle ≠ 0 → slot.filp ≠ some filp →
    slots'[i]? = some slot

/-- The message gets past the checks before the `switch`. -/
def UvdMsg.Readable (msg : UvdMsg) : Prop :=
  msg.offset &&& 0x3f = 0 ∧ msg.kmap = none ∧ msg.handle ≠ 0

/-- The slots behind the first free one. -/
def slotsBehindFree (slots : List UvdSlot) : List UvdSlot :=
  (slots.dropWhile (·.handle ≠ 0)).tail

/-- A create message is for a handle without a slot behind the first free one, a destroy message
for a handle without a slot of another file. -/
def UvdEvent.Careful (slots : List UvdSlot) : UvdEvent → Prop
  | .msg filp m => m.Readable →
      (m.type = 0 → ∀ slot ∈ slotsBehindFree slots, slot.handle ≠ m.handle) ∧
      (m.type = 2 → ∀ slot ∈ slots, slot.handle = m.handle → slot.filp = some filp)
  | .close _ _ => True

/-! ## The scans -/

/-- Occupied slots in front do not change what is behind the first free slot. -/
theorem slotsBehindFree_append {pre : List UvdSlot} (rest : List UvdSlot)
    (h : ∀ slot ∈ pre, slot.handle ≠ 0) :
    slotsBehindFree (pre ++ rest) = slotsBehindFree rest := by
  rw [slotsBehindFree, List.dropWhile_append_of_pos (by simpa using h), slotsBehindFree]

theorem slotsBehindFree_cons_free {slot : UvdSlot} (rest : List UvdSlot) (h : slot.handle = 0) :
    slotsBehindFree (slot :: rest) = rest := by
  simp [slotsBehindFree, h]

theorem mem_of_mem_slotsBehindFree {slots : List UvdSlot} {slot : UvdSlot}
    (h : slot ∈ slotsBehindFree slots) : slot ∈ slots :=
  (List.dropWhile_sublist _).mem (List.mem_of_mem_tail h)

/-- The scan of a create message: it stops at the handle or at the end without a change, or
takes the first free slot. -/
inductive ClaimOutcome (handle : BitVec 32) (filp : ℕ) (slots slots' : List UvdSlot) : Prop
  | inUse (pre : List UvdSlot) (slot : UvdSlot) (post : List UvdSlot)
      (hslots : slots = pre ++ slot :: post) (hpre : ∀ s ∈ pre, s.handle ≠ 0)
      (hslot : slot.handle = handle) (heq : slots' = slots)
  | full (hfull : ∀ s ∈ slots, s.handle ≠ 0) (heq : slots' = slots)
  | claimed (pre : List UvdSlot) (slot : UvdSlot) (post : List UvdSlot)
      (hslots : slots = pre ++ slot :: post) (hpre : ∀ s ∈ pre, s.handle ≠ 0 ∧ s.handle ≠ handle)
      (hslot : slot.handle = 0) (heq : slots' = pre ++ ⟨handle, some filp⟩ :: post)

theorem uvdClaimHandle_outcome (handle : BitVec 32) (filp : ℕ) (slots : List UvdSlot) :
    ClaimOutcome handle filp slots (uvdClaimHandle handle filp slots).1 := by
  induction slots with
  | nil => exact .full (by simp) rfl
  | cons slot slots ih =>
    rw [uvdClaimHandle]
    by_cases huse : slot.handle = handle
    · rw [if_pos huse]
      exact .inUse [] slot slots rfl (by simp) huse rfl
    by_cases hfree : slot.handle = 0
    · rw [if_neg huse, if_pos hfree]
      exact .claimed [] slot slots rfl (by simp) hfree rfl
    rw [if_neg huse, if_neg hfree]
    cases ih with
    | inUse pre s post hslots hpre hs heq =>
      exact .inUse (slot :: pre) s post (by rw [hslots]; rfl)
        (List.forall_mem_cons.mpr ⟨hfree, hpre⟩) hs (congrArg (slot :: ·) heq)
    | full hfull heq =>
      exact .full (List.forall_mem_cons.mpr ⟨hfree, hfull⟩) (congrArg (slot :: ·) heq)
    | claimed pre s post hslots hpre hs heq =>
      exact .claimed (slot :: pre) s post (by rw [hslots]; rfl)
        (List.forall_mem_cons.mpr ⟨⟨hfree, huse⟩, hpre⟩) hs (congrArg (slot :: ·) heq)

/-! ## One event -/

theorem UvdForeignKept.refl (filp : ℕ) (slots : List UvdSlot) : UvdForeignKept filp slots slots :=
  fun _ _ h _ _ => h

/-- A change of each slot by itself that keeps handles or frees slots makes no duplicates. -/
theorem UvdUnique.mapIdx {slots : List UvdSlot} (h : UvdUnique slots)
    {f : ℕ → UvdSlot → UvdSlot}
    (hf : ∀ i slot, (f i slot).handle = slot.handle ∨ (f i slot).handle = 0) :
    UvdUnique (slots.mapIdx f) := by
  rw [UvdUnique, List.pairwise_iff_getElem] at h ⊢
  intro i j hi hj hij
  simp only [List.getElem_mapIdx]
  simp only [List.length_mapIdx] at hi hj
  have := h i j hi hj hij
  rcases hf i slots[i] with h1 | h1 <;> rcases hf j slots[j] with h2 | h2 <;> grind

/-- Writing the handle into a free slot. -/
theorem uvdUnique_claimed_iff {pre post : List UvdSlot} {slot : UvdSlot} {handle : BitVec 32}
    {filp : Option ℕ} (h : UvdUnique (pre ++ slot :: post)) (hhandle : handle ≠ 0)
    (hpre : ∀ s ∈ pre, s.handle ≠ handle) :
    UvdUnique (pre ++ ⟨handle, filp⟩ :: post) ↔ ∀ s ∈ post, s.handle ≠ handle := by
  simp only [UvdUnique, List.pairwise_append, List.pairwise_cons, List.mem_cons,
    forall_eq_or_imp] at h ⊢
  constructor
  · rintro ⟨-, ⟨hpost, -⟩, -⟩ s hs heq
    exact hpost s hs hhandle heq.symm
  · intro hpost
    exact ⟨h.1, ⟨fun s hs _ heq => hpost s hs heq.symm, h.2.1.2⟩,
      fun a ha => ⟨fun _ => hpre a ha, fun b hb => (h.2.2 a ha).2 b hb⟩⟩

/-- A free slot belongs to nobody. -/
theorem uvdForeignKept_claimed {pre post : List UvdSlot} {slot : UvdSlot} (slot' : UvdSlot)
    (filp : ℕ) (hslot : slot.handle = 0) :
    UvdForeignKept filp (pre ++ slot :: post) (pre ++ slot' :: post) := by
  intro i s hi hs _
  rcases Nat.lt_trichotomy i pre.length with hlt | rfl | hgt
  · rwa [List.getElem?_append_left hlt] at hi ⊢
  · rw [List.getElem?_append_right (Nat.le_refl _), Nat.sub_self, List.getElem?_cons_zero] at hi
    exact absurd (Option.some.inj hi ▸ hslot) hs
  · obtain ⟨k, rfl⟩ := Nat.exists_eq_add_of_lt hgt
    rw [List.getElem?_append_right (by omega)] at hi ⊢
    rwa [show pre.length + k + 1 - pre.length = k + 1 by omega, List.getElem?_cons_succ] at hi ⊢

/-- A create message for a handle without a slot behind the first free one, and only such a
message, keeps the table without duplicates. -/
theorem uvdClaimHandle_safe_iff {slots : List UvdSlot} (huniq : UvdUnique slots)
    {handle : BitVec 32} (hhandle : handle ≠ 0) (filp : ℕ) :
    (UvdUnique (uvdClaimHandle handle filp slots).1 ∧
        UvdForeignKept filp slots (uvdClaimHandle handle filp slots).1) ↔
      ∀ slot ∈ slotsBehindFree slots, slot.handle ≠ handle := by
  cases uvdClaimHandle_outcome handle filp slots with
  | inUse pre slot post hslots hpre hslot heq =>
    rw [heq]
    refine iff_of_true ⟨huniq, .refl filp slots⟩ fun s hs => ?_
    subst hslots
    rw [show pre ++ slot :: post = (pre ++ [slot]) ++ post by simp, slotsBehindFree_append] at hs
    · simp only [UvdUnique, List.pairwise_append, List.pairwise_cons] at huniq
      have := huniq.2.1.1 s (mem_of_mem_slotsBehindFree hs) (hslot ▸ hhandle)
      rwa [hslot, ne_comm] at this
    · simpa [or_imp, forall_and, hslot] using ⟨hpre, hhandle⟩
  | full hfull heq =>
    rw [heq]
    refine iff_of_true ⟨huniq, .refl filp slots⟩ ?_
    have hnil := slotsBehindFree_append [] hfull
    rw [List.append_nil] at hnil
    intro s hs
    rw [hnil] at hs
    cases hs
  | claimed pre slot post hslots hpre hslot heq =>
    subst hslots
    rw [heq, slotsBehindFree_append _ (fun s hs => (hpre s hs).1),
      slotsBehindFree_cons_free _ hslot,
      uvdUnique_claimed_iff huniq hhandle fun s hs => (hpre s hs).2,
      and_iff_left (uvdForeignKept_claimed _ filp hslot)]

/-- A destroy message never makes duplicates, and leaves the slots of other files alone if they
do not have its handle. -/
theorem uvdReleaseHandle_safe_iff {slots : List UvdSlot} (huniq : UvdUnique slots)
    {handle : BitVec 32} (hhandle : handle ≠ 0) (filp : ℕ) :
    (UvdUnique (uvdReleaseHandle handle slots) ∧
        UvdForeignKept filp slots (uvdReleaseHandle handle slots)) ↔
      ∀ slot ∈ slots, slot.handle = handle → slot.filp = some filp := by
  have hu : UvdUnique (uvdReleaseHandle handle slots) := by
    refine List.pairwise_map.mpr (huniq.imp fun {a b} hab => ?_)
    split <;> split <;> simp_all
  rw [and_iff_right hu]
  constructor
  · intro hkept slot hmem heq
    by_contra hfilp
    obtain ⟨i, hi⟩ := List.mem_iff_getElem?.mp hmem
    have := hkept i slot hi (heq ▸ hhandle) hfilp
    simp only [uvdReleaseHandle, List.getElem?_map, hi, Option.map_some, heq, if_true] at this
    exact hhandle (heq ▸ congrArg UvdSlot.handle (Option.some.inj this).symm)
  · intro h i slot hi _ hfilp
    have hne : slot.handle ≠ handle := fun heq => hfilp (h slot (List.mem_of_getElem? hi) heq)
    simp [uvdReleaseHandle, hi, hne]

/-- A closed file frees its own slots only. -/
theorem uvdFreeHandles_safe {slots : List UvdSlot} (huniq : UvdUnique slots) (filp : ℕ)
    (fails : ℕ → Bool) :
    UvdUnique (uvdFreeHandles filp fails slots) ∧
      UvdForeignKept filp slots (uvdFreeHandles filp fails slots) := by
  refine ⟨huniq.mapIdx fun i slot => by split <;> simp [UvdSlot.free], fun i slot hi _ hfilp => ?_⟩
  simp [uvdFreeHandles, List.getElem?_mapIdx, hi, hfilp]

/-- A message that does not get past the checks before the `switch` changes no slot. -/
theorem uvdStep_of_not_readable (useCtxBuf : Bool) (filp : ℕ) {m : UvdMsg}
    (slots : List UvdSlot) (h : ¬ m.Readable) : uvdStep useCtxBuf slots (.msg filp m) = slots := by
  rw [uvdStep, uvdCsMsg]
  by_cases hoff : m.offset &&& 0x3f ≠ 0
  · rw [if_pos hoff, Outcome.state_ret]
  by_cases hkmap : m.kmap.isSome
  · rw [if_neg hoff, if_pos hkmap, Outcome.state_ret]
  by_cases hhandle : m.handle = 0
  · rw [if_neg hoff, if_neg hkmap, if_pos hhandle, Outcome.state_ret]
  exact absurd ⟨not_not.mp hoff, by simpa using hkmap, hhandle⟩ h

/-- What the types of messages do to the table. -/
theorem uvdStep_of_readable (useCtxBuf : Bool) (filp : ℕ) {m : UvdMsg} (slots : List UvdSlot)
    (h : m.Readable) : uvdStep useCtxBuf slots (.msg filp m) =
      if m.type = 0 then (uvdClaimHandle m.handle filp slots).1
      else if m.type = 2 then uvdReleaseHandle m.handle slots
      else slots := by
  rw [uvdStep, uvdCsMsg, if_neg (not_not.mpr h.1), if_neg (by simp [h.2.1]), if_neg h.2.2]
  by_cases hcreate : m.type = 0
  · rw [if_pos hcreate, if_pos hcreate, Outcome.state_ret]
  rw [if_neg hcreate, if_neg hcreate]
  by_cases hdecode : m.type = 1
  · rw [if_pos hdecode, if_neg (by rw [hdecode]; decide)]
    rcases uvdCsMsgDecode useCtxBuf m.words uvdBufSizes with ⟨s, _ | e⟩ | s <;> rfl
  rw [if_neg hdecode]
  split_ifs <;> rfl

/-- **One event.** On a table without duplicates, the careful events are those that make no
duplicate and that leave the slots of other files alone. -/
theorem uvdStep_safe_iff (useCtxBuf : Bool) {slots : List UvdSlot} (huniq : UvdUnique slots)
    (e : UvdEvent) :
    (UvdUnique (uvdStep useCtxBuf slots e) ∧
        UvdForeignKept e.filp slots (uvdStep useCtxBuf slots e)) ↔ e.Careful slots := by
  cases e with
  | close filp fails => exact iff_of_true (uvdFreeHandles_safe huniq filp fails) trivial
  | msg filp m =>
    rw [UvdEvent.Careful, UvdEvent.filp]
    by_cases hread : m.Readable
    · rw [uvdStep_of_readable useCtxBuf filp slots hread, forall_prop_of_true hread]
      by_cases hcreate : m.type = 0
      · rw [if_pos hcreate, uvdClaimHandle_safe_iff huniq hread.2.2, forall_prop_of_true hcreate,
          and_iff_left (fun h => absurd (hcreate.symm.trans h) (by decide))]
      rw [if_neg hcreate, and_iff_right fun h => absurd h hcreate]
      by_cases hdestroy : m.type = 2
      · rw [if_pos hdestroy, uvdReleaseHandle_safe_iff huniq hread.2.2,
          forall_prop_of_true hdestroy]
      · rw [if_neg hdestroy]
        exact iff_of_true ⟨huniq, .refl filp slots⟩ fun h => absurd h hdestroy
    · rw [uvdStep_of_not_readable useCtxBuf filp slots hread]
      exact iff_of_true ⟨huniq, .refl filp slots⟩ fun h => absurd h hread

/-! ## Runs -/

/-- The table of a device with `maxHandles` slots. -/
def uvdInit (maxHandles : ℕ) : List UvdSlot := List.replicate maxHandles .free

theorem uvdUnique_init (maxHandles : ℕ) : UvdUnique (uvdInit maxHandles) :=
  List.pairwise_replicate.mpr (.inr fun h => absurd rfl h)

/-- **UVD sessions.** In every run of careful events no handle ever occupies two slots, and then
the next event makes no duplicate and leaves the slots of other files alone exactly if it is
careful. -/
theorem uvd_sessions (useCtxBuf : Bool) (maxHandles : ℕ) (es : List UvdEvent)
    (slots : List UvdSlot)
    (hrun : Transition.Run (Transition.Guarded (fun s e t => uvdStep useCtxBuf s e = t)
      fun s e => e.Careful s) (uvdInit maxHandles) es slots) :
    UvdUnique slots ∧ ∀ e : UvdEvent,
      (UvdUnique (uvdStep useCtxBuf slots e) ∧
        UvdForeignKept e.filp slots (uvdStep useCtxBuf slots e)) ↔ e.Careful slots := by
  have huniq : UvdUnique slots := by
    refine hrun.invariant UvdUnique ?_ (uvdUnique_init maxHandles)
    rintro s e t hs ⟨rfl, hcareful⟩
    exact ((uvdStep_safe_iff useCtxBuf hs e).mpr hcareful).1
  exact ⟨huniq, fun e => uvdStep_safe_iff useCtxBuf huniq e⟩

/-- A message of the given type for a handle. -/
def UvdMsg.simple (type handle : BitVec 32) : UvdMsg :=
  ⟨0, none, fun i => if i = 1 then type else if i = 2 then handle else 0⟩

/-- Two files create a session each, and the first one closes. -/
theorem uvd_sessions_twoFiles :
    let slots := [UvdSlot.free, ⟨6, some 2⟩]
    UvdUnique slots ∧ ∀ e : UvdEvent,
      (UvdUnique (uvdStep false slots e) ∧ UvdForeignKept e.filp slots (uvdStep false slots e)) ↔
        e.Careful slots :=
  uvd_sessions false 2
    [.msg 1 (.simple 0 5), .msg 2 (.simple 0 6), .close 1 fun _ => false] _
    (.cons ⟨rfl, fun _ => by decide⟩ (.cons ⟨rfl, fun _ => by decide⟩
      (.cons ⟨by decide, trivial⟩ (.nil _))))

/-- A file creates the sessions 5 and 6, destroys 5 and creates 6 once more, which then has two
slots. In another run a second file destroys the session of the first one. -/
theorem uvd_sessions_broken :
    let run := List.foldl (uvdStep false) (uvdInit 10)
    ¬ UvdUnique (run [.msg 1 (.simple 0 5), .msg 1 (.simple 0 6), .msg 1 (.simple 2 5),
        .msg 1 (.simple 0 6)]) ∧
      ¬ UvdForeignKept 2 (run [.msg 1 (.simple 0 5)])
        (run [.msg 1 (.simple 0 5), .msg 2 (.simple 2 5)]) := by
  refine ⟨by decide, fun h => ?_⟩
  have := h 0 ⟨5, some 1⟩ (by decide) (by decide) (by decide)
  exact absurd this (by decide)

end Amdgpu
