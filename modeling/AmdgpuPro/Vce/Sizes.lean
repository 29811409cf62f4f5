import AmdgpuPro.Lib.Transition
import AmdgpuPro.Vce.Sessions

set_option autoImplicit false

/-!
# The sizes the VCE parser checks

A create command gives the dimensions of the images of a session. The driver keeps the size of an
image in the table of the sessions, and when a later command names a buffer for such an image, in
this command buffer or in another one, it checks that so many bytes are mapped. The bitstream
buffer has its size in the command, and the index of a part of it in the task info command.

## Main definitions

* `Amdgpu.VceCheck` — the bytes a relocation compares with a mapping.
* `VceState.demands` — the relocations of a command, with the bytes they have to cover.
* `VceWorld` — the table of the sessions with the command buffers, one after the other, and with the
  dimensions each session was created with.

## Main results

* `Amdgpu.VceWorld.Sized.step` — the table has the sizes of the dimensions, in 32 bits.
* `vceRingParseCs_run` — the parser takes the steps of the world.
* `vce_covers_iff` — all commands of all buffers: the checks cover what they have to if and only if
  nothing wraps around.

## Design

A check is for the bytes from the address in the command to the end of the part that the index
selects. An index of `0xffffffff` selects the first part. The demands are natural numbers, while
the driver computes the size of an image in 32 bits, and the end of the check in 64 bits.
-/

namespace Amdgpu

open Transition

/-! ## Checks -/

/-- The arguments of `amdgpu_vce_cs_reloc`, with the dwords of the address. -/
structure VceCheck where
  lo : BitVec 32
  hi : BitVec 32
  size : BitVec 32
  index : BitVec 32

namespace VceCheck

variable (c : VceCheck)

/-- The address in the command. -/
def base : BitVec 64 := ibAddr c.lo c.hi

/-- The index, `0` for `0xffffffff`. -/
def part : BitVec 32 := if c.index = 0xffffffff then 0 else c.index

/-- The address that is looked up. -/
def start : BitVec 64 := c.base + c.size.setWidth 64 * c.part.setWidth 64

/-- The end that is compared with the end of the mapping. -/
def stop : BitVec 64 := c.start + c.size.setWidth 64

/-- The check finds a mapping with room up to its end. -/
def Passes (env : VceEnv) : Prop :=
  ∃ bo m, csFindMapping env.bos.boList c.start = some (bo, m) ∧
    c.stop ≤ (BitVec.ofNat 64 m.last + 1) * BitVec.ofNat 64 gpuPageSize

/-- The check is for at least so many bytes from the address on. -/
def Covers (n : ℕ) : Prop := c.base.toNat + n ≤ c.stop.toNat

instance (n : ℕ) : Decidable (c.Covers n) := inferInstanceAs (Decidable (_ ≤ _))

/-- A relocation that succeeds has passed its check. -/
theorem passes_of_isSome {env : VceEnv}
    (h : (vceRelocAddr env c.lo c.hi c.size c.index).isSome) : c.Passes env := by
  rw [vceRelocAddr] at h
  split at h
  · cases h
  next bo m hfind =>
  refine ⟨bo, m, hfind, BitVec.not_lt.mp fun hroom => ?_⟩
  rw [if_pos (by exact hroom)] at h
  cases h

/-- A check that wraps around ends before the address and covers nothing. -/
theorem covers_iff (n : ℕ) :
    c.Covers n ↔ c.base.toNat + c.size.toNat * c.part.toNat + c.size.toNat < 2 ^ 64 ∧
      n ≤ c.size.toNat * c.part.toNat + c.size.toNat := by
  have hbase := c.base.isLt
  have hsize : c.size.toNat ≤ 2 ^ 32 - 1 := Nat.le_sub_one_of_lt c.size.isLt
  have hpart : c.part.toNat ≤ 2 ^ 32 - 1 := Nat.le_sub_one_of_lt c.part.isLt
  have hprod := Nat.mul_le_mul hsize hpart
  simp only [Covers, stop, start, BitVec.toNat_add, BitVec.toNat_mul, BitVec.toNat_setWidth]
  generalize hp : c.size.toNat * c.part.toNat = p at hprod ⊢
  have hsize' : c.size.toNat % 2 ^ 64 = c.size.toNat := Nat.mod_eq_of_lt (by omega)
  have hpart' : c.part.toNat % 2 ^ 64 = c.part.toNat := Nat.mod_eq_of_lt (by omega)
  rw [hsize', hpart', hp]
  omega

/-- A check without an index. -/
theorem covers_iff_of_index_zero (hindex : c.index = 0) (n : ℕ) :
    c.Covers n ↔ c.base.toNat + c.size.toNat < 2 ^ 64 ∧ n ≤ c.size.toNat := by
  have hpart : c.part = 0 := by
    rw [part, hindex]
    rfl
  rw [covers_iff, hpart, BitVec.ofNat_eq_ofNat, BitVec.toNat_ofNat, Nat.zero_mod, Nat.mul_zero,
    Nat.add_zero, Nat.zero_add]

/-- A check for as many parts as the index tells. -/
theorem covers_index_iff :
    c.Covers (c.size.toNat * c.index.toNat) ↔
      (c.index = 0xffffffff → c.size = 0) ∧
        c.base.toNat + c.size.toNat * c.index.toNat + c.size.toNat < 2 ^ 64 := by
  rw [covers_iff, part]
  split_ifs with hindex
  · rw [hindex]
    simp only [forall_const, ← BitVec.toNat_inj, BitVec.ofNat_eq_ofNat, BitVec.toNat_ofNat,
      Nat.zero_mod, Nat.mul_zero, Nat.reducePow, Nat.reduceMod]
    have := c.base.isLt
    omega
  · exact ⟨fun h => ⟨fun h' => absurd h' hindex, h.1⟩, fun h => ⟨h.2, Nat.le_add_right _ _⟩⟩

end VceCheck

/-! ## Image sizes -/

/-- The size of an image as a create command computes it. -/
def vceImgSize (width height : BitVec 32) : BitVec 32 := width * height * 8 * 3 / 2

/-- The size of an image. -/
def vceFrameBytes (width height : BitVec 32) : ℕ := width.toNat * height.toNat * 8 * 3 / 2

section Image

variable {width height : BitVec 32}

theorem toNat_vceImgSize :
    (vceImgSize width height).toNat = 24 * (width.toNat * height.toNat) % 2 ^ 32 / 2 := by
  simp only [vceImgSize, BitVec.toNat_udiv, BitVec.toNat_mul, BitVec.ofNat_eq_ofNat,
    BitVec.toNat_ofNat, Nat.reducePow, Nat.reduceMod]
  generalize width.toNat * height.toNat = p
  omega

/-- The size in the table is large enough if and only if it did not wrap around; then it is the
size of the image. -/
theorem vceFrameBytes_le_iff :
    vceFrameBytes width height ≤ (vceImgSize width height).toNat ↔
      24 * (width.toNat * height.toNat) < 2 ^ 32 := by
  rw [toNat_vceImgSize, vceFrameBytes]
  generalize width.toNat * height.toNat = p
  omega

theorem toNat_vceImgSize_of_lt (h : 24 * (width.toNat * height.toNat) < 2 ^ 32) :
    (vceImgSize width height).toNat = vceFrameBytes width height := by
  rw [toNat_vceImgSize, vceFrameBytes]
  generalize width.toNat * height.toNat = p at h ⊢
  omega

/-- The doubled size is even, so doubling it does not lose anything more. -/
theorem toNat_vceImgSize_mul_two :
    (vceImgSize width height * 2).toNat = 2 * (vceImgSize width height).toNat := by
  simp only [BitVec.toNat_mul, toNat_vceImgSize, BitVec.ofNat_eq_ofNat, BitVec.toNat_ofNat]
  omega

end Image

/-! ## What the checks of a command have to cover -/

/-- A check, and the bytes it has to cover. -/
structure VceDemand where
  check : VceCheck
  bytes : ℕ

/-- The dimensions of an image. -/
abbrev VceDims := BitVec 32 × BitVec 32

namespace VceState

variable (st : VceState)

/-- The check for the dwords at the offsets `lo` and `hi` into the current command. -/
def checkAt (lo hi : ℕ) (size index : BitVec 32) : VceCheck := ⟨st.get lo, st.get hi, size, index⟩

/-- The checks of a command: an encode command is for an image and a third of one, a context buffer
is for two images. Without dimensions there is nothing to cover. -/
def demands : VceCmd → Option VceDims → List VceDemand
  | .encode, some (width, height) =>
    [⟨st.checkAt 10 9 st.sizeVal 0, vceFrameBytes width height⟩,
      ⟨st.checkAt 12 11 (st.sizeVal / 3) 0, vceFrameBytes width height / 3⟩]
  | .contextBuffer, some (width, height) =>
    [⟨st.checkAt 3 2 (st.sizeVal * 2) 0, 2 * vceFrameBytes width height⟩]
  | .bitstreamBuffer, _ =>
    [⟨st.checkAt 3 2 (st.get 4) st.bsIdx, (st.get 4).toNat * st.bsIdx.toNat⟩]
  | _, _ => []

/-- Nothing that is computed for a command wraps around, and its index is not the one that stands
for the first part. -/
def NoWrap : VceCmd → Option VceDims → Prop
  | .encode, some (width, height) =>
    24 * (width.toNat * height.toNat) < 2 ^ 32 ∧
      (ibAddr (st.get 10) (st.get 9)).toNat + vceFrameBytes width height < 2 ^ 64 ∧
      (ibAddr (st.get 12) (st.get 11)).toNat + vceFrameBytes width height / 3 < 2 ^ 64
  | .contextBuffer, some (width, height) =>
    24 * (width.toNat * height.toNat) < 2 ^ 32 ∧
      (ibAddr (st.get 3) (st.get 2)).toNat + 2 * vceFrameBytes width height < 2 ^ 64
  | .bitstreamBuffer, _ =>
    (st.bsIdx = 0xffffffff → st.get 4 = 0) ∧
      (ibAddr (st.get 3) (st.get 2)).toNat + (st.get 4).toNat * st.bsIdx.toNat + (st.get 4).toNat <
        2 ^ 64
  | _, _ => True

instance (cmd : VceCmd) (dims : Option VceDims) : Decidable (st.NoWrap cmd dims) := by
  unfold NoWrap
  split <;> infer_instance

variable {st}

section Covered

variable {width height : BitVec 32}

theorem covered_encode_iff (hsize : st.sizeVal = vceImgSize width height) :
    (∀ d ∈ st.demands .encode (some (width, height)), d.check.Covers d.bytes) ↔
      st.NoWrap .encode (some (width, height)) := by
  simp only [demands, hsize, List.forall_mem_cons, List.not_mem_nil, false_imp_iff, implies_true,
    and_true]
  rw [VceCheck.covers_iff_of_index_zero _ rfl, VceCheck.covers_iff_of_index_zero _ rfl]
  simp only [checkAt, VceCheck.base, vceFrameBytes_le_iff, BitVec.toNat_udiv]
  constructor
  · rintro ⟨⟨hfirst, hlt⟩, hsecond, -⟩
    rw [toNat_vceImgSize_of_lt hlt] at hfirst hsecond
    exact ⟨hlt, hfirst, hsecond⟩
  · rintro ⟨hlt, hfirst, hsecond⟩
    rw [toNat_vceImgSize_of_lt hlt]
    exact ⟨⟨hfirst, hlt⟩, hsecond, le_rfl⟩

theorem covered_contextBuffer_iff (hsize : st.sizeVal = vceImgSize width height) :
    (∀ d ∈ st.demands .contextBuffer (some (width, height)), d.check.Covers d.bytes) ↔
      st.NoWrap .contextBuffer (some (width, height)) := by
  simp only [demands, hsize, List.forall_mem_cons, List.not_mem_nil, false_imp_iff, implies_true,
    and_true]
  rw [VceCheck.covers_iff_of_index_zero _ rfl]
  simp only [checkAt, VceCheck.base, toNat_vceImgSize_mul_two, Nat.mul_le_mul_left_iff two_pos,
    vceFrameBytes_le_iff]
  constructor
  · rintro ⟨hend, hlt⟩
    rw [toNat_vceImgSize_of_lt hlt] at hend
    exact ⟨hlt, hend⟩
  · rintro ⟨hlt, hend⟩
    rw [toNat_vceImgSize_of_lt hlt]
    exact ⟨hend, hlt⟩

theorem covered_bitstreamBuffer_iff (dims : Option VceDims) :
    (∀ d ∈ st.demands .bitstreamBuffer dims, d.check.Covers d.bytes) ↔
      st.NoWrap .bitstreamBuffer dims := by
  have h := (st.checkAt 3 2 (st.get 4) st.bsIdx).covers_index_iff
  simp only [demands, List.forall_mem_cons, List.not_mem_nil, false_imp_iff, implies_true, and_true]
  exact h

end Covered

/-- **One command**: its checks cover what they have to if and only if nothing wraps around. -/
theorem demands_covered_iff {cmd : VceCmd} {dims : Option VceDims}
    (hsize : ∀ d ∈ dims, st.sizeVal = vceImgSize d.1 d.2) :
    (∀ d ∈ st.demands cmd dims, d.check.Covers d.bytes) ↔ st.NoWrap cmd dims := by
  rcases dims with _ | ⟨width, height⟩
  · cases cmd with
    | bitstreamBuffer => exact covered_bitstreamBuffer_iff none
    | _ => exact iff_of_true (List.forall_mem_nil _) trivial
  · have himg : st.sizeVal = vceImgSize width height := hsize (width, height) rfl
    cases cmd with
    | bitstreamBuffer => exact covered_bitstreamBuffer_iff _
    | encode => exact covered_encode_iff himg
    | contextBuffer => exact covered_contextBuffer_iff himg
    | _ => exact iff_of_true (List.forall_mem_nil _) trivial

end VceState

/-! ## Commands that succeed have passed their checks -/

section Passes

variable {env : VceEnv} {st st' : VceState}

/-- A relocation that succeeds has passed its check, and leaves the other dwords and the size
alone. -/
theorem vceCsReloc_passes {lo hi : ℕ} {size index : BitVec 32}
    (h : vceCsReloc env lo hi size index st = .ret st' none) :
    (st.checkAt lo hi size index).Passes env ∧ st'.sizeVal = st.sizeVal ∧
      ∀ off, off ≠ lo → off ≠ hi → st'.get off = st.get off := by
  cases haddr : vceRelocAddr env (st.get lo) (st.get hi) size index with
  | none =>
    obtain ⟨st₁, e, heq⟩ := vceCsReloc_of_none haddr
    rw [heq] at h
    cases h
  | some addr =>
    refine ⟨VceCheck.passes_of_isSome _ (Option.isSome_of_eq_some haddr), ?_⟩
    rw [vceCsReloc, show vceRelocAddr env (((st.touch lo).touch hi).get lo)
      (((st.touch lo).touch hi).get hi) size index = some addr from haddr] at h
    cases h
    refine ⟨rfl, fun off hlo hhi => ?_⟩
    simp only [VceState.get, getIbValue, setIbValue, VceState.touch]
    rw [Function.update_of_ne (by omega), Function.update_of_ne (by omega)]

/-- The checks of a command that succeeds. -/
theorem vceSwitch_passes {cmd : VceCmd} (h : vceSwitch env st cmd = .ret st' none)
    (dims : Option VceDims) : ∀ d ∈ st.demands cmd dims, d.check.Passes env := by
  cases cmd with
  | encode =>
    rcases dims with _ | ⟨width, height⟩
    · exact List.forall_mem_nil _
    obtain ⟨st₁, h₁, h₂⟩ := Outcome.andThen_eq_ret_none.mp h
    obtain ⟨hfirst, hsize, hget⟩ := vceCsReloc_passes h₁
    obtain ⟨hsecond, -, -⟩ := vceCsReloc_passes h₂
    rw [hsize, VceState.checkAt, hget 12 (by simp) (by simp), hget 11 (by simp) (by simp)]
      at hsecond
    exact List.forall_mem_cons.mpr ⟨hfirst, List.forall_mem_singleton.mpr hsecond⟩
  | contextBuffer =>
    rcases dims with _ | ⟨width, height⟩
    · exact List.forall_mem_nil _
    exact List.forall_mem_singleton.mpr (vceCsReloc_passes h).1
  | bitstreamBuffer => exact List.forall_mem_singleton.mpr (vceCsReloc_passes h).1
  | _ => exact List.forall_mem_nil _

/-- The command at `idx`, if it succeeds, has passed its checks. -/
theorem vceCommand_passes {cmd : VceCmd} (hcmd : st.command = some cmd)
    (h : (vceCommand env st).Succeeds) (dims : Option VceDims) :
    ∀ d ∈ st.demands cmd dims, d.check.Passes env := by
  -- the header is read into a state with the same dwords and the same size
  let st₁ := ({ st with len := st.get 0 }.touch 0).touch 1
  have hsame : st₁.demands cmd dims = st.demands cmd dims := rfl
  have h' := Outcome.eq_ret_of_succeeds h
  rw [VceState.command] at hcmd
  split_ifs at hcmd with hlen
  rw [vceCommand, if_neg (show ¬ (st₁.len < 8 ∨ st₁.len &&& 3 ≠ 0) from hlen),
    show vceCmd (st₁.get 1) = some cmd from hcmd] at h'
  obtain ⟨st₂, hswitch, -⟩ := Outcome.andThen_eq_ret_none.mp h'
  exact hsame ▸ vceSwitch_passes hswitch dims

end Passes

/-! ## Command buffers, one after the other -/

/-- `amdgpu_vce_free_handles` for the file `filp` -/
def vceFreeHandles (filp : ℕ) (slots : List VceSlot) : List VceSlot :=
  slots.map fun slot =>
    if slot.handle = 0 ∨ slot.filp ≠ some filp then slot
    else { slot with filp := none, handle := 0 }

/-- Between the command buffers, or at a command of one. -/
inductive VcePhase
  | idle (slots : List VceSlot)
  | parsing (env : VceEnv) (st : VceState)

/-- The table of the sessions. -/
def VcePhase.slots : VcePhase → List VceSlot
  | idle slots => slots
  | parsing _ st => st.slots

/-- The table of the sessions, and the dimensions that the session of a slot was last created
with. -/
structure VceWorld where
  phase : VcePhase
  dims : ℕ → Option VceDims

inductive VceEvent
  /-- a command buffer is parsed; `tmp` is not initialized -/
  | submit (env : VceEnv) (ptr : IbWords) (tmp : BitVec 32)
  /-- the next command of the buffer, or its end -/
  | command
  /-- a file is closed -/
  | close (filp : ℕ)

/-- The dimensions after the command at `idx`: a create command sets them, and a slot with a new
handle has none. -/
def vceDims (env : VceEnv) (st : VceState) (dims : ℕ → Option VceDims) (i : ℕ) : Option VceDims :=
  match st.command with
  | some .create =>
    if st.mayCreate ∧ st.sessionIdx = some i then some (st.get 8, st.get 10) else dims i
  | some .session =>
    if ((vceCommand env st).state.slots[i]?).map (·.handle) = (st.slots[i]?).map (·.handle) then
      dims i
    else none
  | _ => dims i

namespace VceWorld

/-- The loop of `amdgpu_vce_ring_parse_cs` and what is around it, one command at a time. -/
def step (w : VceWorld) : VceEvent → Option VceWorld
  | .submit env ptr tmp =>
    match w.phase with
    | .idle slots =>
      if env.sysvmAccess.isSome then some w
      else some { w with phase := .parsing env (.init ptr slots tmp) }
    | .parsing _ _ => none
  | .command =>
    match w.phase with
    | .idle _ => none
    | .parsing env st =>
      if env.lengthDw ≤ st.idx then
        let r := if st.allocated &&& ~~~st.created ≠ 0 then some Errno.ENOENT else none
        some { w with phase := .idle (vceOut r st).state.slots }
      else
        match vceCommand env st with
        | .ret st' none => some ⟨.parsing env st', vceDims env st w.dims⟩
        | .ret st' (some e) => some ⟨.idle (vceOut (some e) st').state.slots, vceDims env st w.dims⟩
        | .bug _ => none
  | .close filp =>
    match w.phase with
    | .idle slots => some { w with phase := .idle (vceFreeHandles filp slots) }
    | .parsing _ _ => none

end VceWorld

/-! ## The sizes in the table -/

/-- The table has the sizes of the dimensions, as they were computed. -/
def VceSized (dims : ℕ → Option VceDims) (slots : List VceSlot) : Prop :=
  ∀ i, ∀ d ∈ dims i, (slots[i]?).map (·.imgSize) = some (vceImgSize d.1 d.2)

/-- `size` points to the size of the session, which is one of the table. -/
def VceState.AtSession (st : VceState) : Prop :=
  st.size = st.sessionIdx ∧ ∀ i ∈ st.sessionIdx, i < st.slots.length

section Sized

variable {env : VceEnv} {st : VceState} {dims : ℕ → Option VceDims} {slots slots' : List VceSlot}

/-- Freeing slots leaves the sizes alone. -/
theorem VceSized.of_imgSize (h : VceSized dims slots)
    (hsame : ∀ i : ℕ, (slots'[i]?).map (·.imgSize) = (slots[i]?).map (·.imgSize)) :
    VceSized dims slots' := fun i d hd => (hsame i).trans (h i d hd)

theorem vceOut_imgSize (r : Option Errno) (i : ℕ) :
    ((vceOut r st).state.slots[i]?).map (·.imgSize) = (st.slots[i]?).map (·.imgSize) := by
  simp only [vceOut, Outcome.state_ret, List.getElem?_mapIdx, Option.map_map]
  refine Option.map_congr fun slot _ => ?_
  simp only [Function.comp_apply]
  split_ifs <;> rfl

theorem vceFreeHandles_imgSize (filp i : ℕ) :
    ((vceFreeHandles filp slots)[i]?).map (·.imgSize) = (slots[i]?).map (·.imgSize) := by
  simp only [vceFreeHandles, List.getElem?_map, Option.map_map]
  refine Option.map_congr fun slot _ => ?_
  simp only [Function.comp_apply]
  split_ifs <;> rfl

/-- The table after a create command. -/
theorem vceCommand_create_slots (hcmd : st.command = some .create) :
    (vceCommand env st).state.slots =
      if st.mayCreate then
        st.size.elim st.slots fun i =>
          st.slots.modify i fun slot => { slot with imgSize := vceImgSize (st.get 8) (st.get 10) }
      else st.slots := by
  let st₁ := ({ st with len := st.get 0 }.touch 0).touch 1
  rw [VceState.command] at hcmd
  split_ifs at hcmd with hlen
  rw [vceCommand, if_neg (show ¬ (st₁.len < 8 ∨ st₁.len &&& 3 ≠ 0) from hlen),
    show vceCmd (st₁.get 1) = some .create from hcmd]
  refine (VceState.table_eq.mp (table_andThen _ fun st => ?_)).1.trans ?_
  · split_ifs <;> rfl
  change (vceCreate st₁).state.slots = _
  rw [vceCreate]
  cases hmay : st.mayCreate with
  | false =>
    rw [show st₁.mayCreate = false from hmay]
    rfl
  | true =>
    rw [show st₁.mayCreate = true from hmay]
    simp only [Bool.not_true, Bool.false_eq_true, if_false, if_true, Outcome.state_ret]
    refine (VceState.table_eq.mp (VceState.table_setSize _)).1.trans ?_
    split_ifs <;> rfl

/-- A create command puts the size of its dimensions into the slot of the session. -/
theorem VceSized.create (h : VceSized dims st.slots) (hst : st.AtSession)
    (hcmd : st.command = some .create) :
    VceSized (vceDims env st dims) (vceCommand env st).state.slots := by
  obtain ⟨hsize, hlt⟩ := hst
  intro i d hd
  rw [vceCommand_create_slots hcmd, hsize]
  simp only [vceDims, hcmd] at hd
  split_ifs at hd with hnew
  · obtain ⟨hmay, hidx⟩ := hnew
    obtain rfl := Option.some.inj hd
    have hi := List.getElem?_eq_getElem (hlt i hidx)
    rw [if_pos hmay, hidx, Option.elim_some, List.getElem?_modify, hi]
    simp
  · have hold := h i d hd
    split_ifs with hmay
    · cases hidx : st.sessionIdx with
      | none => exact hold
      | some j =>
        have hne : j ≠ i := fun heq => hnew ⟨hmay, hidx.trans (congrArg some heq)⟩
        rw [Option.elim_some, List.getElem?_modify]
        simpa [hne] using hold
    · exact hold

/-- A session command that finds its session or puts it into a free slot, and every other command
but a create command, leaves the sizes of the other slots alone. -/
theorem VceSized.of_ne_create (h : VceSized dims st.slots) (hcmd : st.command ≠ some .create) :
    VceSized (vceDims env st dims) (vceCommand env st).state.slots := by
  -- dimensions are only lost
  have hdims : ∀ i, ∀ d ∈ vceDims env st dims i, d ∈ dims i ∧ (st.command = some .session →
      ((vceCommand env st).state.slots[i]?).map (·.handle) = (st.slots[i]?).map (·.handle)) := by
    intro i d hd
    rw [vceDims] at hd
    split at hd
    · next hcreate => exact absurd hcreate hcmd
    · split_ifs at hd with hsame
      · exact ⟨hd, fun _ => hsame⟩
      · cases hd
    · next hsession => exact ⟨hd, fun h => absurd h hsession⟩
  have hchange : VceChange env st.command st (vceCommand env st) := vceCommand_change
  intro i d hd
  obtain ⟨hold, hhandle⟩ := hdims i d hd
  have hsized := h i d hold
  cases hchange with
  | same htable => rwa [(VceState.table_eq.mp htable).1]
  | pick _ _ _ _ htable => rwa [(VceState.table_eq.mp htable).1]
  | create _ hcreate => exact absurd hcreate hcmd
  | @claim j slot hsession hslot hfree hne htable =>
    have hslots := (VceState.table_eq.mp htable).1
    have hj := (List.getElem?_eq_some_iff.mp hslot).1
    rw [hslots] at hhandle ⊢
    by_cases hij : j = i
    · -- the slot had the handle `0`
      subst hij
      have hsame := hhandle hsession
      rw [List.getElem?_set_self hj, hslot, Option.map_some, Option.map_some, hfree] at hsame
      exact absurd (Option.some.inj hsame) hne
    · rwa [List.getElem?_set_ne hij]

/-- **One command**: the sizes in the table are those of the dimensions. -/
theorem VceSized.command (h : VceSized dims st.slots) (hst : st.AtSession) :
    VceSized (vceDims env st dims) (vceCommand env st).state.slots := by
  by_cases hcmd : st.command = some .create
  · exact h.create hst hcmd
  · exact h.of_ne_create hcmd

theorem VceState.AtSession.command (h : st.AtSession) : (vceCommand env st).state.AtSession := by
  obtain ⟨hsize, hlt⟩ := h
  have hchange : VceChange env st.command st (vceCommand env st) := vceCommand_change
  cases hchange with
  | same htable =>
    obtain ⟨hslots, -, hidx, hsize'⟩ := VceState.table_eq.mp htable
    rw [VceState.AtSession, hslots, hidx, hsize']
    exact ⟨hsize, hlt⟩
  | pick _ hslot _ _ htable =>
    obtain ⟨hslots, -, hidx, hsize'⟩ := VceState.table_eq.mp htable
    rw [VceState.AtSession, hslots, hidx, hsize']
    refine ⟨rfl, fun j hj => ?_⟩
    obtain rfl := Option.some.inj hj
    exact (List.getElem?_eq_some_iff.mp hslot).1
  | claim _ hslot _ _ htable =>
    obtain ⟨hslots, -, hidx, hsize'⟩ := VceState.table_eq.mp htable
    rw [VceState.AtSession, hslots, hidx, hsize', List.length_set]
    refine ⟨rfl, fun j hj => ?_⟩
    obtain rfl := Option.some.inj hj
    exact (List.getElem?_eq_some_iff.mp hslot).1
  | create value _ _ htable =>
    obtain ⟨hslots, -, hidx, hsize'⟩ := VceState.table_eq.mp htable
    rw [VceState.AtSession, hslots, hidx, hsize']
    refine ⟨hsize, fun j hj => ?_⟩
    cases st.size with
    | none => exact hlt j hj
    | some i => simpa using hlt j hj

/-- `*size` is the size of the dimensions of the session. -/
theorem VceSized.sizeVal (h : VceSized dims st.slots) (hst : st.AtSession) :
    ∀ d ∈ st.sessionIdx.bind dims, st.sizeVal = vceImgSize d.1 d.2 := by
  intro d hd
  obtain ⟨i, hidx, hdims⟩ := Option.mem_bind_iff.mp hd
  rw [VceState.sizeVal, hst.1, Option.mem_def.mp hidx]
  simp only [h i d hdims, Option.getD_some]

end Sized

/-! ## All command buffers -/

namespace VceWorld

variable {w w' : VceWorld}

/-- The sizes in the table are those of the dimensions. -/
structure Sized (w : VceWorld) : Prop where
  slot : VceSized w.dims w.phase.slots
  atSession : ∀ env st, w.phase = .parsing env st → st.AtSession

/-- Before the first buffer no session was created. -/
theorem Sized.init (slots : List VceSlot) : Sized ⟨.idle slots, fun _ => none⟩ where
  slot _ _ h := (by cases h)
  atSession _ _ h := (by cases h)

/-- **Every step keeps the sizes.** -/
theorem Sized.step (h : w.Sized) {ev : VceEvent} (hs : w.step ev = some w') : w'.Sized := by
  obtain ⟨phase, dims⟩ := w
  obtain ⟨hslot, hat⟩ := h
  cases ev with
  | submit env ptr tmp =>
    cases phase with
    | parsing => cases hs
    | idle slots =>
      simp only [VceWorld.step] at hs
      split_ifs at hs
      · cases hs
        exact ⟨hslot, hat⟩
      · cases hs
        refine ⟨hslot, fun env' st' hphase => ?_⟩
        cases hphase
        exact ⟨rfl, fun i hi => (by cases hi)⟩
  | close filp =>
    cases phase with
    | parsing => cases hs
    | idle slots =>
      cases hs
      exact ⟨VceSized.of_imgSize hslot (vceFreeHandles_imgSize filp), fun _ _ h => (by cases h)⟩
  | command =>
    cases phase with
    | idle => cases hs
    | parsing env st =>
      have hst := hat env st rfl
      have hsized : VceSized (vceDims env st dims) (vceCommand env st).state.slots :=
        VceSized.command hslot hst
      have hat' : (vceCommand env st).state.AtSession := hst.command
      simp only [VceWorld.step] at hs
      by_cases hend : env.lengthDw ≤ st.idx
      · rw [if_pos hend] at hs
        cases hs
        exact ⟨VceSized.of_imgSize hslot (vceOut_imgSize _), fun _ _ h => (by cases h)⟩
      · rw [if_neg hend] at hs
        split at hs
        · next st' hcmd =>
          cases hs
          rw [hcmd] at hsized hat'
          refine ⟨hsized, fun env' st'' hphase => ?_⟩
          cases hphase
          exact hat'
        · next st' e hcmd =>
          cases hs
          rw [hcmd] at hsized
          exact ⟨VceSized.of_imgSize hsized (vceOut_imgSize _), fun _ _ h => (by cases h)⟩
        · cases hs

end VceWorld

/-- The commands of a buffer, from a command on: the steps of the world up to the end of the
buffer. -/
theorem vceLoop_run {env : VceEnv} {st : VceState} {fuel : ℕ}
    (hfuel : env.lengthDw ≤ fuel + st.idx) (dims : ℕ → Option VceDims) {st' : VceState}
    {r : Option Errno}
    (h : (match vceLoop env fuel st with
      | .ret st none =>
        vceOut (if st.allocated &&& ~~~st.created ≠ 0 then some .ENOENT else none) st
      | .ret st (some e) => vceOut (some e) st
      | .bug st => .bug st) = .ret st' r) :
    ∃ n dims', Run (fun w ev w' => VceWorld.step w ev = some w') ⟨.parsing env st, dims⟩
      (List.replicate n .command) ⟨.idle st'.slots, dims'⟩ := by
  -- at the end of the buffer one more step is taken
  have hlast : ∀ {st : VceState} (dims : ℕ → Option VceDims), env.lengthDw ≤ st.idx →
      vceOut (if st.allocated &&& ~~~st.created ≠ 0 then some .ENOENT else none) st = .ret st' r →
      ∃ n dims', Run (fun w ev w' => VceWorld.step w ev = some w') ⟨.parsing env st, dims⟩
        (List.replicate n .command) ⟨.idle st'.slots, dims'⟩ := fun {st} dims hend hout => by
    refine ⟨1, dims, .single ?_⟩
    simp only [VceWorld.step, if_pos hend, hout, Outcome.state_ret]
  induction fuel generalizing st dims with
  | zero => exact hlast dims (by omega) h
  | succ fuel ih =>
    rw [vceLoop] at h
    by_cases hend : env.lengthDw ≤ st.idx
    · rw [if_pos hend] at h
      exact hlast dims hend h
    rw [if_neg hend] at h
    rcases hcmd : vceCommand env st with ⟨st₁, _ | e⟩ | st₁
    · rw [hcmd, Outcome.andThen] at h
      have hidx := vceCommand_idx hcmd
      obtain ⟨n, dims', hrun⟩ := ih (by omega) (vceDims env st dims) h
      refine ⟨n + 1, dims', .cons ?_ hrun⟩
      simp only [VceWorld.step, if_neg hend, hcmd]
    · rw [hcmd] at h
      refine ⟨1, vceDims env st dims, .single ?_⟩
      have hout : vceOut (some e) st₁ = .ret st' r := h
      simp only [VceWorld.step, if_neg hend, hcmd, hout, Outcome.state_ret]
    · rw [hcmd] at h
      cases h

/-- **The parser takes the steps of the world.** -/
theorem vceRingParseCs_run {env : VceEnv} (hsysvm : env.sysvmAccess = none) {ptr : IbWords}
    {slots : List VceSlot} {tmp : BitVec 32} (dims : ℕ → Option VceDims) {st' : VceState}
    {r : Option Errno} (h : vceRingParseCs env (.init ptr slots tmp) = .ret st' r) :
    ∃ n dims', Run (fun w ev w' => VceWorld.step w ev = some w') ⟨.idle slots, dims⟩
      (.submit env ptr tmp :: List.replicate n .command) ⟨.idle st'.slots, dims'⟩ := by
  rw [vceRingParseCs, hsysvm] at h
  obtain ⟨n, dims', hrun⟩ := vceLoop_run (Nat.le_add_right _ _) dims h
  refine ⟨n, dims', .cons ?_ hrun⟩
  simp only [VceWorld.step, hsysvm, Option.isSome_none, Bool.false_eq_true, if_false]

/-- **VCE sizes.** Every command that succeeds, in any buffer, has passed the checks of its
addresses. They cover the image that the session was created with, two of them for a context buffer,
and the parts before the index for a bitstream buffer, if and only if nothing wraps around. -/
theorem vce_covers_iff {slots : List VceSlot} {evs : List VceEvent} {env : VceEnv} {st : VceState}
    {dims : ℕ → Option VceDims} {cmd : VceCmd}
    (hrun : Run (fun w ev w' => VceWorld.step w ev = some w') ⟨.idle slots, fun _ => none⟩ evs
      ⟨.parsing env st, dims⟩)
    (hcmd : st.command = some cmd) (hsucceeds : (vceCommand env st).Succeeds) :
    (∀ d ∈ st.demands cmd (st.sessionIdx.bind dims), d.check.Passes env) ∧
      ((∀ d ∈ st.demands cmd (st.sessionIdx.bind dims), d.check.Covers d.bytes) ↔
        st.NoWrap cmd (st.sessionIdx.bind dims)) := by
  have hsized := hrun.invariant VceWorld.Sized (fun _ _ _ h hs => h.step hs) (.init slots)
  refine ⟨vceCommand_passes hcmd hsucceeds _, VceState.demands_covered_iff ?_⟩
  exact VceSized.sizeVal hsized.slot (hsized.atSession env st rfl)

/-- The parser of a buffer that is being parsed. -/
def VceWorld.parser (w : VceWorld) : Option (VceEnv × VceState) :=
  match w.phase with
  | .parsing env st => some (env, st)
  | .idle _ => none

/-- A computed run that ends at a command. -/
theorem exists_run_to_command {slots : List VceSlot} {evs : List VceEvent}
    {p : VceEnv → VceState → (ℕ → Option VceDims) → Bool}
    (h : (evs.foldlM VceWorld.step ⟨.idle slots, fun _ => none⟩).any
      (fun w => w.parser.any fun e => p e.1 e.2 w.dims) = true) :
    ∃ env st dims, p env st dims = true ∧
      Run (fun w ev w' => VceWorld.step w ev = some w') ⟨.idle slots, fun _ => none⟩ evs
        ⟨.parsing env st, dims⟩ := by
  obtain ⟨⟨phase, dims⟩, hw, hparser⟩ := (Option.any_eq_true _ _).mp h
  cases phase with
  | idle => cases hparser
  | parsing env st =>
    have hrun := @Run.of_foldlM _ _ _ _ _ _ (fun _ _ => True) (fun _ _ _ => trivial) hw
    exact ⟨env, st, dims, hparser, hrun.mono fun _ _ _ h => h.1⟩

/-- A session command, and a create command with the given dimensions. -/
def createIb (width height : BitVec 32) : IbWords := fun i =>
  [12, 1, 5, 44, 0x01000001, 0, 0, 0, 0, 0, 0, width, 0, height].getD i 0

/-- A session command, and an encode command for addresses of the page. -/
def encodeIb : IbWords := fun i =>
  [12, 1, 5, 52, 0x03000001, 0, 0, 0, 0, 0, 0, 0, 0, 0x1000, 0, 0x1000].getD i 0

/-- A session is created in one buffer, and the next one goes on to the encode command. -/
def encodeEvents (width height : BitVec 32) : List VceEvent :=
  [.submit (dwordsEnv 14) (createIb width height) 0, .command, .command, .command,
    .submit (dwordsEnv 16) encodeIb 0, .command]

/-- An image of 16 times 16 is covered. -/
theorem vce_covers_iff_small :
    ∃ env st dims, Run (fun w ev w' => VceWorld.step w ev = some w')
        ⟨.idle (List.replicate 16 ⟨0, none, 0⟩), fun _ => none⟩ (encodeEvents 16 16)
        ⟨.parsing env st, dims⟩ ∧ st.sessionIdx.bind dims = some (16, 16) ∧
      ∀ d ∈ st.demands .encode (some (16, 16)), d.check.Passes env ∧ d.check.Covers d.bytes := by
  obtain ⟨env, st, dims, hp, hrun⟩ := @exists_run_to_command
    (List.replicate 16 ⟨0, none, 0⟩) (encodeEvents 16 16)
    (fun env st dims => decide (st.command = some .encode ∧ (vceCommand env st).Succeeds ∧
      st.sessionIdx.bind dims = some (16, 16) ∧ st.NoWrap .encode (some (16, 16))))
    (by decide +kernel)
  obtain ⟨hcmd, hsucceeds, hdims, hnowrap⟩ := of_decide_eq_true hp
  have h := vce_covers_iff hrun hcmd hsucceeds
  rw [hdims] at h
  exact ⟨env, st, dims, hrun, hdims, fun d hd => ⟨h.1 d hd, h.2.mpr hnowrap d hd⟩⟩

/-- For an image of 65536 times 65536, of 48 GiB, the size in the table is `0`. Both buffers are
accepted, and the encode command is checked for no bytes at all. -/
theorem vce_not_covered :
    (∃ env st dims, st.command = some .encode ∧ (vceCommand env st).Succeeds ∧
        st.sessionIdx.bind dims = some (0x10000, 0x10000) ∧
        (∀ d ∈ st.demands .encode (some (0x10000, 0x10000)), ¬ d.check.Covers d.bytes) ∧
        Run (fun w ev w' => VceWorld.step w ev = some w')
          ⟨.idle (List.replicate 16 ⟨0, none, 0⟩), fun _ => none⟩ (encodeEvents 0x10000 0x10000)
          ⟨.parsing env st, dims⟩) ∧
      let first := vceRingParseCs (dwordsEnv 14)
        (.init (createIb 0x10000 0x10000) (List.replicate 16 ⟨0, none, 0⟩) 0)
      first.Succeeds ∧
        (vceRingParseCs (dwordsEnv 16) (.init encodeIb first.state.slots 0)).Succeeds := by
  refine ⟨?_, by decide +kernel⟩
  obtain ⟨env, st, dims, hp, hrun⟩ := @exists_run_to_command
    (List.replicate 16 ⟨0, none, 0⟩) (encodeEvents 0x10000 0x10000)
    (fun env st dims => decide (st.command = some .encode ∧ (vceCommand env st).Succeeds ∧
      st.sessionIdx.bind dims = some (0x10000, 0x10000) ∧
      ∀ d ∈ st.demands .encode (some (0x10000, 0x10000)), ¬ d.check.Covers d.bytes))
    (by decide +kernel)
  obtain ⟨hcmd, hsucceeds, hdims, hcovers⟩ := of_decide_eq_true hp
  exact ⟨env, st, dims, hcmd, hsucceeds, hdims, hcovers, hrun⟩

end Amdgpu
