import AmdgpuPro.Cs.Ib

set_option autoImplicit false

/-!
# The VCE command parser

A VCE command buffer is a sequence of commands that start with their length in bytes and a
number. `amdgpu_vce_ring_parse_cs` goes over them once: it follows the sessions, and replaces the
addresses in the commands by the places of the buffer objects (`amdgpu_vce_cs_reloc`).

## Main definitions

* `Amdgpu.vceRingParseCs` — the parser, which also records the dwords it reads or rewrites.
* `VceAccess.Inside` — such a dword is part of the buffer and of its command.
* `vceDwords` — how far into a command the parser goes.
* `VceState.Fits` — the command is declared to be that long, and is part of the buffer.

## Main results

* `Amdgpu.vce_accesses_inside_iff` — a whole buffer: the parser stays inside if and only if every
  command it comes to fits.

## Design

The length of a command is only checked to be at least 8 and a multiple of 4, while the fields of
the longest command end after 13 dwords. The dwords behind the end of the buffer are whatever the
memory there holds. `size` points to the image size of the current session, or to `tmp` before
there is a session. `1 << session_idx` for the index `-1` is `1 << 31`, as the processor shifts.
-/

namespace Amdgpu

/-! ## Sessions -/

/-- `handles[i]`, `filp[i]` and `img_size[i]` of the device -/
structure VceSlot where
  handle : BitVec 32
  filp : Option ℕ
  imgSize : BitVec 32
  deriving DecidableEq

/-- The chips; `asic_type` -/
inductive AsicType
  | tahiti | pitcairn | verde | oland | hainan | bonaire | kaveri | kabini | hawaii | mullins
  | topaz | tonga | fiji | carrizo | stoney | polaris10 | polaris11
  deriving DecidableEq

/-- The chips with a hardware configuration command, with or without `CONFIG_DRM_AMDGPU_CIK`. -/
def AsicType.hasHwConfig (cik : Bool) : AsicType → Bool
  | kaveri => cik
  | mullins => cik
  | carrizo => true
  | _ => false

/-- The surroundings of a parser call. -/
structure VceEnv where
  bos : CsBos
  /-- `ib->length_dw` -/
  lengthDw : ℕ
  /-- `p->filp` -/
  filp : ℕ
  asicType : AsicType
  /-- `CONFIG_DRM_AMDGPU_CIK` -/
  cik : Bool
  /-- what `amdgpu_cs_sysvm_access_required` returns -/
  sysvmAccess : Option Errno

/-- A dword that was read or rewritten for a command. -/
structure VceAccess where
  /-- where the command starts -/
  cmd : ℕ
  /-- the length in its header -/
  len : BitVec 32
  pos : ℕ
  deriving DecidableEq

/-- The dword is part of the buffer and of the command. -/
def VceAccess.Inside (lengthDw : ℕ) (a : VceAccess) : Prop :=
  a.pos < lengthDw ∧ 4 * (a.pos - a.cmd + 1) ≤ a.len.toNat

instance VceAccess.decidableInside (lengthDw : ℕ) (a : VceAccess) : Decidable (a.Inside lengthDw) :=
  inferInstanceAs (Decidable (_ ∧ _))

/-- The variables of `amdgpu_vce_ring_parse_cs` with the buffer and the table it changes. -/
structure VceState where
  ptr : IbWords
  slots : List VceSlot
  idx : ℕ
  len : BitVec 32
  fbIdx : BitVec 32
  bsIdx : BitVec 32
  /-- `none` for `-1` -/
  sessionIdx : Option ℕ
  destroyed : BitVec 32
  created : BitVec 32
  allocated : BitVec 32
  tmp : BitVec 32
  /-- `none` for `&tmp`, `some i` for `&img_size[i]` -/
  size : Option ℕ
  /-- the dwords read or rewritten -/
  touched : List VceAccess

namespace VceState

/-- The dword at an offset into the current command. -/
def get (st : VceState) (off : ℕ) : BitVec 32 := getIbValue st.ptr (st.idx + off)

/-- Record an access at an offset into the current command. -/
def touch (st : VceState) (off : ℕ) : VceState :=
  { st with touched := ⟨st.idx, st.len, st.idx + off⟩ :: st.touched }

/-- `*size` -/
def sizeVal (st : VceState) : BitVec 32 :=
  match st.size with
  | none => st.tmp
  | some i => ((st.slots[i]?).map (·.imgSize)).getD 0

/-- `*size = value` -/
def setSize (st : VceState) (value : BitVec 32) : VceState :=
  match st.size with
  | none => { st with tmp := value }
  | some i => { st with slots := st.slots.modify i fun slot => { slot with imgSize := value } }

/-- `1 << session_idx` -/
def sessionBit (st : VceState) : BitVec 32 := 1 <<< st.sessionIdx.getD 31

end VceState

/-- The numbers of the commands. -/
inductive VceCmd
  | session
  | taskInfo
  | create
  | encode
  | destroy
  | contextBuffer
  | bitstreamBuffer
  | feedbackBuffer
  | hwConfig
  /-- the commands without a session, an address or a restriction -/
  | plain

/-- The numbers of `VceCmd.plain`: config extension, pic control, rate control, motion
estimation, rdo, vui, auxiliary buffer and clock table. -/
def vcePlainCmds : List (BitVec 32) :=
  [0x04000001, 0x04000002, 0x04000005, 0x04000007, 0x04000008, 0x04000009, 0x05000002, 0x05000009]

/-- The `switch` over the command number. -/
def vceCmd (cmd : BitVec 32) : Option VceCmd :=
  if cmd = 0x00000001 then some .session
  else if cmd = 0x00000002 then some .taskInfo
  else if cmd = 0x01000001 then some .create
  else if cmd ∈ vcePlainCmds then some .plain
  else if cmd = 0x0500000c then some .hwConfig
  else if cmd = 0x03000001 then some .encode
  else if cmd = 0x02000001 then some .destroy
  else if cmd = 0x05000001 then some .contextBuffer
  else if cmd = 0x05000004 then some .bitstreamBuffer
  else if cmd = 0x05000005 then some .feedbackBuffer
  else none

/-! ## The parser -/

section Parser

variable (env : VceEnv)

/-- `amdgpu_vce_validate_handle`: the slot of the session, the table and the bits of the slots
that were allocated. -/
def vceValidateHandle (handle allocated : BitVec 32) (slots : List VceSlot) :
    Except Errno (ℕ × List VceSlot × BitVec 32) :=
  match slots.findIdx? (·.handle = handle) with
  | some i =>
    if (slots[i]?).bind (·.filp) ≠ some env.filp then .error .EINVAL
    else .ok (i, slots, allocated)
  | none =>
    match slots.findIdx? (·.handle = 0) with
    | some i => .ok (i, slots.set i ⟨handle, some env.filp, 0⟩, allocated ||| 1 <<< i)
    | none => .error .EINVAL

/-- The address `amdgpu_vce_cs_reloc` computes for the dwords `lo` and `hi`, or none if it does
not find a mapping with room for `size` bytes. -/
def vceRelocAddr (lo hi size index : BitVec 32) : Option (BitVec 64) :=
  let index := if index = 0xffffffff then 0 else index
  let size := size.setWidth 64
  let addr := ibAddr lo hi + size * index.setWidth 64
  match csFindMapping env.bos.boList addr with
  | none => none
  | some (bo, mapping) =>
    if addr + size > (BitVec.ofNat 64 mapping.last + 1) * BitVec.ofNat 64 gpuPageSize then none
    else some (mapping.byteOffset addr + env.bos.gpuOffset bo - size * index.setWidth 64)

/-- `amdgpu_vce_cs_reloc` for the dwords at the offsets `lo` and `hi` into the command. -/
def vceCsReloc (lo hi : ℕ) (size index : BitVec 32) (st : VceState) : Outcome VceState :=
  let st := (st.touch lo).touch hi
  match vceRelocAddr env (st.get lo) (st.get hi) size index with
  | none => .ret st (some .EINVAL)
  | some addr =>
    let ptr := setIbValue st.ptr (st.idx + lo) (lower32Bits addr)
    .ret { (st.touch lo).touch hi with ptr := setIbValue ptr (st.idx + hi) (upper32Bits addr) } none

/-- A session command. -/
def vceSession (st : VceState) : Outcome VceState :=
  let st := st.touch 2
  match vceValidateHandle env (st.get 2) st.allocated st.slots with
  | .error e => .ret st (some e)
  | .ok (i, slots, allocated) =>
    .ret { st with
      slots := slots, allocated := allocated, sessionIdx := some i, size := some i } none

/-- A create command is for a session that was destroyed or allocated in this buffer. -/
def VceState.mayCreate (st : VceState) : Bool :=
  st.destroyed &&& st.sessionBit ≠ 0 || st.allocated &&& st.sessionBit ≠ 0

/-- A create command. -/
def vceCreate (st : VceState) : Outcome VceState :=
  let bit := st.sessionBit
  let st' := { st with created := st.created ||| bit }
  if !st.mayCreate then .ret st' (some .EINVAL)
  else
    let st' :=
      if st.destroyed &&& bit ≠ 0 then
        { st' with destroyed := st.destroyed &&& ~~~bit, allocated := st.allocated ||| bit }
      else st'
    let st' := (st'.touch 8).touch 10
    .ret (st'.setSize (st'.get 8 * st'.get 10 * 8 * 3 / 2)) none

/-- The `switch` of `amdgpu_vce_ring_parse_cs`. -/
def vceSwitch (st : VceState) : VceCmd → Outcome VceState
  | .session => vceSession env st
  | .taskInfo =>
    .ret { (st.touch 6).touch 7 with fbIdx := st.get 6, bsIdx := st.get 7 } none
  | .create => vceCreate st
  | .plain => .ret st none
  | .hwConfig => .ret st (if env.asicType.hasHwConfig env.cik then none else some .EINVAL)
  | .encode =>
    (vceCsReloc env 10 9 st.sizeVal 0 st).andThen fun st =>
      vceCsReloc env 12 11 (st.sizeVal / 3) 0 st
  | .destroy => .ret { st with destroyed := st.destroyed ||| st.sessionBit } none
  | .contextBuffer => vceCsReloc env 3 2 (st.sizeVal * 2) 0 st
  | .bitstreamBuffer =>
    let st := { st.touch 4 with tmp := st.get 4 }
    vceCsReloc env 3 2 st.tmp st.bsIdx st
  | .feedbackBuffer => vceCsReloc env 3 2 4096 st.fbIdx st

/-- The loop body of `amdgpu_vce_ring_parse_cs`. -/
def vceCommand (st : VceState) : Outcome VceState :=
  let st := ({ st with len := st.get 0 }.touch 0).touch 1
  if st.len < 8 ∨ st.len &&& 3 ≠ 0 then .ret st (some .EINVAL)
  else
    match vceCmd (st.get 1) with
    | none => .ret st (some .EINVAL)
    | some cmd =>
      (vceSwitch env st cmd).andThen fun st =>
        if st.sessionIdx = none then .ret st (some .EINVAL)
        else .ret { st with idx := st.idx + st.len.toNat / 4 } none

/-- The loop of `amdgpu_vce_ring_parse_cs`, for at most as many commands as there is fuel. -/
def vceLoop : ℕ → VceState → Outcome VceState
  | 0, st => .ret st none
  | fuel + 1, st =>
    if env.lengthDw ≤ st.idx then .ret st none
    else (vceCommand env st).andThen (vceLoop fuel)

/-- `out:` — the slots of the destroyed sessions, or after an error of the allocated ones, are
freed. -/
def vceOut (r : Option Errno) (st : VceState) : Outcome VceState :=
  let tmp := if r = none then st.destroyed else st.allocated
  .ret { st with
    tmp := tmp
    slots := st.slots.mapIdx fun i slot =>
      if tmp &&& 1 <<< i ≠ 0 then { slot with handle := 0 } else slot } r

/-- The variables at the start of `amdgpu_vce_ring_parse_cs`; `tmp` is not initialized. -/
def VceState.init (ptr : IbWords) (slots : List VceSlot) (tmp : BitVec 32) : VceState where
  ptr := ptr
  slots := slots
  idx := 0
  len := 0
  fbIdx := 0
  bsIdx := 0
  sessionIdx := none
  destroyed := 0
  created := 0
  allocated := 0
  tmp := tmp
  size := none
  touched := []

/-- `amdgpu_vce_ring_parse_cs` -/
def vceRingParseCs (st : VceState) : Outcome VceState :=
  if env.sysvmAccess.isSome then .ret st env.sysvmAccess
  else
    match vceLoop env env.lengthDw st with
    | .ret st none => vceOut (if st.allocated &&& ~~~st.created ≠ 0 then some .ENOENT else none) st
    | .ret st (some e) => vceOut (some e) st
    | .bug st => .bug st

/-! ## How far the parser goes into a command -/

/-- The dwords of a command of each kind up to the last one the parser looks at. -/
def vceCmdDwords (st : VceState) : VceCmd → ℕ
  | .session => 3
  | .taskInfo => 8
  | .create => if st.mayCreate then 11 else 2
  | .encode => if (vceRelocAddr env (st.get 10) (st.get 9) st.sizeVal 0).isSome then 13 else 11
  | .contextBuffer => 4
  | .bitstreamBuffer => 5
  | .feedbackBuffer => 4
  | .destroy => 2
  | .hwConfig => 2
  | .plain => 2

/-- The dwords of the command at `idx` up to the last one the parser looks at. -/
def vceDwords (st : VceState) : ℕ :=
  if st.get 0 < 8 ∨ st.get 0 &&& 3 ≠ 0 then 2
  else
    match vceCmd (st.get 1) with
    | none => 2
    | some cmd => vceCmdDwords env st cmd

/-- The command at `idx` declares at least the dwords the parser looks at, and they are part of
the buffer. -/
def VceState.Fits (st : VceState) : Prop :=
  st.idx + vceDwords env st ≤ env.lengthDw ∧ 4 * vceDwords env st ≤ (st.get 0).toNat

/-- The states of the parser at the start of its commands: the one it starts with, then the one
after the first command, and so on as long as there are commands and no errors. -/
def vceStates (st : VceState) : ℕ → Option VceState
  | 0 => some st
  | n + 1 =>
    if env.lengthDw ≤ st.idx then none
    else
      match vceCommand env st with
      | .ret st' none => vceStates st' n
      | _ => none

end Parser

/-! ## One command -/

namespace VceState

variable {n k off : ℕ} {st : VceState}

/-- All dwords so far were part of the buffer and of their commands. -/
def AllInside (n : ℕ) (st : VceState) : Prop := ∀ a ∈ st.touched, a.Inside n

/-- The first `k` dwords of the current command are part of it and of the buffer. -/
def HasDwords (n k : ℕ) (st : VceState) : Prop := st.idx + k ≤ n ∧ 4 * k ≤ st.len.toNat

theorem HasDwords.mono {j : ℕ} (h : st.HasDwords n k) (hjk : j ≤ k) : st.HasDwords n j :=
  ⟨by have := h.1; omega, by have := h.2; omega⟩

@[simp] theorem allInside_touch :
    (st.touch off).AllInside n ↔ st.HasDwords n (off + 1) ∧ st.AllInside n := by
  simp only [AllInside, touch, List.forall_mem_cons, VceAccess.Inside, HasDwords,
    Nat.add_sub_cancel_left]
  exact and_congr_left' (and_congr_left' (by omega))

@[simp] theorem hasDwords_touch : (st.touch off).HasDwords n k ↔ st.HasDwords n k := Iff.rfl

/-- Writing `*size` touches no dword. -/
@[simp] theorem allInside_setSize (value : BitVec 32) :
    (st.setSize value).AllInside n ↔ st.AllInside n := by
  rw [setSize]
  split <;> exact Iff.rfl

end VceState

section Command

variable {env : VceEnv} {n : ℕ} {st : VceState}

/-- A relocation touches its two dwords, whether it succeeds or not. -/
theorem vceCsReloc_allInside (lo hi : ℕ) (size index : BitVec 32) :
    (vceCsReloc env lo hi size index st).state.AllInside n ↔
      st.HasDwords n (lo + 1) ∧ st.HasDwords n (hi + 1) ∧ st.AllInside n := by
  rw [vceCsReloc]
  dsimp only
  split
  · simp only [Outcome.state_ret, VceState.allInside_touch, VceState.hasDwords_touch]
    tauto
  · change (((((st.touch lo).touch hi).touch lo).touch hi).AllInside n) ↔ _
    simp only [VceState.allInside_touch, VceState.hasDwords_touch]
    tauto

/-- A relocation stays at the command. -/
theorem vceCsReloc_stays (env : VceEnv) (st : VceState) (lo hi : ℕ) (size index : BitVec 32) :
    (vceCsReloc env lo hi size index st).state.idx = st.idx ∧
      (vceCsReloc env lo hi size index st).state.len = st.len := by
  rw [vceCsReloc]
  dsimp only
  split <;> exact ⟨rfl, rfl⟩

/-- A relocation that finds no address fails. -/
theorem vceCsReloc_of_none {lo hi : ℕ} {size index : BitVec 32}
    (h : vceRelocAddr env (st.get lo) (st.get hi) size index = none) :
    ∃ st' e, vceCsReloc env lo hi size index st = .ret st' (some e) := by
  have h' : vceRelocAddr env (((st.touch lo).touch hi).get lo) (((st.touch lo).touch hi).get hi)
      size index = none := h
  rw [vceCsReloc]
  dsimp only
  rw [h']
  exact ⟨_, _, rfl⟩

/-- A relocation that finds an address succeeds. -/
theorem vceCsReloc_of_some {lo hi : ℕ} {size index : BitVec 32} {addr : BitVec 64}
    (h : vceRelocAddr env (st.get lo) (st.get hi) size index = some addr) :
    ∃ st', vceCsReloc env lo hi size index st = .ret st' none := by
  have h' : vceRelocAddr env (((st.touch lo).touch hi).get lo) (((st.touch lo).touch hi).get hi)
      size index = some addr := h
  rw [vceCsReloc]
  dsimp only
  rw [h']
  exact ⟨_, rfl⟩

/-- Both relocations of an encode command, or only the first one if it fails. -/
theorem vceSwitch_encode_allInside :
    (vceSwitch env st .encode).state.AllInside n ↔
      st.HasDwords n (vceCmdDwords env st .encode) ∧ st.AllInside n := by
  have hfirst : (vceCsReloc env 10 9 st.sizeVal 0 st).state.AllInside n ↔ _ :=
    vceCsReloc_allInside 10 9 st.sizeVal 0
  rw [vceSwitch, vceCmdDwords]
  cases haddr : vceRelocAddr env (st.get 10) (st.get 9) st.sizeVal 0 with
  | none =>
    obtain ⟨st', e, heq⟩ := vceCsReloc_of_none haddr
    rw [heq] at hfirst ⊢
    simp only [Outcome.andThen, Outcome.state_ret] at hfirst ⊢
    rw [hfirst]
    exact ⟨fun h => ⟨h.1, h.2.2⟩, fun h => ⟨h.1, h.1.mono (by simp), h.2⟩⟩
  | some addr =>
    obtain ⟨st', heq⟩ := vceCsReloc_of_some haddr
    obtain ⟨hidx, hlen⟩ := vceCsReloc_stays env st 10 9 st.sizeVal 0
    rw [heq] at hfirst hidx hlen ⊢
    simp only [Outcome.andThen, Outcome.state_ret] at hfirst hidx hlen ⊢
    have hsame : ∀ k, st'.HasDwords n k ↔ st.HasDwords n k := fun k => by
      rw [VceState.HasDwords, VceState.HasDwords, hidx, hlen]
    rw [vceCsReloc_allInside, hfirst, hsame, hsame]
    exact ⟨fun h => ⟨h.1, h.2.2.2.2⟩,
      fun h => ⟨h.1, h.1.mono (by simp), h.1.mono (by simp), h.1.mono (by simp), h.2⟩⟩

/-- A create command touches its dimensions if it is allowed. -/
theorem vceCreate_allInside :
    (vceCreate st).state.AllInside n ↔
      (if st.mayCreate then st.HasDwords n 11 ∧ st.AllInside n else st.AllInside n) := by
  rw [vceCreate]
  dsimp only
  cases st.mayCreate with
  | false => exact Iff.rfl
  | true =>
    simp only [Bool.not_true, Bool.false_eq_true, if_false, if_true, Outcome.state_ret,
      VceState.allInside_setSize, VceState.allInside_touch, VceState.hasDwords_touch]
    have h : ∀ st' : VceState, st'.idx = st.idx → st'.len = st.len → st'.touched = st.touched →
        (st'.HasDwords n 11 ∧ st'.HasDwords n 9 ∧ st'.AllInside n ↔
          st.HasDwords n 11 ∧ st.AllInside n) := fun st' hidx hlen htouched => by
      rw [VceState.HasDwords, VceState.HasDwords, VceState.AllInside, hidx, hlen, htouched]
      exact ⟨fun h => ⟨h.1, h.2.2⟩, fun h => ⟨h.1, h.1.mono (by simp), h.2⟩⟩
    split_ifs <;> exact h _ rfl rfl rfl

/-- A command touches its fields, as far as the parser goes into it, after its header. -/
theorem vceSwitch_allInside (hhead : st.AllInside n → st.HasDwords n 2) (cmd : VceCmd) :
    (vceSwitch env st cmd).state.AllInside n ↔
      st.HasDwords n (vceCmdDwords env st cmd) ∧ st.AllInside n := by
  cases cmd with
  | encode => exact vceSwitch_encode_allInside
  | session =>
    have h : (vceSession env st).state.AllInside n ↔ (st.touch 2).AllInside n := by
      rw [vceSession]
      split <;> exact Iff.rfl
    rw [vceSwitch, h, VceState.allInside_touch, vceCmdDwords]
  | taskInfo =>
    change ((st.touch 6).touch 7).AllInside n ↔ _
    simp only [VceState.allInside_touch, VceState.hasDwords_touch, vceCmdDwords]
    exact ⟨fun h => ⟨h.1, h.2.2⟩, fun h => ⟨h.1, h.1.mono (by simp), h.2⟩⟩
  | create =>
    rw [vceSwitch, vceCmdDwords, vceCreate_allInside]
    split_ifs
    · exact Iff.rfl
    · exact (and_iff_right_of_imp hhead).symm
  | contextBuffer =>
    rw [vceSwitch, vceCsReloc_allInside, vceCmdDwords]
    exact ⟨fun h => ⟨h.1, h.2.2⟩, fun h => ⟨h.1, h.1.mono (by simp), h.2⟩⟩
  | bitstreamBuffer =>
    rw [vceSwitch, vceCsReloc_allInside, vceCmdDwords]
    change (st.HasDwords n 4 ∧ st.HasDwords n 3 ∧ (st.touch 4).AllInside n) ↔ _
    rw [VceState.allInside_touch]
    exact ⟨fun h => h.2.2, fun h => ⟨h.1.mono (by simp), h.1.mono (by simp), h⟩⟩
  | feedbackBuffer =>
    rw [vceSwitch, vceCsReloc_allInside, vceCmdDwords]
    exact ⟨fun h => ⟨h.1, h.2.2⟩, fun h => ⟨h.1, h.1.mono (by simp), h.2⟩⟩
  | hwConfig | plain | destroy => exact (and_iff_right_of_imp hhead).symm

/-- A command that succeeds stays at the command. -/
theorem vceSwitch_stays {cmd : VceCmd} {st' : VceState}
    (h : vceSwitch env st cmd = .ret st' none) : st'.idx = st.idx ∧ st'.len = st.len := by
  have hreloc : ∀ {lo hi size index} {s s' : VceState},
      vceCsReloc env lo hi size index s = .ret s' none → s'.idx = s.idx ∧ s'.len = s.len :=
    fun {lo hi size index s s'} hs => by
      have := vceCsReloc_stays env s lo hi size index
      rwa [hs] at this
  cases cmd with
  | session =>
    rw [vceSwitch, vceSession] at h
    split at h <;> cases h
    exact ⟨rfl, rfl⟩
  | taskInfo | plain | destroy => cases h; exact ⟨rfl, rfl⟩
  | hwConfig =>
    rw [← (Outcome.ret.inj h).1]
    exact ⟨rfl, rfl⟩
  | create =>
    rw [vceSwitch, vceCreate] at h
    dsimp only at h
    split_ifs at h
    · cases h
    all_goals
      rw [← (Outcome.ret.inj h).1, VceState.setSize]
      split <;> exact ⟨rfl, rfl⟩
  | encode =>
    obtain ⟨st₁, h₁, h₂⟩ := Outcome.andThen_eq_ret_none.mp h
    obtain ⟨hidx₁, hlen₁⟩ := hreloc h₁
    obtain ⟨hidx₂, hlen₂⟩ := hreloc h₂
    exact ⟨hidx₂.trans hidx₁, hlen₂.trans hlen₁⟩
  | contextBuffer | feedbackBuffer => exact hreloc h
  | bitstreamBuffer =>
    obtain ⟨hidx, hlen⟩ := hreloc h
    exact ⟨hidx, hlen⟩

theorem two_le_vceCmdDwords (cmd : VceCmd) : 2 ≤ vceCmdDwords env st cmd := by
  cases cmd <;> grind [vceCmdDwords]

/-- What follows the `switch` touches nothing. -/
theorem vceCommand_tail_allInside (o : Outcome VceState) :
    (o.andThen fun st => if st.sessionIdx = none then .ret st (some .EINVAL)
      else .ret { st with idx := st.idx + st.len.toNat / 4 } none).state.AllInside n ↔
      o.state.AllInside n := by
  rcases o with ⟨st, _ | e⟩ | st
  · simp only [Outcome.andThen]
    split_ifs <;> exact Iff.rfl
  · exact Iff.rfl
  · exact Iff.rfl

/-- **One command**: the parser stays inside if and only if the command fits. -/
theorem vceCommand_inside_iff :
    (vceCommand env st).state.AllInside env.lengthDw ↔
      st.Fits env ∧ st.AllInside env.lengthDw := by
  -- the header is two dwords of a command with the length found there
  let st₁ := ({ st with len := st.get 0 }.touch 0).touch 1
  have hhead : st₁.AllInside env.lengthDw ↔
      st₁.HasDwords env.lengthDw 2 ∧ st.AllInside env.lengthDw := by
    rw [VceState.allInside_touch, VceState.allInside_touch]
    exact ⟨fun h => ⟨h.1, h.2.2⟩, fun h => ⟨h.1, h.1.mono (by simp), h.2⟩⟩
  rw [VceState.Fits, vceDwords, vceCommand]
  by_cases hlen : st.get 0 < 8 ∨ st.get 0 &&& 3 ≠ 0
  · rw [if_pos hlen, if_pos (show st₁.len < 8 ∨ st₁.len &&& 3 ≠ 0 from hlen)]
    exact hhead
  rw [if_neg hlen, if_neg (show ¬ (st₁.len < 8 ∨ st₁.len &&& 3 ≠ 0) from hlen)]
  cases hcmd : vceCmd (st.get 1) with
  | none =>
    rw [show vceCmd (st₁.get 1) = none from hcmd]
    exact hhead
  | some cmd =>
    rw [show vceCmd (st₁.get 1) = some cmd from hcmd]
    dsimp only
    rw [vceCommand_tail_allInside, vceSwitch_allInside (fun h => (hhead.mp h).1), hhead,
      show vceCmdDwords env st₁ cmd = vceCmdDwords env st cmd by cases cmd <;> rfl]
    exact ⟨fun h => ⟨h.1, h.2.2⟩,
      fun h => ⟨h.1, VceState.HasDwords.mono h.1 (two_le_vceCmdDwords cmd), h.2⟩⟩

/-! ## The whole buffer -/

/-- A command that succeeds is at least two dwords long. -/
theorem vceCommand_idx {st' : VceState} (h : vceCommand env st = .ret st' none) :
    st.idx < st'.idx := by
  rw [vceCommand] at h
  split_ifs at h with hlen
  · cases h
  split at h
  · cases h
  next cmd _ =>
  obtain ⟨st₁, hswitch, hrest⟩ := Outcome.andThen_eq_ret_none.mp h
  obtain ⟨hidx, hlen₁⟩ := vceSwitch_stays hswitch
  split_ifs at hrest
  · cases hrest
  cases hrest
  have h8 : ¬ st.get 0 < 8 := fun h8 => hlen (.inl h8)
  rw [BitVec.lt_def] at h8
  change st.idx < st₁.idx + st₁.len.toNat / 4
  change st₁.len = st.get 0 at hlen₁
  change st₁.idx = st.idx at hidx
  rw [hidx, hlen₁]
  simp only [BitVec.ofNat_eq_ofNat, BitVec.toNat_ofNat] at h8
  omega

/-- The states of the parser are its first one, and those after the first command if that
succeeds. -/
theorem vceStates_forall (P : VceState → Prop) (hlen : st.idx < env.lengthDw) :
    (∀ k s, vceStates env st k = some s → P s) ↔
      P st ∧ ∀ st', vceCommand env st = .ret st' none →
        ∀ k s, vceStates env st' k = some s → P s := by
  have hsucc : ∀ k, vceStates env st (k + 1) =
      match vceCommand env st with
      | .ret st' none => vceStates env st' k
      | _ => none := fun k => by rw [vceStates, if_neg (not_le.mpr hlen)]
  constructor
  · intro h
    refine ⟨h 0 st rfl, fun st' hst' k s hs => h (k + 1) s ?_⟩
    rw [hsucc, hst']
    exact hs
  · rintro ⟨h0, h⟩ k s hs
    cases k with
    | zero => cases hs; exact h0
    | succ k =>
      rw [hsucc] at hs
      split at hs
      · next st' hst' => exact h st' hst' k s hs
      · cases hs

/-- At the end of the buffer there is no further command. -/
theorem vceStates_end (hlen : env.lengthDw ≤ st.idx) {k : ℕ} {s : VceState}
    (h : vceStates env st k = some s) : env.lengthDw ≤ s.idx := by
  cases k with
  | zero => cases h; exact hlen
  | succ k => rw [vceStates, if_pos hlen] at h; cases h

/-- The loop stays inside if and only if every command it comes to fits. -/
theorem vceLoop_inside_iff {fuel : ℕ} (hfuel : env.lengthDw ≤ fuel + st.idx) :
    (vceLoop env fuel st).state.AllInside env.lengthDw ↔
      (∀ k s, vceStates env st k = some s → s.idx < env.lengthDw → s.Fits env) ∧
        st.AllInside env.lengthDw := by
  induction fuel generalizing st with
  | zero =>
    refine (and_iff_right fun k s hs hlt => absurd ?_ (not_le.mpr hlt)).symm
    exact vceStates_end (by omega) hs
  | succ fuel ih =>
    rw [vceLoop]
    split_ifs with hlen
    · exact (and_iff_right fun k s hs hlt => absurd (vceStates_end hlen hs) (not_le.mpr hlt)).symm
    have hlt := not_le.mp hlen
    have hcmd : (vceCommand env st).state.AllInside env.lengthDw ↔ _ := vceCommand_inside_iff
    rw [vceStates_forall _ hlt, forall_prop_of_true hlt]
    rcases hout : vceCommand env st with ⟨st', _ | e⟩ | st'
    · rw [hout] at hcmd
      have hidx := vceCommand_idx hout
      rw [Outcome.andThen, ih (by omega), show st'.AllInside env.lengthDw ↔ _ from hcmd]
      simp only [Outcome.ret.injEq, and_true, forall_eq']
      tauto
    · rw [hout] at hcmd
      simp only [Outcome.andThen, reduceCtorEq, Outcome.ret.injEq, and_false, false_imp_iff,
        implies_true, and_true]
      exact hcmd
    · rw [hout] at hcmd
      simp only [Outcome.andThen, reduceCtorEq, false_imp_iff, implies_true, and_true]
      exact hcmd

end Command

/-- **VCE dwords.** The parser reads and rewrites only dwords of the buffer, and of the command
they are for, if and only if every command it comes to declares the dwords the parser looks at
and has them inside the buffer. -/
theorem vce_accesses_inside_iff (env : VceEnv) (ptr : IbWords) (slots : List VceSlot)
    (tmp : BitVec 32) :
    (∀ a ∈ (vceRingParseCs env (.init ptr slots tmp)).state.touched, a.Inside env.lengthDw) ↔
      (env.sysvmAccess = none → ∀ k st, vceStates env (.init ptr slots tmp) k = some st →
        st.idx < env.lengthDw → st.Fits env) := by
  rw [vceRingParseCs]
  cases hsysvm : env.sysvmAccess with
  | some e => simp [VceState.init]
  | none =>
    have hloop : (vceLoop env env.lengthDw (.init ptr slots tmp)).state.AllInside env.lengthDw ↔
      _ := vceLoop_inside_iff (by simp)
    simp only [Option.isSome_none, Bool.false_eq_true, if_false, forall_const]
    rw [and_iff_left (show VceState.AllInside _ (.init ptr slots tmp) from nofun)] at hloop
    rw [← hloop]
    rcases vceLoop env env.lengthDw (.init ptr slots tmp) with ⟨st, _ | e⟩ | st <;> exact Iff.rfl

/-- A submission of 5 dwords with one page at `0x100000`, mapped at page 1. -/
def onePageEnv : VceEnv where
  bos := ⟨some [some ⟨⟨0, 0x1000⟩, [⟨0, 1, 1, 0, 0⟩], []⟩], fun _ => 0x100000⟩
  lengthDw := 5
  filp := 1
  asicType := .tonga
  cik := false
  sysvmAccess := none

/-- A session command and an encode command of 8 bytes, at the end of the buffer. Behind it the
memory holds addresses of the page. -/
def shortEncodeIb : IbWords := fun i =>
  [12, 1, 5, 8, 0x03000001, 0, 0, 0, 0, 0, 0, 0, 0, 0x1000, 0, 0x1000].getD i 0

/-- The relocations of the encode command read and rewrite memory behind the buffer. -/
theorem vce_accesses_outside :
    let st := (vceRingParseCs onePageEnv
      (.init shortEncodeIb (List.replicate 16 ⟨0, none, 0⟩) 0)).state
    (∃ a ∈ st.touched, a.cmd = 3 ∧ a.pos = 13 ∧ ¬ a.Inside onePageEnv.lengthDw) ∧
      shortEncodeIb 13 = 0x1000 ∧ st.ptr 13 = 0x100000 := by
  decide +kernel

end Amdgpu
