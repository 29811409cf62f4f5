import AmdgpuPro.Cs.Ib
import AmdgpuPro.Uvd.Session

set_option autoImplicit false

/-!
# The UVD command parser

`amdgpu_uvd_ring_parse_cs` goes over a UVD command buffer twice. The buffer is a list of packets
that write registers: two data registers take the halves of an address, and a write to the
command register makes the engine work on that address. The first pass moves the buffer objects
to where the engine can reach them, the second one checks the sizes and writes the addresses of
the buffer objects into the dwords that are written to the data registers.

## Main definitions

* `Amdgpu.uvdRingParseCs` — the parser, with both passes.
* `ibWrites`, `uvdHwRun` — the register writes of a buffer, and the commands the engine executes
  with the contents of its data registers.
* `UvdEnv.Inside` — an executed command stays inside a mapped buffer object, with room for the size
  it was checked against.
* `UvdPaired` — every command has two data dwords of its own.

## Main results

* `Amdgpu.uvdCsPackets_idx` — a pass that succeeds went over the whole buffer.
* `uvd_commands_inside` — in a paired buffer that is accepted all commands are executed inside
  buffer objects of the submitter.

## Design

`ctx.data0` and `ctx.data1` are the places of the last dwords for the data registers. They start
as `0` and are not reset between the passes, so a command without data dwords of its own works
on the dwords of another command, or on the first packet header. The engine's registers are
those left by an earlier buffer. The loop over the packets has fuel for one packet per dword,
which is always enough.
-/

namespace Amdgpu

/-! ## The parser -/

/-- `mmUVD_GPCOM_VCPU_CMD` -/
def mmUvdGpcomVcpuCmd : ℕ := 0x3bc3

/-- `mmUVD_GPCOM_VCPU_DATA0` -/
def mmUvdGpcomVcpuData0 : ℕ := 0x3bc4

/-- `mmUVD_GPCOM_VCPU_DATA1` -/
def mmUvdGpcomVcpuData1 : ℕ := 0x3bc5

/-- `mmUVD_ENGINE_CNTL` -/
def mmUvdEngineCntl : ℕ := 0x3bc6

/-- `mmUVD_NO_OP` -/
def mmUvdNoOp : ℕ := 0x3bff

/-- `CP_PACKET_GET_TYPE` -/
def cpPacketGetType (h : BitVec 32) : ℕ := ((h >>> 30) &&& 3).toNat

/-- `CP_PACKET_GET_COUNT` -/
def cpPacketGetCount (h : BitVec 32) : ℕ := ((h >>> 16) &&& 0x3fff).toNat

/-- `CP_PACKET0_GET_REG` -/
def cpPacket0GetReg (h : BitVec 32) : ℕ := (h &&& 0xffff).toNat

/-- The surroundings of a parser call. -/
structure UvdEnv where
  bos : PlacedBos
  /-- `ib->length_dw` -/
  lengthDw : ℕ
  /-- `parser->filp` -/
  filp : ℕ
  /-- `adev->uvd.address_64_bit` -/
  address64Bit : Bool
  /-- `adev->uvd.use_ctx_buf` -/
  useCtxBuf : Bool
  /-- `adev->uvd.gpu_addr` -/
  gpuAddr : BitVec 64
  /-- what `amdgpu_cs_sysvm_access_required` returns -/
  sysvmAccess : Option Errno
  /-- what `ttm_bo_validate` returns for the command at a dword, with VRAM forced or not -/
  validate : ℕ → Bo → Bool → Option Errno
  /-- what `amdgpu_bo_kmap` returns -/
  kmap : Bo → Option Errno
  /-- the dwords of a buffer object from an offset on -/
  msg : Bo → BitVec 32 → ℕ → BitVec 32

/-- `amdgpu_uvd_cs_ctx` with the buffer and the table the parser changes. -/
structure UvdCsCtx where
  reg : ℕ
  count : ℕ
  data0 : ℕ
  data1 : ℕ
  idx : ℕ
  hasMsgCmd : Bool
  bufSizes : UvdBufSizes
  ptr : IbWords
  slots : List UvdSlot
  /-- the commands that passed their size check: where they are and the size -/
  checked : List (ℕ × ℕ)

namespace UvdCsCtx

/-- The address in the current data dwords. -/
def addr (ctx : UvdCsCtx) : BitVec 64 :=
  ibAddr (getIbValue ctx.ptr ctx.data0) (getIbValue ctx.ptr ctx.data1)

/-- The command number of the dword at `idx`. -/
def cmd (ctx : UvdCsCtx) : BitVec 32 := getIbValue ctx.ptr ctx.idx >>> 1

/-- Write an address into the current data dwords. -/
def patch (ctx : UvdCsCtx) (start : BitVec 64) : UvdCsCtx :=
  { ctx with
    ptr := setIbValue (setIbValue ctx.ptr ctx.data0 (lower32Bits start)) ctx.data1
      (upper32Bits start) }

/-- Go on to the next dword. -/
def next (ctx : UvdCsCtx) : UvdCsCtx := { ctx with idx := ctx.idx + 1 }

end UvdCsCtx

section Passes

variable (env : UvdEnv)

/-- `amdgpu_uvd_cs_pass1` -/
def uvdCsPass1 (ctx : UvdCsCtx) : Outcome UvdCsCtx :=
  match csFindMapping env.bos.boList ctx.addr with
  | none => .ret ctx (some .EINVAL)
  | some (bo, _) =>
    if !env.address64Bit then
      .ret ctx (env.validate ctx.idx bo (ctx.cmd = 0 ∨ ctx.cmd = 3))
    else .ret ctx none

/-- The size a command needs, `0` where nothing is checked and `none` for no command at all. -/
def uvdCmdSize (bufSizes : UvdBufSizes) (cmd : BitVec 32) : Option ℕ :=
  if cmd < 4 then some (bufSizes cmd.toNat).toNat
  else if cmd = 0x206 then some (bufSizes 4).toNat
  else if cmd = 0x100 ∨ cmd = 0x204 then some 0
  else none

/-- The checks for an engine that works in one segment of 256 MB. -/
def uvdSegmentOk (cmd : BitVec 32) (start stop : BitVec 64) : Bool :=
  env.address64Bit ||
    (start >>> 28 == (stop - 1) >>> 28 &&
      (!(cmd == 0 || cmd == 3) || start >>> 28 == env.gpuAddr >>> 28))

/-- The end of `amdgpu_uvd_cs_pass2`: message commands are handled, and come first. -/
def uvdPass2Msg (bo : Bo) (offset : BitVec 32) (ctx : UvdCsCtx) : Outcome UvdCsCtx :=
  if ctx.cmd = 0 then
    let ctx := { ctx with hasMsgCmd := true }
    match uvdCsMsg env.useCtxBuf env.filp ⟨offset, env.kmap bo, env.msg bo offset⟩
        ⟨ctx.slots, ctx.bufSizes⟩ with
    | .ret st r => .ret { ctx with slots := st.slots, bufSizes := st.bufSizes } r
    | .bug st => .bug { ctx with slots := st.slots, bufSizes := st.bufSizes }
  else if !ctx.hasMsgCmd then .ret ctx (some .EINVAL)
  else .ret ctx none

/-- `amdgpu_uvd_cs_pass2` -/
def uvdCsPass2 (ctx : UvdCsCtx) : Outcome UvdCsCtx :=
  let addr := ctx.addr
  match csFindMapping env.bos.boList addr with
  | none => .ret ctx (some .EINVAL)
  | some (bo, mapping) =>
    let stop := mapping.byteSize + env.bos.gpuOffset bo
    let start := env.bos.gpuOffset bo + mapping.byteOffset addr
    let ctx := ctx.patch start
    match uvdCmdSize ctx.bufSizes ctx.cmd with
    | none => .ret ctx (some .EINVAL)
    | some size =>
      if (stop - start).toNat < size then .ret ctx (some .EINVAL)
      else if !uvdSegmentOk env ctx.cmd start stop then .ret ctx (some .EINVAL)
      else uvdPass2Msg env bo ((mapping.byteOffset addr).setWidth 32)
        { ctx with checked := (ctx.idx, size) :: ctx.checked }

variable (cb : UvdCsCtx → Outcome UvdCsCtx)

/-- The loop body of `amdgpu_uvd_cs_reg`: the dword at `idx` goes to the register `reg`. -/
def uvdRegWrite (reg : ℕ) (ctx : UvdCsCtx) : Outcome UvdCsCtx :=
  if ctx.idx ≥ env.lengthDw then .ret ctx (some .EINVAL)
  else if reg = mmUvdGpcomVcpuData0 then .ret { ctx with data0 := ctx.idx }.next none
  else if reg = mmUvdGpcomVcpuData1 then .ret { ctx with data1 := ctx.idx }.next none
  else if reg = mmUvdGpcomVcpuCmd then (cb ctx).andThen fun ctx => .ret ctx.next none
  else if reg = mmUvdEngineCntl ∨ reg = mmUvdNoOp then .ret ctx.next none
  else .ret ctx (some .EINVAL)

/-- The loop of `amdgpu_uvd_cs_reg`, for `n` registers from `reg` on. -/
def uvdRegLoop : ℕ → ℕ → UvdCsCtx → Outcome UvdCsCtx
  | 0, _, ctx => .ret ctx none
  | n + 1, reg, ctx => (uvdRegWrite env cb reg ctx).andThen (uvdRegLoop n (reg + 1))

/-- `amdgpu_uvd_cs_reg` -/
def uvdCsReg (ctx : UvdCsCtx) : Outcome UvdCsCtx :=
  uvdRegLoop env cb (ctx.count + 1) ctx.reg ctx.next

/-- `amdgpu_uvd_cs_packets` from `idx` on, for at most as many packets as there is fuel. -/
def uvdCsPackets : ℕ → UvdCsCtx → Outcome UvdCsCtx
  | 0, ctx => .ret ctx none
  | fuel + 1, ctx =>
    if env.lengthDw ≤ ctx.idx then .ret ctx none
    else
      let cmd := getIbValue ctx.ptr ctx.idx
      if cpPacketGetType cmd = 0 then
        (uvdCsReg env cb { ctx with
          reg := cpPacket0GetReg cmd, count := cpPacketGetCount cmd }).andThen (uvdCsPackets fuel)
      else if cpPacketGetType cmd = 2 then uvdCsPackets fuel ctx.next
      else .ret ctx (some .EINVAL)

end Passes

/-- `ctx` at the start of `amdgpu_uvd_ring_parse_cs` -/
def UvdCsCtx.init (ptr : IbWords) (slots : List UvdSlot) : UvdCsCtx where
  reg := 0
  count := 0
  data0 := 0
  data1 := 0
  idx := 0
  hasMsgCmd := false
  bufSizes := uvdBufSizes
  ptr := ptr
  slots := slots
  checked := []

/-- `amdgpu_uvd_ring_parse_cs` -/
def uvdRingParseCs (env : UvdEnv) (ptr : IbWords) (slots : List UvdSlot) : Outcome UvdCsCtx :=
  let ctx := UvdCsCtx.init ptr slots
  if env.lengthDw % 16 ≠ 0 then .ret ctx (some .EINVAL)
  else if env.sysvmAccess.isSome then .ret ctx env.sysvmAccess
  else
    (uvdCsPackets env (uvdCsPass1 env) env.lengthDw ctx).andThen fun ctx =>
      (uvdCsPackets env (uvdCsPass2 env) env.lengthDw { ctx with idx := 0 }).andThen fun ctx =>
        .ret ctx (if !ctx.hasMsgCmd then some .EINVAL else none)

/-! ## The engine -/

/-- The dword at `pos` goes to the register `reg`. -/
structure RegWrite where
  reg : ℕ
  pos : ℕ
  deriving DecidableEq

/-- The writes of `n` dwords from `pos` on to the registers from `reg` on. -/
def packetWrites (reg pos : ℕ) : ℕ → List RegWrite
  | 0 => []
  | n + 1 => ⟨reg, pos⟩ :: packetWrites (reg + 1) (pos + 1) n

/-- The register writes of the packets from `pos` on. -/
def ibWrites (lengthDw : ℕ) (ptr : IbWords) : ℕ → ℕ → List RegWrite
  | 0, _ => []
  | fuel + 1, pos =>
    if lengthDw ≤ pos then []
    else
      let cmd := getIbValue ptr pos
      if cpPacketGetType cmd = 0 then
        packetWrites (cpPacket0GetReg cmd) (pos + 1) (cpPacketGetCount cmd + 1) ++
          ibWrites lengthDw ptr fuel (pos + 1 + (cpPacketGetCount cmd + 1))
      else if cpPacketGetType cmd = 2 then ibWrites lengthDw ptr fuel (pos + 1)
      else []

/-- A command as the engine executes it: the place of its dword and the address in the data
registers. -/
structure UvdExec where
  pos : ℕ
  addr : BitVec 64

/-- The data registers of the engine, and the commands it executed. -/
structure UvdHw where
  data0 : BitVec 32
  data1 : BitVec 32
  execs : List UvdExec

/-- The engine at a register write. -/
def UvdHw.write (ptr : IbWords) (hw : UvdHw) (w : RegWrite) : UvdHw :=
  if w.reg = mmUvdGpcomVcpuData0 then { hw with data0 := ptr w.pos }
  else if w.reg = mmUvdGpcomVcpuData1 then { hw with data1 := ptr w.pos }
  else if w.reg = mmUvdGpcomVcpuCmd then
    { hw with execs := hw.execs ++ [⟨w.pos, ibAddr hw.data0 hw.data1⟩] }
  else hw

/-- The commands of a buffer, executed with `data0` and `data1` in the data registers before. -/
def uvdHwRun (lengthDw : ℕ) (ptr : IbWords) (data0 data1 : BitVec 32) : List UvdExec :=
  ((ibWrites lengthDw ptr lengthDw 0).foldl (UvdHw.write ptr) ⟨data0, data1, []⟩).execs

/-- The executed command was checked against a size, and so many bytes from its address on lie
inside a buffer object the submitter mapped. -/
def UvdEnv.Inside (env : UvdEnv) (checked : List (ℕ × ℕ)) (e : UvdExec) : Prop :=
  ∃ c ∈ checked, c.1 = e.pos ∧ ∃ bv ∈ env.bos.boVas,
    (env.bos.gpuOffset bv.bo).toNat ≤ e.addr.toNat ∧
    e.addr.toNat + c.2 ≤ (env.bos.gpuOffset bv.bo).toNat + bv.bo.size.toNat

instance UvdEnv.decidableInside (env : UvdEnv) (checked : List (ℕ × ℕ)) (e : UvdExec) :
    Decidable (env.Inside checked e) :=
  inferInstanceAs (Decidable (∃ c ∈ checked, _))

/-! ## Commands with data of their own -/

/-- Which data registers were written since the last command. -/
abbrev PairState := Bool × Bool

/-- One register write; a command needs both data registers, and uses them up. -/
def pairStep (st : PairState) (w : RegWrite) : Option PairState :=
  if w.reg = mmUvdGpcomVcpuData0 then some (true, st.2)
  else if w.reg = mmUvdGpcomVcpuData1 then some (st.1, true)
  else if w.reg = mmUvdGpcomVcpuCmd then if st.1 && st.2 then some (false, false) else none
  else some st

/-- In the buffer, both data registers are written before each command, after the command
before it. -/
def UvdPaired (lengthDw : ℕ) (ptr : IbWords) : Prop :=
  ((ibWrites lengthDw ptr lengthDw 0).foldlM pairStep (false, false)).isSome

instance (lengthDw : ℕ) (ptr : IbWords) : Decidable (UvdPaired lengthDw ptr) :=
  inferInstanceAs (Decidable (_ = true))

/-! ## What a pass does -/

section Pass

variable {env : UvdEnv} {cb : UvdCsCtx → Outcome UvdCsCtx}

/-- A register write that succeeds: to a data register, to the command register with a call of
the callback, or to a register that does not matter. -/
inductive WriteOutcome (cb : UvdCsCtx → Outcome UvdCsCtx) (reg : ℕ) (ctx ctx' : UvdCsCtx) : Prop
  | data0 (hreg : reg = mmUvdGpcomVcpuData0) (heq : ctx' = { ctx with data0 := ctx.idx }.next)
  | data1 (hreg : reg = mmUvdGpcomVcpuData1) (heq : ctx' = { ctx with data1 := ctx.idx }.next)
  | cmd (hreg : reg = mmUvdGpcomVcpuCmd) (ctx₁ : UvdCsCtx) (hcb : cb ctx = .ret ctx₁ none)
      (heq : ctx' = ctx₁.next)
  | other (h0 : reg ≠ mmUvdGpcomVcpuData0) (h1 : reg ≠ mmUvdGpcomVcpuData1)
      (hc : reg ≠ mmUvdGpcomVcpuCmd) (heq : ctx' = ctx.next)

theorem uvdRegWrite_outcome {reg : ℕ} {ctx ctx' : UvdCsCtx}
    (h : uvdRegWrite env cb reg ctx = .ret ctx' none) : WriteOutcome cb reg ctx ctx' := by
  rw [uvdRegWrite] at h
  split_ifs at h with hlen h0 h1 hc hother
  · cases h
  · cases h; exact .data0 h0 rfl
  · cases h; exact .data1 h1 rfl
  · obtain ⟨ctx₁, hcb, heq⟩ := Outcome.andThen_eq_ret_none.mp h
    cases heq
    exact .cmd hc ctx₁ hcb rfl
  · cases h; exact .other h0 h1 hc rfl
  · cases h

/-- A callback that leaves `idx` alone. -/
def CbForward (cb : UvdCsCtx → Outcome UvdCsCtx) : Prop :=
  ∀ ctx ctx', cb ctx = .ret ctx' none → ctx'.idx = ctx.idx

theorem uvdRegWrite_idx (hcb : CbForward cb) {reg : ℕ} {ctx ctx' : UvdCsCtx}
    (h : uvdRegWrite env cb reg ctx = .ret ctx' none) : ctx'.idx = ctx.idx + 1 := by
  cases uvdRegWrite_outcome h with
  | data0 _ heq | data1 _ heq | other _ _ _ heq => rw [heq]; rfl
  | cmd _ ctx₁ hok heq => rw [heq, ← hcb ctx ctx₁ hok]; rfl

theorem uvdRegLoop_idx (hcb : CbForward cb) {n reg : ℕ} {ctx ctx' : UvdCsCtx}
    (h : uvdRegLoop env cb n reg ctx = .ret ctx' none) : ctx'.idx = ctx.idx + n := by
  induction n generalizing reg ctx with
  | zero => cases h; rfl
  | succ n ih =>
    obtain ⟨ctx₁, h₁, hrest⟩ := Outcome.andThen_eq_ret_none.mp h
    rw [ih hrest, uvdRegWrite_idx hcb h₁]
    omega

/-- The ways one packet of a pass can succeed. -/
theorem uvdCsPackets_succ {fuel : ℕ} {ctx ctx' : UvdCsCtx}
    (h : uvdCsPackets env cb (fuel + 1) ctx = .ret ctx' none) (hlen : ctx.idx < env.lengthDw) :
    let cmd := getIbValue ctx.ptr ctx.idx
    (cpPacketGetType cmd = 0 ∧ ∃ ctx₁, uvdRegLoop env cb (cpPacketGetCount cmd + 1)
        (cpPacket0GetReg cmd)
        { ctx.next with reg := cpPacket0GetReg cmd, count := cpPacketGetCount cmd } =
          .ret ctx₁ none ∧ uvdCsPackets env cb fuel ctx₁ = .ret ctx' none) ∨
      (cpPacketGetType cmd = 2 ∧ uvdCsPackets env cb fuel ctx.next = .ret ctx' none) := by
  rw [uvdCsPackets, if_neg (not_le.mpr hlen)] at h
  dsimp only at h ⊢
  split_ifs at h with h0 h2
  · exact .inl ⟨h0, Outcome.andThen_eq_ret_none.mp h⟩
  · exact .inr ⟨h2, h⟩
  · cases h

/-- A pass that succeeds went over the whole buffer, if it had fuel for a packet per dword. -/
theorem uvdCsPackets_idx (hcb : CbForward cb) {fuel : ℕ} {ctx ctx' : UvdCsCtx}
    (h : uvdCsPackets env cb fuel ctx = .ret ctx' none) (hfuel : env.lengthDw ≤ fuel + ctx.idx) :
    env.lengthDw ≤ ctx'.idx := by
  induction fuel generalizing ctx with
  | zero => cases h; omega
  | succ fuel ih =>
    by_cases hlen : env.lengthDw ≤ ctx.idx
    · rw [uvdCsPackets, if_pos hlen] at h
      cases h
      exact hlen
    rcases uvdCsPackets_succ h (not_le.mp hlen) with ⟨-, ctx₁, h₁, hrest⟩ | ⟨-, hrest⟩
    · have hidx := uvdRegLoop_idx hcb h₁
      simp only [UvdCsCtx.next] at hidx
      exact ih hrest (by omega)
    · exact ih hrest (by simp only [UvdCsCtx.next]; omega)

/-- A pass with a callback that does not write to the buffer does not write to it. -/
theorem uvdCsPackets_ptr (hcb : ∀ c c', cb c = .ret c' none → c'.ptr = c.ptr) {fuel : ℕ}
    {ctx ctx' : UvdCsCtx} (h : uvdCsPackets env cb fuel ctx = .ret ctx' none) :
    ctx'.ptr = ctx.ptr := by
  have hloop : ∀ {n reg : ℕ} {c c' : UvdCsCtx}, uvdRegLoop env cb n reg c = .ret c' none →
      c'.ptr = c.ptr := by
    intro n
    induction n with
    | zero => intro reg c c' h; cases h; rfl
    | succ n ih =>
      intro reg c c' h
      obtain ⟨c₁, h₁, hrest⟩ := Outcome.andThen_eq_ret_none.mp h
      rw [ih hrest]
      cases uvdRegWrite_outcome h₁ with
      | data0 _ heq | data1 _ heq | other _ _ _ heq => rw [heq]; rfl
      | cmd _ c₂ hok heq => rw [heq, ← hcb c c₂ hok]; rfl
  induction fuel generalizing ctx with
  | zero => cases h; rfl
  | succ fuel ih =>
    by_cases hlen : env.lengthDw ≤ ctx.idx
    · rw [uvdCsPackets, if_pos hlen] at h
      cases h
      rfl
    rcases uvdCsPackets_succ h (not_le.mp hlen) with ⟨-, ctx₁, h₁, hrest⟩ | ⟨-, hrest⟩
    · rw [ih hrest, hloop h₁]; rfl
    · rw [ih hrest]; rfl

end Pass

/-- The first pass writes nothing. -/
theorem uvdCsPass1_ptr {env : UvdEnv} {ctx ctx' : UvdCsCtx}
    (h : uvdCsPass1 env ctx = .ret ctx' none) : ctx'.ptr = ctx.ptr := by
  rw [uvdCsPass1] at h
  split at h
  · cases h
  · split_ifs at h <;> rw [← (Outcome.ret.inj h).1]

/-- What is left of a context by the messages. -/
theorem uvdPass2Msg_spec {env : UvdEnv} {bo : Bo} {offset : BitVec 32} {ctx ctx' : UvdCsCtx}
    (h : uvdPass2Msg env bo offset ctx = .ret ctx' none) :
    ctx'.ptr = ctx.ptr ∧ ctx'.idx = ctx.idx ∧ ctx'.data0 = ctx.data0 ∧ ctx'.data1 = ctx.data1 ∧
      ctx'.checked = ctx.checked := by
  rw [uvdPass2Msg] at h
  split_ifs at h
  · dsimp only at h
    split at h <;> cases h
    exact ⟨rfl, rfl, rfl, rfl, rfl⟩
  · cases h
  · cases h
    exact ⟨rfl, rfl, rfl, rfl, rfl⟩

/-- The second pass at a command it accepts: the data dwords get an address that has room for
the size of the command, inside a buffer object of the submitter. -/
theorem uvdCsPass2_spec {env : UvdEnv} {ctx ctx' : UvdCsCtx}
    (h : uvdCsPass2 env ctx = .ret ctx' none) :
    ∃ start size, ctx'.ptr = (ctx.patch start).ptr ∧ ctx'.idx = ctx.idx ∧
      ctx'.checked = (ctx.idx, size) :: ctx.checked ∧
      ∃ bv ∈ env.bos.boVas, (env.bos.gpuOffset bv.bo).toNat ≤ start.toNat ∧
        start.toNat + size ≤ (env.bos.gpuOffset bv.bo).toNat + bv.bo.size.toNat := by
  rw [uvdCsPass2] at h
  dsimp only at h
  split at h
  · cases h
  next bo mapping hfind =>
  split at h
  · cases h
  next size hsize =>
  split_ifs at h with hroom hseg
  · cases h
  · cases h
  obtain ⟨hptr, hidx, -, -, hchecked⟩ := uvdPass2Msg_spec h
  obtain ⟨bv, hbv, rfl, hlow, hhigh⟩ := env.bos.room hfind rfl rfl
  exact ⟨_, size, hptr, hidx, hchecked, bv, hbv, hlow, by omega⟩

theorem uvdCsPass2_forward (env : UvdEnv) : CbForward (uvdCsPass2 env) := fun _ _ h => by
  obtain ⟨start, size, -, hidx, -⟩ := uvdCsPass2_spec h
  exact hidx

/-! ## The buffer after the second pass -/

/-- The data dwords that wait for a command are two dwords behind the parser. -/
structure Ready (st : PairState) (ctx : UvdCsCtx) : Prop where
  data0_lt : st.1 → ctx.data0 < ctx.idx
  data1_lt : st.2 → ctx.data1 < ctx.idx
  ne : st.1 → st.2 → ctx.data0 ≠ ctx.data1

theorem Ready.next {st : PairState} {ctx : UvdCsCtx} (hr : Ready st ctx) : Ready st ctx.next :=
  ⟨fun h => (hr.data0_lt h).trans (Nat.lt_succ_self _),
    fun h => (hr.data1_lt h).trans (Nat.lt_succ_self _), hr.ne⟩

/-- The rest `ws` of the register writes of a buffer, seen from a parser at `ctx` that ends at
`t`: what the parser still changes are the data dwords that wait for a command and those of the
rest, and the engine, executing the final buffer, stays inside. -/
structure Executes (env : UvdEnv) (st : PairState) (ctx : UvdCsCtx) (ws : List RegWrite)
    (t : UvdCsCtx) : Prop where
  frame : ∀ q, ¬ (st.1 ∧ q = ctx.data0) → ¬ (st.2 ∧ q = ctx.data1) → (∀ w ∈ ws, w.pos ≠ q) →
    t.ptr q = ctx.ptr q
  inside : ∀ hw : UvdHw, (st.1 → hw.data0 = t.ptr ctx.data0) →
    (st.2 → hw.data1 = t.ptr ctx.data1) → (∀ e ∈ hw.execs, env.Inside t.checked e) →
    ∀ e ∈ (ws.foldl (UvdHw.write t.ptr) hw).execs, env.Inside t.checked e
  checked : ctx.checked ⊆ t.checked
  later : ∀ w ∈ ws, ctx.idx ≤ w.pos

theorem patch_ptr_of_ne {ctx : UvdCsCtx} {start : BitVec 64} {q : ℕ} (h0 : q ≠ ctx.data0)
    (h1 : q ≠ ctx.data1) : (ctx.patch start).ptr q = ctx.ptr q := by
  simp [UvdCsCtx.patch, setIbValue, h0, h1]

/-- The address in two different data dwords that were patched. -/
theorem patch_addr {ctx : UvdCsCtx} (start : BitVec 64) (h : ctx.data0 ≠ ctx.data1) :
    ibAddr ((ctx.patch start).ptr ctx.data0) ((ctx.patch start).ptr ctx.data1) = start := by
  simp [UvdCsCtx.patch, setIbValue, h, ibAddr_lower_upper]

section Write

variable {env : UvdEnv} {st st' : PairState} {reg : ℕ} {ctx ctx' t : UvdCsCtx}
  {ws : List RegWrite}

theorem UvdHw.write_data1 (ptr : IbWords) (hw : UvdHw) (pos : ℕ) :
    hw.write ptr ⟨mmUvdGpcomVcpuData1, pos⟩ = { hw with data1 := ptr pos } := by
  simp [UvdHw.write, mmUvdGpcomVcpuData0, mmUvdGpcomVcpuData1]

theorem UvdHw.write_cmd (ptr : IbWords) (hw : UvdHw) (pos : ℕ) :
    hw.write ptr ⟨mmUvdGpcomVcpuCmd, pos⟩ =
      { hw with execs := hw.execs ++ [⟨pos, ibAddr hw.data0 hw.data1⟩] } := by
  simp [UvdHw.write, mmUvdGpcomVcpuData0, mmUvdGpcomVcpuData1, mmUvdGpcomVcpuCmd]

theorem pairStep_data1 (pos : ℕ) :
    pairStep st ⟨mmUvdGpcomVcpuData1, pos⟩ = some (st.1, true) := by
  simp [pairStep, mmUvdGpcomVcpuData0, mmUvdGpcomVcpuData1]

/-- A command is accepted only with both data dwords. -/
theorem pairStep_cmd (h : pairStep st ⟨mmUvdGpcomVcpuCmd, ctx.idx⟩ = some st') :
    st = (true, true) ∧ st' = (false, false) := by
  obtain ⟨a, b⟩ := st
  cases a <;> cases b <;> simp_all [pairStep, mmUvdGpcomVcpuCmd, mmUvdGpcomVcpuData0,
    mmUvdGpcomVcpuData1]

/-- A register write keeps the waiting data dwords behind the parser, and changes nothing ahead
of it. -/
theorem Ready.write (hr : Ready st ctx)
    (h : uvdRegWrite env (uvdCsPass2 env) reg ctx = .ret ctx' none)
    (hst : pairStep st ⟨reg, ctx.idx⟩ = some st') :
    Ready st' ctx' ∧ ∀ q, ctx.idx ≤ q → ctx'.ptr q = ctx.ptr q := by
  cases uvdRegWrite_outcome h with
  | data0 hreg heq =>
    subst hreg heq
    obtain rfl : (true, st.2) = st' := by simpa [pairStep] using hst
    refine ⟨⟨fun _ => Nat.lt_succ_self _, fun h1 => (hr.data1_lt h1).trans (Nat.lt_succ_self _),
      fun _ h1 => (hr.data1_lt h1).ne'⟩, fun _ _ => rfl⟩
  | data1 hreg heq =>
    subst hreg heq
    obtain rfl : (st.1, true) = st' := Option.some.inj ((pairStep_data1 _).symm.trans hst)
    refine ⟨⟨fun h0 => (hr.data0_lt h0).trans (Nat.lt_succ_self _), fun _ => Nat.lt_succ_self _,
      fun h0 _ => (hr.data0_lt h0).ne⟩, fun _ _ => rfl⟩
  | cmd hreg ctx₁ hcb heq =>
    subst hreg heq
    obtain ⟨rfl, rfl⟩ := pairStep_cmd hst
    obtain ⟨start, size, hptr, -⟩ := uvdCsPass2_spec hcb
    refine ⟨⟨nofun, nofun, nofun⟩, fun q hq => ?_⟩
    change ctx₁.ptr q = _
    rw [hptr]
    exact patch_ptr_of_ne ((hr.data0_lt rfl).trans_le hq).ne' ((hr.data1_lt rfl).trans_le hq).ne'
  | other h0 h1 hc heq =>
    subst heq
    obtain rfl : st = st' := by simpa [pairStep, h0, h1, hc] using hst
    exact ⟨⟨fun h => (hr.data0_lt h).trans (Nat.lt_succ_self _),
      fun h => (hr.data1_lt h).trans (Nat.lt_succ_self _), hr.ne⟩, fun _ _ => rfl⟩

/-- One more register write in front.

**Proof sketch.** A data dword that is read now is the one that waits for the next command. A
command takes the two that wait: the parser writes the address there, no later command touches
them again, and so they are what the engine has in its data registers at this command. -/
theorem Executes.write (hr : Ready st ctx)
    (h : uvdRegWrite env (uvdCsPass2 env) reg ctx = .ret ctx' none)
    (hst : pairStep st ⟨reg, ctx.idx⟩ = some st') (hrest : Executes env st' ctx' ws t) :
    Executes env st ctx (⟨reg, ctx.idx⟩ :: ws) t := by
  have hidx := uvdRegWrite_idx (uvdCsPass2_forward env) h
  have hlater : ∀ w ∈ (⟨reg, ctx.idx⟩ :: ws : List RegWrite), ctx.idx ≤ w.pos :=
    List.forall_mem_cons.mpr ⟨le_rfl, fun w hw => by have := hrest.later w hw; omega⟩
  cases uvdRegWrite_outcome h with
  | data0 hreg heq =>
    subst hreg heq
    obtain rfl : (true, st.2) = st' := by simpa [pairStep] using hst
    refine ⟨fun q h0 h1 hq => ?_, fun hw h0 h1 hin => ?_, hrest.checked, hlater⟩
    · have hq' := List.forall_mem_cons.mp hq
      exact hrest.frame q (fun hq0 => hq'.1 hq0.2.symm) h1 hq'.2
    · rw [List.foldl_cons, UvdHw.write, if_pos rfl]
      exact hrest.inside _ (fun _ => rfl) h1 hin
  | data1 hreg heq =>
    subst hreg heq
    obtain rfl : (st.1, true) = st' := Option.some.inj ((pairStep_data1 _).symm.trans hst)
    refine ⟨fun q h0 h1 hq => ?_, fun hw h0 h1 hin => ?_, hrest.checked, hlater⟩
    · have hq' := List.forall_mem_cons.mp hq
      exact hrest.frame q h0 (fun hq1 => hq'.1 hq1.2.symm) hq'.2
    · rw [List.foldl_cons, UvdHw.write_data1]
      exact hrest.inside _ h0 (fun _ => rfl) hin
  | cmd hreg ctx₁ hcb heq =>
    subst hreg heq
    obtain ⟨rfl, rfl⟩ := pairStep_cmd hst
    obtain ⟨start, size, hptr, -, hchecked, bv, hbv, hlow, hhigh⟩ := uvdCsPass2_spec hcb
    have hsub : (ctx.idx, size) :: ctx.checked ⊆ t.checked := hchecked ▸ hrest.checked
    -- what is behind the parser keeps its value until the end
    have hkept : ∀ q < ctx.idx, t.ptr q = (ctx.patch start).ptr q := fun q hq => by
      rw [hrest.frame q nofun nofun fun w hw => by have := hrest.later w hw; omega]
      exact congrFun hptr q
    refine ⟨fun q h0 h1 hq => ?_, fun hw h0 h1 hin => ?_,
      fun c hc => hsub (List.mem_cons_of_mem _ hc), hlater⟩
    · rw [hrest.frame q nofun nofun (List.forall_mem_cons.mp hq).2]
      change ctx₁.ptr q = _
      rw [hptr, patch_ptr_of_ne (fun h => h0 ⟨rfl, h⟩) fun h => h1 ⟨rfl, h⟩]
    · rw [List.foldl_cons, UvdHw.write_cmd]
      refine hrest.inside _ nofun nofun fun e he => ?_
      rcases List.mem_append.mp he with he | he
      · exact hin e he
      · obtain rfl := List.mem_singleton.mp he
        rw [h0 rfl, h1 rfl, hkept _ (hr.data0_lt rfl), hkept _ (hr.data1_lt rfl),
          patch_addr start (hr.ne rfl rfl)]
        exact ⟨_, hsub List.mem_cons_self, rfl, bv, hbv, hlow, hhigh⟩
  | other h0 h1 hc heq =>
    subst heq
    obtain rfl : st = st' := by simpa [pairStep, h0, h1, hc] using hst
    refine ⟨fun q hq0 hq1 hq => hrest.frame q hq0 hq1 (List.forall_mem_cons.mp hq).2,
      fun hw hw0 hw1 hin => ?_, hrest.checked, hlater⟩
    rw [List.foldl_cons, UvdHw.write, if_neg h0, if_neg h1, if_neg hc]
    exact hrest.inside hw hw0 hw1 hin

/-- A dword that the passes skip. -/
theorem Executes.skip (h : Executes env st ctx' ws t) (hptr : ctx'.ptr = ctx.ptr)
    (h0 : ctx'.data0 = ctx.data0) (h1 : ctx'.data1 = ctx.data1)
    (hchecked : ctx'.checked = ctx.checked) (hidx : ctx.idx ≤ ctx'.idx) :
    Executes env st ctx ws t where
  frame q := by rw [← hptr, ← h0, ← h1]; exact h.frame q
  inside hw := by rw [← h0, ← h1]; exact h.inside hw
  checked := hchecked ▸ h.checked
  later w hw := hidx.trans (h.later w hw)

/-- A packet in front, and what it leaves to the rest. -/
theorem Executes.packet {n : ℕ} (hr : Ready st ctx)
    (h : uvdRegLoop env (uvdCsPass2 env) n reg ctx = .ret ctx' none)
    (hst : (packetWrites reg ctx.idx n).foldlM pairStep st = some st') :
    Ready st' ctx' ∧ (∀ q, ctx.idx + n ≤ q → ctx'.ptr q = ctx.ptr q) ∧
      ∀ {ws t}, Executes env st' ctx' ws t →
        Executes env st ctx (packetWrites reg ctx.idx n ++ ws) t := by
  induction n generalizing reg ctx st with
  | zero =>
    cases h
    cases hst
    exact ⟨hr, fun _ _ => rfl, fun h => h⟩
  | succ n ih =>
    obtain ⟨ctx₁, h₁, hrest⟩ := Outcome.andThen_eq_ret_none.mp h
    obtain ⟨st₁, hst₁, hstrest⟩ := Option.bind_eq_some_iff.mp hst
    obtain ⟨hr₁, hptr₁⟩ := hr.write h₁ hst₁
    have hidx := uvdRegWrite_idx (uvdCsPass2_forward env) h₁
    rw [← hidx] at hstrest
    obtain ⟨hr', hptr', hexec⟩ := ih hr₁ hrest hstrest
    refine ⟨hr', fun q hq => (hptr' q (by omega)).trans (hptr₁ q (by omega)), fun hws => ?_⟩
    have := Executes.write hr h₁ hst₁ (hexec hws)
    rwa [hidx] at this

end Write

/-- The register writes of a packet are behind its header. -/
theorem lt_of_mem_packetWrites {reg pos n : ℕ} {w : RegWrite} (h : w ∈ packetWrites reg pos n) :
    pos ≤ w.pos ∧ w.pos < pos + n := by
  induction n generalizing reg pos with
  | zero => cases h
  | succ n ih =>
    rcases List.mem_cons.mp h with rfl | h
    · exact ⟨le_rfl, by simp⟩
    · have := ih h
      omega

theorem lt_of_mem_ibWrites {lengthDw fuel pos : ℕ} {ptr : IbWords} {w : RegWrite}
    (h : w ∈ ibWrites lengthDw ptr fuel pos) : pos < w.pos := by
  induction fuel generalizing pos with
  | zero => cases h
  | succ fuel ih =>
    rw [ibWrites] at h
    dsimp only at h
    split_ifs at h
    · cases h
    · rcases List.mem_append.mp h with h | h
      · have := lt_of_mem_packetWrites h
        omega
      · have := ih h
        omega
    · have := ih h
      omega
    · cases h

/-- The register writes of a buffer depend on its packet headers only. -/
theorem ibWrites_congr (lengthDw fuel pos : ℕ) {ptr ptr' : IbWords}
    (h : ∀ q, pos ≤ q → (∀ w ∈ ibWrites lengthDw ptr fuel pos, w.pos ≠ q) → ptr' q = ptr q) :
    ibWrites lengthDw ptr' fuel pos = ibWrites lengthDw ptr fuel pos := by
  induction fuel generalizing pos with
  | zero => rfl
  | succ fuel ih =>
    have hhead : getIbValue ptr' pos = getIbValue ptr pos :=
      h pos le_rfl fun w hw => (lt_of_mem_ibWrites hw).ne'
    by_cases hlen : lengthDw ≤ pos
    · rw [ibWrites, ibWrites, if_pos hlen, if_pos hlen]
    rw [ibWrites, if_neg hlen] at h
    rw [ibWrites, ibWrites, if_neg hlen, if_neg hlen]
    dsimp only at h ⊢
    rw [hhead]
    by_cases h0 : cpPacketGetType (getIbValue ptr pos) = 0
    · rw [if_pos h0] at h
      rw [if_pos h0, if_pos h0, ih]
      refine fun q hq hw => h q (by omega) fun w hmem => ?_
      rcases List.mem_append.mp hmem with hmem | hmem
      · have := lt_of_mem_packetWrites hmem
        omega
      · exact hw w hmem
    rw [if_neg h0] at h
    rw [if_neg h0, if_neg h0]
    by_cases h2 : cpPacketGetType (getIbValue ptr pos) = 2
    · rw [if_pos h2] at h
      rw [if_pos h2, if_pos h2, ih]
      exact fun q hq hw => h q (by omega) hw
    · rw [if_neg h2, if_neg h2]

/-- **The second pass.** On a buffer in which each command has its own data dwords, a second pass
that succeeds leaves addresses with which the engine stays inside. -/
theorem Executes.packets {env : UvdEnv} {fuel : ℕ} {st st' : PairState} {ctx t : UvdCsCtx}
    (hr : Ready st ctx) (h : uvdCsPackets env (uvdCsPass2 env) fuel ctx = .ret t none)
    (hst : (ibWrites env.lengthDw ctx.ptr fuel ctx.idx).foldlM pairStep st = some st') :
    Executes env st ctx (ibWrites env.lengthDw ctx.ptr fuel ctx.idx) t := by
  induction fuel generalizing st ctx with
  | zero =>
    cases h
    exact ⟨fun _ _ _ _ => rfl, fun _ _ _ hin => hin, fun _ h => h, nofun⟩
  | succ fuel ih =>
    by_cases hlen : env.lengthDw ≤ ctx.idx
    · rw [uvdCsPackets, if_pos hlen] at h
      cases h
      rw [ibWrites, if_pos hlen]
      exact ⟨fun _ _ _ _ => rfl, fun _ _ _ hin => hin, fun _ h => h, nofun⟩
    rw [ibWrites, if_neg hlen] at hst ⊢
    dsimp only at hst ⊢
    rcases uvdCsPackets_succ h (not_le.mp hlen) with ⟨htype, ctx₁, h₁, hrest⟩ | ⟨htype, hrest⟩
    · rw [if_pos htype] at hst ⊢
      rw [List.foldlM_append] at hst
      obtain ⟨st₁, hst₁, hstrest⟩ := Option.bind_eq_some_iff.mp hst
      have hr₀ : Ready st { ctx.next with
          reg := cpPacket0GetReg (getIbValue ctx.ptr ctx.idx)
          count := cpPacketGetCount (getIbValue ctx.ptr ctx.idx) } :=
        ⟨hr.next.data0_lt, hr.next.data1_lt, hr.next.ne⟩
      obtain ⟨hr₁, hptr, hexec⟩ := Executes.packet hr₀ h₁ hst₁
      have hidx := uvdRegLoop_idx (uvdCsPass2_forward env) h₁
      -- the headers ahead are still those of the submitted buffer
      have hsame : ibWrites env.lengthDw ctx₁.ptr fuel ctx₁.idx =
          ibWrites env.lengthDw ctx.ptr fuel ctx₁.idx :=
        ibWrites_congr _ _ _ fun q hq _ => hptr q (by omega)
      simp only [UvdCsCtx.next] at hidx
      rw [← hidx] at hstrest ⊢
      rw [← hsame] at hstrest ⊢
      exact (hexec (ih hr₁ hrest hstrest)).skip rfl rfl rfl rfl (Nat.le_succ _)
    · rw [if_neg (by omega), if_pos htype] at hst ⊢
      exact (ih hr.next hrest hst).skip rfl rfl rfl rfl (Nat.le_succ _)

/-- A call that succeeds is a second pass that succeeds on the submitted buffer. -/
theorem uvdRingParseCs_pass2 {env : UvdEnv} {ptr : IbWords} {slots : List UvdSlot} {t : UvdCsCtx}
    (h : uvdRingParseCs env ptr slots = .ret t none) :
    ∃ ctx : UvdCsCtx, ctx.ptr = ptr ∧ ctx.idx = 0 ∧
      uvdCsPackets env (uvdCsPass2 env) env.lengthDw ctx = .ret t none := by
  rw [uvdRingParseCs] at h
  split_ifs at h with hlen hsysvm
  · cases h
  · rw [(Outcome.ret.inj h).2] at hsysvm
    cases hsysvm
  · obtain ⟨ctx₁, hpass1, h⟩ := Outcome.andThen_eq_ret_none.mp h
    obtain ⟨ctx₂, hpass2, h⟩ := Outcome.andThen_eq_ret_none.mp h
    rw [(Outcome.ret.inj h).1] at hpass2
    exact ⟨{ ctx₁ with idx := 0 }, uvdCsPackets_ptr (fun _ _ => uvdCsPass1_ptr) hpass1, rfl, hpass2⟩

/-- **UVD commands.** If the parser accepts a buffer in which each command has its own data
dwords, then the engine executes every command of the rewritten buffer with an address from
which on the size the command was checked against lies inside a buffer object the submitter
mapped, whatever its registers were before. -/
theorem uvd_commands_inside (env : UvdEnv) (ptr : IbWords) (slots : List UvdSlot) (t : UvdCsCtx)
    (h : uvdRingParseCs env ptr slots = .ret t none) (hpaired : UvdPaired env.lengthDw ptr)
    (data0 data1 : BitVec 32) :
    ∀ e ∈ uvdHwRun env.lengthDw t.ptr data0 data1, env.Inside t.checked e := by
  obtain ⟨ctx, rfl, hidx, hpass2⟩ := uvdRingParseCs_pass2 h
  obtain ⟨st', hst⟩ := Option.isSome_iff_exists.mp hpaired
  rw [← hidx] at hst
  have hready : Ready (false, false) ctx := ⟨nofun, nofun, nofun⟩
  have hexec := Executes.packets hready hpass2 hst
  rw [hidx] at hexec
  rw [uvdHwRun, ibWrites_congr _ _ _ fun q _ hq => hexec.frame q nofun nofun hq]
  exact hexec.inside _ nofun nofun nofun

/-- Two buffer objects: two pages at `0x100000`, mapped at the pages 1 and 2, and one page at
`0x200000`, mapped at page `0x100`. -/
def twoBos : PlacedBos where
  boList := some [some ⟨⟨0, 0x2000⟩, [⟨0, 1, 2, 0, 0⟩], []⟩,
    some ⟨⟨1, 0x1000⟩, [⟨1, 0x100, 0x100, 0, 0⟩], []⟩]
  gpuOffset := fun bo => if bo.id = 0 then 0x100000 else 0x200000
  placed := by decide
  mapped := by decide

/-- A submission of 16 dwords with these buffer objects, on an engine with 64 bit addresses; the
messages create session 5. -/
def twoBosEnv : UvdEnv where
  bos := twoBos
  lengthDw := 16
  filp := 1
  address64Bit := true
  useCtxBuf := false
  gpuAddr := 0
  sysvmAccess := none
  validate := fun _ _ _ => none
  kmap := fun _ => none
  msg := fun _ _ => (UvdMsg.simple 0 5).words

/-- A buffer that starts with the given dwords and ends with packets that do nothing. -/
def ibOf (words : List (BitVec 32)) : IbWords := fun i => words.getD i 0x80000000

/-- A message command and a command of the number `0x100`, each with its own address. -/
def pairedIb : IbWords :=
  ibOf [0x00013bc4, 0x1fc0, 0, 0x00003bc3, 0, 0x00013bc4, 0x1000, 0, 0x00003bc3, 0x200]

/-- The same commands, both with the address that was written before the first one. -/
def sharedIb : IbWords :=
  ibOf [0x00013bc4, 0x1fc0, 0, 0x00003bc3, 0, 0x00003bc3, 0x200]

theorem uvd_commands_inside_paired :
    ∃ t, uvdRingParseCs twoBosEnv pairedIb (uvdInit 10) = .ret t none ∧
      ∀ e ∈ uvdHwRun twoBosEnv.lengthDw t.ptr 0 0, twoBosEnv.Inside t.checked e := by
  have h := Outcome.eq_ret_of_succeeds
    (show (uvdRingParseCs twoBosEnv pairedIb (uvdInit 10)).Succeeds by decide +kernel)
  exact ⟨_, h, uvd_commands_inside twoBosEnv pairedIb (uvdInit 10) _ h (by decide +kernel) 0 0⟩

/-- The second command finds the address that the first one was given at the place of the page
`0x100`, and replaces it once more. The engine then executes the message command, which was
checked to have 2048 bytes, 64 bytes before the end of the other buffer object. -/
theorem uvd_command_outside :
    ∃ t, uvdRingParseCs twoBosEnv sharedIb (uvdInit 10) = .ret t none ∧
      (4, 2048) ∈ t.checked ∧ ∃ e ∈ uvdHwRun twoBosEnv.lengthDw t.ptr 0 0,
        e.pos = 4 ∧ e.addr = 0x200fc0 ∧ ¬ twoBosEnv.Inside t.checked e := by
  have h := Outcome.eq_ret_of_succeeds
    (show (uvdRingParseCs twoBosEnv sharedIb (uvdInit 10)).Succeeds by decide +kernel)
  exact ⟨_, h, by decide +kernel, by decide +kernel⟩

end Amdgpu
