import Mathlib.Tactic

set_option autoImplicit false

/-!
# Reading through the AUX channel

`read_command` reads a number of bytes from a display through the AUX channel. The display may
acknowledge a request with fewer bytes than were asked for; then the engine asks for the rest. It
also asks again after a defer, a timeout or an invalid reply, up to a number of times.

## Main definitions

* `Dc.Aux.ReadState.readCommand` — the loop of `read_command` over a list of replies.

## Main results

* `Dc.Aux.ReadState.readCommand_going` — what is known while the loop goes on.
* `readCommand_placed_iff` — the bytes are where they belong when no reply but the last one brings
  any.
* `readCommand_overwrites` — the rest of a read overwrites its beginning.

## Design

A reply of the channel says what `get_channel_status` returns and, for an answered request, the
status and the number of bytes of the answer. The bytes themselves are a separate argument, so the
same replies can be looked at with other bytes. The log of acknowledged requests is not a part of
the program.
-/

namespace Dc.Aux

/-- `enum i2caux_transaction_address_space`, with another value for what is neither -/
inductive AddressSpace
  | i2c
  | dpcd
  | other
  deriving DecidableEq, Repr

/-- `enum aux_transaction_type` -/
inductive TransactionType
  | dp
  | i2c
  deriving DecidableEq, Repr

/-- `enum i2caux_transaction_action`, for reads -/
inductive TransactionAction
  | dpRead
  | i2cRead
  | i2cReadMot
  deriving DecidableEq, Repr

/-- `enum aux_transaction_reply`. The numbers of `AUX_ACK` and `I2C_ACK` are the same. -/
inductive TransactionReply
  | auxAck
  | auxNack
  | auxDefer
  | i2cNack
  | i2cDefer
  | invalid
  deriving DecidableEq, Repr

/-- `enum aux_channel_operation_result`; an answered request comes with the status of the answer
and `returned_byte` -/
inductive ChannelResult
  | succeeded (status : TransactionReply) (returnedByte : ℕ)
  | failedReasonUnknown
  | failedInvalidReply
  | failedTimeout
  deriving DecidableEq, Repr

/-- `enum i2caux_transaction_status`, as far as reads set it -/
inductive TransactionStatus
  | unknown
  | succeeded
  | failedTimeout
  | failedProtocolError
  | failedNack
  deriving DecidableEq, Repr

/-- `struct i2caux_transaction_payload`, without the pointer to the data -/
structure Payload where
  addressSpace : AddressSpace
  address : ℕ
  length : ℕ
  deriving DecidableEq, Repr

/-- `struct aux_request_transaction_data`, without the pointer to the data -/
structure RequestTransactionData where
  type : TransactionType
  action : TransactionAction
  address : ℕ
  length : ℕ
  deriving DecidableEq, Repr

/-- `struct read_command_context` -/
structure ReadCommandContext where
  currentReadLength : ℕ
  offset : ℕ
  status : TransactionStatus
  request : RequestTransactionData
  timedOutRetryAux : ℕ
  invalidReplyRetryAux : ℕ
  deferRetryAux : ℕ
  deferRetryI2c : ℕ
  invalidReplyRetryAuxOnAck : ℕ
  transactionComplete : Bool
  operationSucceeded : Bool
  deriving DecidableEq, Repr

/-- The context and the memory that it points to, at `buffer`. -/
structure ReadState where
  ctx : ReadCommandContext
  /-- the bytes from `ctx.buffer` on -/
  buffer : ℕ → UInt8
  /-- the number of requests that were submitted -/
  submitted : ℕ
  /-- the acknowledged requests, with the bytes that the display returned -/
  acknowledged : List (RequestTransactionData × List UInt8)

/-- `AUX_INVALID_REPLY_RETRY_COUNTER` -/
def auxInvalidReplyRetryCounter : ℕ := 1

/-- `AUX_TIMED_OUT_RETRY_COUNTER` -/
def auxTimedOutRetryCounter : ℕ := 2

/-- `AUX_DEFER_RETRY_COUNTER` -/
def auxDeferRetryCounter : ℕ := 6

/-- A part of a memory is replaced. -/
def overwrite (m : ℕ → UInt8) (off len : ℕ) (bytes : ℕ → UInt8) : ℕ → UInt8 :=
  fun i => if off ≤ i ∧ i < off + len then bytes (i - off) else m i

/-- The operation failed. -/
def ReadCommandContext.fail (ctx : ReadCommandContext) (status : TransactionStatus) :
    ReadCommandContext :=
  { ctx with status := status, operationSucceeded := false }

namespace ReadState

/-- The condition of the loop of `read_command`. -/
def going (s : ReadState) : Bool :=
  s.ctx.operationSucceeded && !s.ctx.transactionComplete

/-- `process_read_reply`. The channel puts the bytes of an acknowledged reply at `reply.data`, which
is `buffer`. -/
def processReadReply (bytes : ℕ → UInt8) (status : TransactionReply) (returnedByte : ℕ)
    (s : ReadState) : ReadState :=
  match status with
  | .auxAck =>
    let ctx := { s.ctx with deferRetryAux := 0 }
    { s with
      buffer := overwrite s.buffer 0 returnedByte bytes
      acknowledged := s.acknowledged ++ [(s.ctx.request, (List.range returnedByte).map bytes)]
      ctx :=
        if ctx.currentReadLength < returnedByte then
          ctx.fail .failedProtocolError
        else if returnedByte < ctx.currentReadLength then
          let ctx := { ctx with
            currentReadLength := ctx.currentReadLength - returnedByte
            offset := ctx.offset + returnedByte
            invalidReplyRetryAuxOnAck := ctx.invalidReplyRetryAuxOnAck + 1 }
          if ctx.invalidReplyRetryAuxOnAck > auxInvalidReplyRetryCounter then
            ctx.fail .failedProtocolError
          else
            ctx
        else
          { ctx with
            status := .succeeded
            transactionComplete := true
            operationSucceeded := true } }
  | .auxNack => { s with ctx := s.ctx.fail .failedNack }
  | .auxDefer =>
    let ctx := { s.ctx with deferRetryAux := s.ctx.deferRetryAux + 1 }
    { s with ctx :=
        if ctx.deferRetryAux > auxDeferRetryCounter then ctx.fail .failedTimeout else ctx }
  | .i2cDefer =>
    let ctx := { s.ctx with deferRetryAux := 0, deferRetryI2c := s.ctx.deferRetryI2c + 1 }
    { s with ctx :=
        if ctx.deferRetryI2c > auxDeferRetryCounter then ctx.fail .failedTimeout else ctx }
  | .i2cNack | .invalid => { s with ctx := s.ctx.fail .unknown }

/-- `process_read_request`, after the request was submitted -/
def processReadRequest (bytes : ℕ → UInt8) (result : ChannelResult) (s : ReadState) : ReadState :=
  match result with
  | .succeeded status returnedByte =>
    if s.ctx.currentReadLength < returnedByte then
      { s with ctx := s.ctx.fail .failedProtocolError }
    else
      processReadReply bytes status returnedByte
        { s with ctx := { s.ctx with timedOutRetryAux := 0, invalidReplyRetryAux := 0 } }
  | .failedInvalidReply =>
    let ctx := { s.ctx with invalidReplyRetryAux := s.ctx.invalidReplyRetryAux + 1 }
    { s with ctx :=
        if ctx.invalidReplyRetryAux > auxInvalidReplyRetryCounter then
          ctx.fail .failedProtocolError
        else
          ctx }
  | .failedTimeout =>
    let ctx := { s.ctx with timedOutRetryAux := s.ctx.timedOutRetryAux + 1 }
    { s with ctx :=
        if ctx.timedOutRetryAux > auxTimedOutRetryCounter then ctx.fail .failedTimeout else ctx }
  | .failedReasonUnknown => { s with ctx := s.ctx.fail .unknown }

/-- The body of the loop clears the part of the buffer that is missing, and asks for it. -/
def prepare (s : ReadState) : ReadState :=
  { s with
    buffer := overwrite s.buffer s.ctx.offset s.ctx.currentReadLength (fun _ => 0)
    ctx := { s.ctx with request := { s.ctx.request with length := s.ctx.currentReadLength } }
    submitted := s.submitted + 1 }

/-- One round of the loop, if the loop goes on. `bytes j` are the bytes of the answer to the request
with number `j`. -/
def round (bytes : ℕ → ℕ → UInt8) (s : ReadState) (result : ChannelResult) : ReadState :=
  if s.going then s.prepare.processReadRequest (bytes s.submitted) result else s

/-- The context that `read_command` starts with. For an address space that is neither it returns
false at once. -/
def start (payload : Payload) (middleOfTransaction : Bool) (buffer : ℕ → UInt8) : ReadState where
  ctx :=
    { currentReadLength := payload.length
      offset := 0
      status := .unknown
      request :=
        match payload.addressSpace with
        | .i2c =>
          { type := .i2c
            action := if middleOfTransaction then .i2cReadMot else .i2cRead
            address := payload.address / 2
            length := 0 }
        | _ => { type := .dp, action := .dpRead, address := payload.address, length := 0 }
      timedOutRetryAux := 0
      invalidReplyRetryAux := 0
      deferRetryAux := 0
      deferRetryI2c := 0
      invalidReplyRetryAuxOnAck := 0
      transactionComplete := false
      operationSucceeded := payload.addressSpace != .other }
  buffer := buffer
  submitted := 0
  acknowledged := []

/-- `read_command` with these replies of the channel -/
def readCommand (bytes : ℕ → ℕ → UInt8) (payload : Payload) (middleOfTransaction : Bool)
    (buffer : ℕ → UInt8) (replies : List ChannelResult) : ReadState :=
  replies.foldl (round bytes) (start payload middleOfTransaction buffer)

/-- The loop has ended, and `read_command` returns true. -/
def Reports (s : ReadState) : Prop :=
  s.going = false ∧ s.ctx.operationSucceeded = true

/-- The bytes that the display returned, in the order in which it did. -/
def returned (s : ReadState) : List UInt8 :=
  (s.acknowledged.map Prod.snd).flatten

/-- The buffer holds the bytes that the display returned, and these are the bytes of successive
addresses. -/
structure Placed (payload : Payload) (s : ReadState) : Prop where
  buffer_eq : (List.range payload.length).map s.buffer = s.returned
  successive : payload.addressSpace = .dpcd → ∀ before request data after,
    s.acknowledged = before ++ (request, data) :: after → data ≠ [] →
      request.address = payload.address + (before.map Prod.snd).flatten.length

/-! ## One round -/

section Round

variable {s : ReadState} {bytes : ℕ → ℕ → UInt8} {result : ChannelResult}

/-- What the rounds of the loop look at. -/
theorem going_iff : s.going = true ↔
    s.ctx.operationSucceeded = true ∧ s.ctx.transactionComplete = false := by
  simp [going]

/-- A round is over at once when the loop has ended. -/
theorem round_of_not_going (h : s.going = false) : s.round bytes result = s := by
  rw [round, h]
  rfl

/-- What a round leaves as it was when it brings no bytes. -/
structure Kept (s s' : ReadState) : Prop where
  currentReadLength : s'.ctx.currentReadLength = s.ctx.currentReadLength
  offset : s'.ctx.offset = s.ctx.offset
  address : s'.ctx.request.address = s.ctx.request.address
  buffer : s'.buffer = overwrite s.buffer s.ctx.offset s.ctx.currentReadLength (fun _ => 0)
  acknowledged : s'.acknowledged = s.acknowledged

/-- What a round does when the display acknowledges it with `n` bytes. -/
structure Acked (bytes : ℕ → ℕ → UInt8) (n : ℕ) (s s' : ReadState) : Prop where
  address : s'.ctx.request.address = s.ctx.request.address
  buffer : s'.buffer = overwrite
    (overwrite s.buffer s.ctx.offset s.ctx.currentReadLength (fun _ => 0)) 0 n (bytes s.submitted)
  acknowledged : ∃ request : RequestTransactionData, request.address = s.ctx.request.address ∧
    s'.acknowledged = s.acknowledged ++ [(request, (List.range n).map (bytes s.submitted))]

/-- A round with an acknowledged reply that is not too long. -/
theorem round_acked {n : ℕ} (hgoing : s.going = true) (hle : ¬ s.ctx.currentReadLength < n) :
    Acked bytes n s (s.round bytes (.succeeded .auxAck n)) := by
  have hle' : ¬ s.prepare.ctx.currentReadLength < n := hle
  rw [round, if_pos hgoing, processReadRequest, if_neg hle']
  refine ⟨?_, rfl, ⟨s.prepare.ctx.request, rfl, rfl⟩⟩
  by_cases hless : n < s.ctx.currentReadLength
  · by_cases hretry : s.ctx.invalidReplyRetryAuxOnAck + 1 > auxInvalidReplyRetryCounter
    · simp [processReadReply, prepare, hle, hless, hretry, ReadCommandContext.fail]
    · simp [processReadReply, prepare, hle, hless, hretry]
  · simp [processReadReply, prepare, hle, hless]

/-- **The cases of a round**: the operation fails, or the round brings no bytes and the loop goes
on, or the display acknowledges with less than what is missing, or with all of it. -/
theorem round_cases (bytes : ℕ → ℕ → UInt8) (result : ChannelResult) (hgoing : s.going = true) :
    (s.round bytes result).ctx.operationSucceeded = false ∨
    ((∀ n, result ≠ .succeeded .auxAck n) ∧ (s.round bytes result).going = true ∧
      Kept s (s.round bytes result)) ∨
    (∃ n, result = .succeeded .auxAck n ∧ Acked bytes n s (s.round bytes result) ∧
      ((n < s.ctx.currentReadLength ∧ (s.round bytes result).going = true ∧
          (s.round bytes result).ctx.currentReadLength = s.ctx.currentReadLength - n ∧
          (s.round bytes result).ctx.offset = s.ctx.offset + n) ∨
        (n = s.ctx.currentReadLength ∧ (s.round bytes result).going = false))) := by
  obtain ⟨hok, hcomplete⟩ := going_iff.mp hgoing
  cases result with
  | failedReasonUnknown => exact .inl (by rw [round, if_pos hgoing]; rfl)
  | failedInvalidReply =>
    rw [round, if_pos hgoing]
    by_cases hretry : s.ctx.invalidReplyRetryAux + 1 > auxInvalidReplyRetryCounter
    · exact .inl (by simp [processReadRequest, prepare, hretry, ReadCommandContext.fail])
    · refine .inr (.inl ⟨fun n => nofun, ?_, ?_⟩)
      · simp [processReadRequest, prepare, hretry, going, hok, hcomplete]
      · constructor <;> simp [processReadRequest, prepare, hretry]
  | failedTimeout =>
    rw [round, if_pos hgoing]
    by_cases hretry : s.ctx.timedOutRetryAux + 1 > auxTimedOutRetryCounter
    · exact .inl (by simp [processReadRequest, prepare, hretry, ReadCommandContext.fail])
    · refine .inr (.inl ⟨fun n => nofun, ?_, ?_⟩)
      · simp [processReadRequest, prepare, hretry, going, hok, hcomplete]
      · constructor <;> simp [processReadRequest, prepare, hretry]
  | succeeded status n =>
    by_cases hmore : s.ctx.currentReadLength < n
    · exact .inl (by simp [round, hgoing, processReadRequest, prepare, hmore,
        ReadCommandContext.fail])
    cases status with
    | auxNack | i2cNack | invalid =>
      exact .inl (by simp [round, hgoing, processReadRequest, processReadReply, prepare, hmore,
          ReadCommandContext.fail])
    | auxDefer =>
      rw [round, if_pos hgoing]
      by_cases hretry : s.ctx.deferRetryAux + 1 > auxDeferRetryCounter
      · exact .inl (by simp [processReadRequest, processReadReply, prepare, hmore, hretry,
          ReadCommandContext.fail])
      · refine .inr (.inl ⟨fun n => nofun, ?_, ?_⟩)
        · simp [processReadRequest, processReadReply, prepare, hmore, hretry, going, hok, hcomplete]
        · constructor <;> simp [processReadRequest, processReadReply, prepare, hmore, hretry]
    | i2cDefer =>
      rw [round, if_pos hgoing]
      by_cases hretry : s.ctx.deferRetryI2c + 1 > auxDeferRetryCounter
      · exact .inl (by simp [processReadRequest, processReadReply, prepare, hmore, hretry,
          ReadCommandContext.fail])
      · refine .inr (.inl ⟨fun n => nofun, ?_, ?_⟩)
        · simp [processReadRequest, processReadReply, prepare, hmore, hretry, going, hok, hcomplete]
        · constructor <;> simp [processReadRequest, processReadReply, prepare, hmore, hretry]
    | auxAck =>
      have hacked : Acked bytes n s _ := round_acked hgoing hmore
      by_cases hless : n < s.ctx.currentReadLength
      · by_cases hretry : s.ctx.invalidReplyRetryAuxOnAck + 1 > auxInvalidReplyRetryCounter
        · exact .inl (by simp [round, hgoing, processReadRequest, processReadReply, prepare, hmore,
            hless, hretry, ReadCommandContext.fail])
        · refine .inr (.inr ⟨n, rfl, hacked, .inl ⟨hless, ?_, ?_⟩⟩)
          · rw [round, if_pos hgoing]
            simp [processReadRequest, processReadReply, prepare, hmore, hless, hretry, going, hok,
              hcomplete]
          · simp [round, hgoing, processReadRequest, processReadReply, prepare, hmore, hless,
              hretry]
      · refine .inr (.inr ⟨n, rfl, hacked, .inr ⟨by omega, ?_⟩⟩)
        rw [round, if_pos hgoing]
        simp [processReadRequest, processReadReply, prepare, hmore, hless, going]

/-- The control of a round does not depend on the bytes. -/
theorem round_ctx_congr {t : ReadState} {bytes' : ℕ → ℕ → UInt8} (h : s.ctx = t.ctx) :
    (s.round bytes result).ctx = (t.round bytes' result).ctx := by
  have hgoing : s.going = t.going := by rw [going, going, h]
  rw [round, round, hgoing]
  split
  · cases result with
    | failedReasonUnknown => simp [processReadRequest, prepare, h]
    | failedInvalidReply => simp [processReadRequest, prepare, h]
    | failedTimeout => simp [processReadRequest, prepare, h]
    | succeeded status n =>
      by_cases hmore : t.ctx.currentReadLength < n
      · simp [processReadRequest, prepare, h, hmore]
      · cases status <;> simp [processReadRequest, processReadReply, prepare, h, hmore]
  · exact h

end Round

/-! ## The loop -/

section Loop

variable {bytes bytes' : ℕ → ℕ → UInt8} {payload : Payload} {mot : Bool} {buffer : ℕ → UInt8}
  {replies : List ChannelResult}

theorem readCommand_concat (last : ChannelResult) :
    readCommand bytes payload mot buffer (replies ++ [last]) =
      (readCommand bytes payload mot buffer replies).round bytes last :=
  List.foldl_concat ..

/-- The control of the loop does not depend on the bytes. -/
theorem readCommand_ctx_congr : (readCommand bytes payload mot buffer replies).ctx =
    (readCommand bytes' payload mot buffer replies).ctx := by
  induction replies using List.reverseRecOn with
  | nil => rfl
  | append_singleton replies last ih =>
    rw [readCommand_concat, readCommand_concat]
    exact round_ctx_congr ih

/-- While the loop goes on, either no bytes have come, or some and not all. -/
structure Going (bytes : ℕ → ℕ → UInt8) (payload : Payload) (mot : Bool)
    (replies : List ChannelResult) (s : ReadState) : Prop where
  address : ∀ buffer, s.ctx.request.address = (start payload mot buffer).ctx.request.address
  returned : ∀ b ∈ s.returned, ∃ i j, b = bytes i j
  parts : s.ctx.offset + s.ctx.currentReadLength = payload.length
  cases : ((∀ n, .succeeded .auxAck n ∈ replies → n = 0) ∧ s.ctx.offset = 0 ∧
      ∀ x ∈ s.acknowledged, x.2 = []) ∨
    (¬ (∀ n, .succeeded .auxAck n ∈ replies → n = 0) ∧ 0 < s.ctx.offset ∧
      0 < s.ctx.currentReadLength)

/-- The bytes of an acknowledged request are appended. -/
theorem Acked.returned_eq {s s' : ReadState} {n : ℕ} (h : Acked bytes n s s') :
    s'.returned = s.returned ++ (List.range n).map (bytes s.submitted) := by
  obtain ⟨request, -, hack⟩ := h.acknowledged
  simp [returned, hack]

theorem Acked.mem_returned {s s' : ReadState} {n : ℕ} (h : Acked bytes n s s')
    (hs : ∀ b ∈ s.returned, ∃ i j, b = bytes i j) : ∀ b ∈ s'.returned, ∃ i j, b = bytes i j := by
  intro b hb
  rw [h.returned_eq, List.mem_append] at hb
  rcases hb with hb | hb
  · exact hs b hb
  · obtain ⟨j, -, rfl⟩ := List.mem_map.mp hb
    exact ⟨_, j, rfl⟩

/-- **The invariant of the loop.** -/
theorem readCommand_going (hgoing : (readCommand bytes payload mot buffer replies).going = true) :
    Going bytes payload mot replies (readCommand bytes payload mot buffer replies) := by
  induction replies using List.reverseRecOn with
  | nil =>
    refine ⟨fun _ => rfl, fun b hb => ?_, Nat.zero_add _,
      .inl ⟨fun n hn => ?_, rfl, fun x hx => ?_⟩⟩
    · cases hb
    · cases hn
    · cases hx
  | append_singleton replies last ih =>
    rw [readCommand_concat] at hgoing ⊢
    generalize readCommand bytes payload mot buffer replies = s at ih hgoing ⊢
    have hs : s.going = true := by
      by_contra hs
      rw [round_of_not_going (Bool.eq_false_iff.mpr hs)] at hgoing
      exact hs hgoing
    obtain ⟨haddr, hret, hparts, hcases⟩ := ih hs
    rcases round_cases bytes last hs with hfail | ⟨hne, -, hkept⟩ |
      ⟨n, rfl, hacked, ⟨hless, -, hcur, hoff⟩ | ⟨-, hend⟩⟩
    · rw [(going_iff.mp hgoing).1] at hfail
      cases hfail
    · -- nothing came
      have hmem : (∀ n, .succeeded .auxAck n ∈ replies ++ [last] → n = 0) ↔
          ∀ n, .succeeded .auxAck n ∈ replies → n = 0 := by
        refine forall_congr' fun n => ?_
        rw [List.mem_append, List.mem_singleton, or_iff_left fun h => hne n h.symm]
      refine ⟨fun b => hkept.address.trans (haddr b), ?_, ?_, ?_⟩
      · simpa only [returned, hkept.acknowledged] using hret
      · rw [hkept.offset, hkept.currentReadLength, hparts]
      · rw [hmem, hkept.offset, hkept.currentReadLength, hkept.acknowledged]
        exact hcases
    · -- a part came; it may be empty
      have hmem : (∀ m, .succeeded .auxAck m ∈ replies ++ [.succeeded .auxAck n] → m = 0) ↔
          (∀ m, .succeeded .auxAck m ∈ replies → m = 0) ∧ n = 0 := by
        simp only [List.mem_append, List.mem_singleton, ChannelResult.succeeded.injEq, true_and,
          or_imp, forall_and, forall_eq]
      refine ⟨fun b => hacked.address.trans (haddr b), hacked.mem_returned hret, by omega, ?_⟩
      rw [hmem, hoff, hcur]
      rcases hcases with ⟨hnone, hzero, hempty⟩ | ⟨hsome, hpos, -⟩
      · rcases Nat.eq_zero_or_pos n with rfl | hn
        · refine .inl ⟨⟨hnone, rfl⟩, hzero, fun x hx => ?_⟩
          obtain ⟨request, -, hack⟩ := hacked.acknowledged
          rw [hack, List.mem_append, List.mem_singleton] at hx
          rcases hx with hx | rfl
          · exact hempty x hx
          · rfl
        · exact .inr ⟨fun h => hn.ne' h.2, by omega, by omega⟩
      · exact .inr ⟨fun h => hsome h.1, by omega, by omega⟩
    · rw [hgoing] at hend
      cases hend

/-- A loop that ends with success ends with an acknowledged reply that brings all that is
missing. -/
theorem round_reports {s : ReadState} {last : ChannelResult} (hgoing : s.going = true)
    (hreports : (s.round bytes last).Reports) :
    Acked bytes s.ctx.currentReadLength s (s.round bytes last) := by
  rcases round_cases bytes last hgoing with hfail | ⟨-, hgo, -⟩ |
    ⟨n, rfl, hacked, ⟨-, hgo, -⟩ | ⟨rfl, -⟩⟩
  · rw [hreports.2] at hfail
    cases hfail
  · rw [hreports.1] at hgo
    cases hgo
  · rw [hreports.1] at hgo
    cases hgo
  · exact hacked

/-- An element with bytes is the last one if the others have none. -/
theorem eq_of_concat_eq {α β : Type} {xs before after : List (α × List β)} {x y : α × List β}
    (h : xs ++ [x] = before ++ y :: after) (hxs : ∀ z ∈ xs, z.2 = []) (hy : y.2 ≠ []) :
    xs = before ∧ x = y := by
  rcases after.eq_nil_or_concat with rfl | ⟨init, z, rfl⟩
  · obtain ⟨hbefore, hlast⟩ := List.append_inj' h rfl
    exact ⟨hbefore, List.singleton_injective hlast⟩
  · rw [List.concat_eq_append, ← List.cons_append, ← List.append_assoc] at h
    obtain ⟨hinit, -⟩ := List.append_inj' h rfl
    refine absurd (hxs y ?_) hy
    rw [hinit]
    exact List.mem_append_right _ List.mem_cons_self

/-- After some bytes came, the last byte of the buffer is cleared for the rest, which is then put at
the beginning. -/
theorem Acked.buffer_last {s s' : ReadState} (h : Acked bytes s.ctx.currentReadLength s s')
    (hparts : s.ctx.offset + s.ctx.currentReadLength = payload.length) (hpos : 0 < s.ctx.offset)
    (hrest : 0 < s.ctx.currentReadLength) : s'.buffer (payload.length - 1) = 0 := by
  have hafter : ¬ (0 ≤ payload.length - 1 ∧
      payload.length - 1 < 0 + s.ctx.currentReadLength) := by omega
  have hmissing : s.ctx.offset ≤ payload.length - 1 ∧
      payload.length - 1 < s.ctx.offset + s.ctx.currentReadLength := by omega
  rw [h.buffer, overwrite, if_neg hafter, overwrite, if_pos hmissing]

/-- If nothing came before, the last reply brings all bytes, and they are where they belong. -/
theorem Going.placed {s s' : ReadState} (hinv : Going bytes payload mot replies s)
    (hacked : Acked bytes s.ctx.currentReadLength s s')
    (hnone : ∀ n, .succeeded .auxAck n ∈ replies → n = 0) : Placed payload s' := by
  obtain ⟨-, hzero, hempty⟩ := hinv.cases.resolve_right fun h => h.1 hnone
  have hall : s.ctx.currentReadLength = payload.length := by
    rw [← hinv.parts, hzero, Nat.zero_add]
  have hreturned : s.returned = [] := by
    rw [ReadState.returned, List.flatten_eq_nil_iff]
    exact List.forall_mem_map.mpr hempty
  constructor
  · rw [hacked.returned_eq, hreturned, List.nil_append, hall]
    refine List.map_congr_left fun i hi => ?_
    have hin : 0 ≤ i ∧ i < 0 + s.ctx.currentReadLength := by
      have := List.mem_range.mp hi
      omega
    rw [hacked.buffer, overwrite, if_pos hin, Nat.sub_zero]
  · intro hdpcd before request data after heq hdata
    obtain ⟨request', haddr, hack⟩ := hacked.acknowledged
    rw [hack] at heq
    obtain ⟨rfl, hlast⟩ := eq_of_concat_eq heq hempty hdata
    cases hlast
    rw [haddr, hinv.address fun _ => 0, ← ReadState.returned, hreturned]
    simp [start, hdpcd]

/-- **When the bytes are where they belong.** Let the loop of `read_command` go on over some replies
and end with success at the last one. The buffer holds the bytes that the display returned, in
order and for successive addresses, whatever bytes these are, exactly when no acknowledged reply
before the last one had any bytes. -/
theorem readCommand_placed_iff (payload : Payload) (mot : Bool) (buffer : ℕ → UInt8)
    (replies : List ChannelResult) (last : ChannelResult) :
    (∀ bytes, (readCommand bytes payload mot buffer replies).going = true →
        (readCommand bytes payload mot buffer (replies ++ [last])).Reports →
          Placed payload (readCommand bytes payload mot buffer (replies ++ [last]))) ↔
      ∀ bytes, (readCommand bytes payload mot buffer replies).going = true →
        (readCommand bytes payload mot buffer (replies ++ [last])).Reports →
          ∀ n, .succeeded .auxAck n ∈ replies → n = 0 := by
  constructor
  · -- with other bytes than zero, the last byte of the buffer is not one that was returned
    intro hplaced bytes hgoing hreports
    by_contra hsome
    have hctx : ∀ rs, (readCommand (fun _ _ => 1) payload mot buffer rs).ctx =
        (readCommand bytes payload mot buffer rs).ctx := fun rs => readCommand_ctx_congr
    have hgoing₁ : (readCommand (fun _ _ => 1) payload mot buffer replies).going = true := by
      rw [going, hctx, ← going, hgoing]
    have hreports₁ :
        (readCommand (fun _ _ => 1) payload mot buffer (replies ++ [last])).Reports := by
      rw [Reports, going, hctx, ← going]
      exact hreports
    have hbuffer := (hplaced _ hgoing₁ hreports₁).buffer_eq
    have hinv := readCommand_going hgoing₁
    rw [readCommand_concat] at hreports₁ hbuffer
    generalize readCommand (fun _ _ => 1) payload mot buffer replies = s at *
    have hacked := round_reports hgoing₁ hreports₁
    obtain ⟨-, hpos, hrest⟩ := hinv.cases.resolve_left fun h => hsome h.1
    have hparts := hinv.parts
    have hlast := hacked.buffer_last hparts hpos hrest
    have hmem : 0 ∈ (s.round (fun _ _ => 1) last).returned := by
      rw [← hbuffer, ← hlast]
      exact List.mem_map_of_mem (List.mem_range.mpr (by omega))
    obtain ⟨_, _, hone⟩ := hacked.mem_returned hinv.returned 0 hmem
    exact absurd hone (by decide)
  · intro hnone bytes hgoing hreports
    have hinv := readCommand_going hgoing
    have hnone := hnone bytes hgoing hreports
    rw [readCommand_concat] at hreports ⊢
    generalize readCommand bytes payload mot buffer replies = s at *
    exact hinv.placed (round_reports hgoing hreports) hnone

/-- **The rest overwrites the beginning.** Four bytes are read at the address `0x100`. The display
acknowledges with the bytes `1, 2`, and the request for the rest with `3, 4`. The second request has
the address of the first, and its bytes are put where the first ones are. -/
theorem readCommand_overwrites :
    let s := readCommand (fun j i => if j = 0 then (if i = 0 then 1 else 2) else
      (if i = 0 then 3 else 4)) ⟨.dpcd, 0x100, 4⟩ false (fun _ => 0)
        [.succeeded .auxAck 2, .succeeded .auxAck 2]
    s.Reports ∧ s.returned = [1, 2, 3, 4] ∧ (List.range 4).map s.buffer = [3, 4, 0, 0] ∧
      s.acknowledged.map (fun x => x.1.address) = [0x100, 0x100] := by
  refine ⟨⟨?_, ?_⟩, ?_, ?_, ?_⟩ <;> decide

end Loop

end ReadState

end Dc.Aux
