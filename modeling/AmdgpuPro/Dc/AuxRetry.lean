import AmdgpuPro.Dc.AuxRead
import AmdgpuPro.Lib.While

set_option autoImplicit false

/-!
# Retries on the AUX channel

`read_command` and `write_command` ask again after a defer, a timeout or an invalid reply. Each of
these has a counter and a limit. Some replies set counters of others back to zero, so the counters
alone do not bound the number of requests: an answered request resets the counters of timeouts and
of invalid replies, and a reply of the I2C side resets that of the defers of the AUX side.

## Main definitions

* `Dc.Aux.WriteState.processWriteReply`, `WriteState.processWriteRequest`, `WriteState.writeCommand`
  — writing, as `Dc.Aux.ReadState.readCommand` is reading.
* `roundsLeft` — how many rounds the counters leave at most.

## Main results

* `Dc.Aux.auxCommands_bounded_iff` — the number of requests is bounded unless the limit of the
  defers of a write is the largest number of a counter.

## Design

The counters have 32 bits. The limits are small, with the exception of `max_defer_write_retry`,
which comes with the request; so the counters of a write are taken modulo `2 ^ 32`.
-/

namespace Dc.Aux

/-! ## Writing -/

/-- `enum i2caux_transaction_action`, for writes -/
inductive WriteAction
  | dpWrite
  | i2cWrite
  | i2cWriteMot
  | i2cStatusRequest
  | i2cStatusRequestMot
  deriving DecidableEq, Repr

/-- `struct aux_request_transaction_data` of a write, without the pointer to the data -/
structure WriteRequest where
  type : TransactionType
  action : WriteAction
  address : ℕ
  length : ℕ
  deriving DecidableEq, Repr

/-- `struct write_command_context` -/
structure WriteCommandContext where
  mot : Bool
  currentWriteLength : ℕ
  status : TransactionStatus
  request : WriteRequest
  timedOutRetryAux : ℕ
  invalidReplyRetryAux : ℕ
  deferRetryAux : ℕ
  deferRetryI2c : ℕ
  maxDeferRetry : ℕ
  ackMRetry : ℕ
  transactionComplete : Bool
  operationSucceeded : Bool
  deriving DecidableEq, Repr

/-- The operation failed. -/
def WriteCommandContext.fail (ctx : WriteCommandContext) (status : TransactionStatus) :
    WriteCommandContext :=
  { ctx with status := status, operationSucceeded := false }

/-- The next request only asks for the status. -/
def WriteCommandContext.askStatus (ctx : WriteCommandContext) : WriteCommandContext :=
  { ctx with
    currentWriteLength := 0
    request := { ctx.request with
      action := if ctx.mot then .i2cStatusRequestMot else .i2cStatusRequest } }

/-- The context, and the number of requests that were submitted -/
structure WriteState where
  ctx : WriteCommandContext
  submitted : ℕ
  deriving DecidableEq, Repr

/-- `++counter` -/
def incr (counter : ℕ) : ℕ := (counter + 1) % 2 ^ 32

namespace WriteState

/-- The condition of the loop of `write_command` -/
def going (s : WriteState) : Bool :=
  s.ctx.operationSucceeded && !s.ctx.transactionComplete

/-- `process_write_reply` -/
def processWriteReply (status : TransactionReply) (returnedByte : ℕ) (ctx : WriteCommandContext) :
    WriteCommandContext :=
  match status with
  | .auxAck =>
    let ctx := { ctx with operationSucceeded := true }
    if returnedByte ≠ 0 then
      let ctx := { ctx.askStatus with ackMRetry := incr ctx.ackMRetry }
      if ctx.ackMRetry > auxDeferRetryCounter then ctx.fail .failedTimeout else ctx
    else
      { ctx with
        status := .succeeded
        deferRetryAux := 0
        ackMRetry := 0
        transactionComplete := true }
  | .auxNack => ctx.fail .failedNack
  | .auxDefer =>
    let ctx := { ctx with deferRetryAux := incr ctx.deferRetryAux }
    if ctx.deferRetryAux > ctx.maxDeferRetry then ctx.fail .failedTimeout else ctx
  | .i2cDefer =>
    let ctx := { ctx.askStatus with deferRetryAux := 0, deferRetryI2c := incr ctx.deferRetryI2c }
    if ctx.deferRetryI2c > ctx.maxDeferRetry then ctx.fail .failedTimeout else ctx
  | .i2cNack | .invalid => ctx.fail .unknown

/-- `process_write_request`, after the request was submitted -/
def processWriteRequest (result : ChannelResult) (ctx : WriteCommandContext) :
    WriteCommandContext :=
  match result with
  | .succeeded status returnedByte =>
    processWriteReply status returnedByte
      { ctx with timedOutRetryAux := 0, invalidReplyRetryAux := 0 }
  | .failedInvalidReply =>
    let ctx := { ctx with invalidReplyRetryAux := incr ctx.invalidReplyRetryAux }
    if ctx.invalidReplyRetryAux > auxInvalidReplyRetryCounter then
      ctx.fail .failedProtocolError
    else
      ctx
  | .failedTimeout =>
    let ctx := { ctx with timedOutRetryAux := incr ctx.timedOutRetryAux }
    if ctx.timedOutRetryAux > auxTimedOutRetryCounter then ctx.fail .failedTimeout else ctx
  | .failedReasonUnknown => ctx.fail .unknown

/-- One round of the loop, if the loop goes on -/
def round (s : WriteState) (result : ChannelResult) : WriteState :=
  if s.going then
    { ctx := processWriteRequest result
        { s.ctx with request := { s.ctx.request with length := s.ctx.currentWriteLength } }
      submitted := s.submitted + 1 }
  else s

/-- `max_defer_retry`, for an engine with this `max_defer_write_retry` -/
def maxDeferRetry (maxDeferWriteRetry : BitVec 32) : ℕ :=
  if maxDeferWriteRetry.toNat > auxDeferRetryCounter then maxDeferWriteRetry.toNat
  else auxDeferRetryCounter

/-- The context that `write_command` starts with. For an address space that is neither it returns
false at once. -/
def start (maxDeferWriteRetry : BitVec 32) (payload : Payload) (middleOfTransaction : Bool) :
    WriteState where
  ctx :=
    { mot := middleOfTransaction
      currentWriteLength := payload.length
      status := .unknown
      request :=
        match payload.addressSpace with
        | .i2c =>
          { type := .i2c
            action := if middleOfTransaction then .i2cWriteMot else .i2cWrite
            address := payload.address / 2
            length := 0 }
        | _ => { type := .dp, action := .dpWrite, address := payload.address, length := 0 }
      timedOutRetryAux := 0
      invalidReplyRetryAux := 0
      deferRetryAux := 0
      deferRetryI2c := 0
      maxDeferRetry := maxDeferRetry maxDeferWriteRetry
      ackMRetry := 0
      transactionComplete := false
      operationSucceeded := payload.addressSpace != .other }
  submitted := 0

/-- `write_command` with these replies of the channel, on an engine with this
`max_defer_write_retry` -/
def writeCommand (maxDeferWriteRetry : BitVec 32) (payload : Payload) (middleOfTransaction : Bool)
    (replies : List ChannelResult) : WriteState :=
  replies.foldl round (start maxDeferWriteRetry payload middleOfTransaction)

end WriteState

/-! ## The counters -/

/-- The counters of a command -/
structure Counters where
  timedOut : ℕ
  invalid : ℕ
  defersAux : ℕ
  defersI2c : ℕ
  acks : ℕ

/-- The limits that are not the same for reads and writes: those of defers and of acknowledged
requests that are not complete -/
structure Limits where
  defers : ℕ
  acks : ℕ

/-- No counter is above its limit. -/
structure Counters.Within (lim : Limits) (c : Counters) : Prop where
  timedOut : c.timedOut ≤ auxTimedOutRetryCounter
  invalid : c.invalid ≤ auxInvalidReplyRetryCounter
  defersAux : c.defersAux ≤ lim.defers
  defersI2c : c.defersI2c ≤ lim.defers
  acks : c.acks ≤ lim.acks

/-- What a reply that does not end the command does to the counters. Other counters are reset by a
request that is answered, and by a reply of the I2C side. -/
inductive Counts (lim : Limits) (c : Counters) : Counters → Prop
  | timedOut (h : c.timedOut + 1 ≤ auxTimedOutRetryCounter) :
      Counts lim c { c with timedOut := c.timedOut + 1 }
  | invalid (h : c.invalid + 1 ≤ auxInvalidReplyRetryCounter) :
      Counts lim c { c with invalid := c.invalid + 1 }
  | deferAux (h : c.defersAux + 1 ≤ lim.defers) :
      Counts lim c { c with timedOut := 0, invalid := 0, defersAux := c.defersAux + 1 }
  | deferI2c (h : c.defersI2c + 1 ≤ lim.defers) :
      Counts lim c ⟨0, 0, 0, c.defersI2c + 1, c.acks⟩
  | ack (defers : ℕ) (hdefers : defers ≤ c.defersAux) (h : c.acks + 1 ≤ lim.acks) :
      Counts lim c ⟨0, 0, defers, c.defersI2c, c.acks + 1⟩

/-- How many more rounds there can be: `major` replies reset the count of defers, and answered
requests reset the `failures`. -/
def roundsLeft (deferLimit major defers failures : ℕ) : ℕ :=
  (major * (deferLimit + 1) + defers) *
    (auxTimedOutRetryCounter + auxInvalidReplyRetryCounter + 1) + failures

/-- **The order in which the counters count.** -/
theorem roundsLeft_lt {limit major defers failures major' defers' failures' : ℕ}
    (hdefers : defers' ≤ limit)
    (hfailures : failures' ≤ auxTimedOutRetryCounter + auxInvalidReplyRetryCounter)
    (h : major' < major ∨ major' = major ∧
      (defers' < defers ∨ defers' = defers ∧ failures' < failures)) :
    roundsLeft limit major' defers' failures' < roundsLeft limit major defers failures := by
  unfold roundsLeft
  generalize auxTimedOutRetryCounter + auxInvalidReplyRetryCounter = width at hfailures ⊢
  rcases h with hmajor | ⟨rfl, hdefer | ⟨rfl, hlt⟩⟩
  · have hinner : major' * (limit + 1) + defers' + 1 ≤ major * (limit + 1) + defers := by
      have hmul := Nat.mul_le_mul_right (limit + 1) (Nat.succ_le_of_lt hmajor)
      rw [Nat.succ_mul] at hmul
      omega
    have houter := Nat.mul_le_mul_right (width + 1) hinner
    rw [Nat.add_mul _ 1, Nat.one_mul] at houter
    omega
  · have hinner : major' * (limit + 1) + defers' + 1 ≤ major' * (limit + 1) + defers := by omega
    have houter := Nat.mul_le_mul_right (width + 1) hinner
    rw [Nat.add_mul _ 1, Nat.one_mul] at houter
    omega
  · omega

/-- How many more rounds the counters leave -/
def Counters.rank (lim : Limits) (c : Counters) : ℕ :=
  roundsLeft lim.defers ((lim.acks - c.acks) + (lim.defers - c.defersI2c))
    (lim.defers - c.defersAux)
    ((auxTimedOutRetryCounter - c.timedOut) + (auxInvalidReplyRetryCounter - c.invalid))

/-- **A reply uses up a round.** -/
theorem Counts.rank_lt {lim : Limits} {c c' : Counters} (h : Counts lim c c') (hc : c.Within lim) :
    c'.Within lim ∧ c'.rank lim < c.rank lim := by
  obtain ⟨htimed, hinvalid, haux, hi2c, hacks⟩ := hc
  cases h with
  | timedOut h =>
    refine ⟨⟨h, hinvalid, haux, hi2c, hacks⟩, roundsLeft_lt ?_ ?_ (.inr ⟨rfl, .inr ⟨rfl, ?_⟩⟩)⟩
    all_goals dsimp only; omega
  | invalid h =>
    refine ⟨⟨htimed, h, haux, hi2c, hacks⟩, roundsLeft_lt ?_ ?_ (.inr ⟨rfl, .inr ⟨rfl, ?_⟩⟩)⟩
    all_goals dsimp only; omega
  | deferAux h =>
    refine ⟨⟨Nat.zero_le _, Nat.zero_le _, h, hi2c, hacks⟩,
      roundsLeft_lt ?_ ?_ (.inr ⟨rfl, .inl ?_⟩)⟩
    all_goals dsimp only; omega
  | deferI2c h =>
    refine ⟨⟨Nat.zero_le _, Nat.zero_le _, Nat.zero_le _, h, hacks⟩,
      roundsLeft_lt ?_ ?_ (.inl ?_)⟩
    all_goals dsimp only; omega
  | ack defers hdefers h =>
    refine ⟨⟨Nat.zero_le _, Nat.zero_le _, hdefers.trans haux, hi2c, h⟩,
      roundsLeft_lt ?_ ?_ (.inl ?_)⟩
    all_goals dsimp only; omega

/-- A command that gets one reply after the other has ended after `bound` of them, has submitted no
more than `bound` requests, and fails when a limit was exceeded. `run n` is its state after `n`
replies. -/
structure Bounded {S : Type} (going succeeded : S → Bool) (submitted : S → ℕ)
    (counters : S → Counters) (lim : Limits) (bound : ℕ) (run : ℕ → S) : Prop where
  ends : going (run bound) = false
  requests : ∀ n, submitted (run n) ≤ bound
  fails : ∀ n, ¬ (counters (run n)).Within lim →
    going (run n) = false ∧ succeeded (run n) = false

/-- **A command is bounded** if every round that it goes on after counts. -/
theorem bounded_of_counts {S : Type} {round : S → ChannelResult → S} {going succeeded : S → Bool}
    {submitted : S → ℕ} {counters : S → Counters} {lim : Limits} (Inv : S → Prop)
    (hgo : ∀ s, going s = true → succeeded s = true)
    (hstop : ∀ s r, going s = false → round s r = s)
    (hround : ∀ s r, going s = true → Inv s → (counters s).Within lim →
      submitted (round s r) = submitted s + 1 ∧ Inv (round s r) ∧
        (succeeded (round s r) = true → (counters (round s r)).Within lim ∧
          (going (round s r) = true → Counts lim (counters s) (counters (round s r)))))
    {s : S} (hinv : Inv s) (hzero : counters s = ⟨0, 0, 0, 0, 0⟩) (hsubmitted : submitted s = 0)
    (replies : ℕ → ChannelResult) :
    Bounded going succeeded submitted counters lim (Counters.rank lim ⟨0, 0, 0, 0, 0⟩ + 1)
      fun n => ((List.range n).map replies).foldl round s := by
  have hwithin : (counters s).Within lim := by
    rw [hzero]
    exact ⟨Nat.zero_le _, Nat.zero_le _, Nat.zero_le _, Nat.zero_le _, Nat.zero_le _⟩
  have hrank := @While.foldl_rank S s ChannelResult round going submitted
    (fun t => (counters t).rank lim) (fun t => Inv t ∧ (counters t).Within lim) hstop
    (fun t r ht hw => by
      obtain ⟨hsub, hinv', hrest⟩ := hround t r ht hw.1 hw.2
      refine ⟨hsub, fun hgo' => ?_⟩
      obtain ⟨hw', hcounts⟩ := hrest (hgo _ hgo')
      exact ⟨⟨hinv', hw'⟩, ((hcounts hgo').rank_lt hw.2).2⟩)
    (fun _ => ⟨hinv, hwithin⟩) hsubmitted
  -- a command that has not failed is within its limits, also when it has ended
  have hsucceeded : ∀ answers : List ChannelResult,
      succeeded (answers.foldl round s) = true → (counters (answers.foldl round s)).Within lim := by
    intro answers
    induction answers using List.reverseRecOn with
    | nil => exact fun _ => hwithin
    | append_singleton answers r ih =>
      rw [List.foldl_concat]
      by_cases ht : going (answers.foldl round s) = true
      · obtain ⟨⟨hinv', hw⟩, -⟩ := (hrank answers).2 ht
        exact fun h => ((hround _ r ht hinv' hw).2.2 h).1
      · rw [hstop _ r (Bool.eq_false_iff.mpr ht)]
        exact ih
  refine ⟨?_, fun n => ?_, fun n hexceeded => ?_⟩
  · by_contra hgoing
    obtain ⟨-, -, hle⟩ := (hrank _).2 (Bool.eq_true_of_not_eq_false hgoing)
    rw [List.length_map, List.length_range, hzero] at hle
    omega
  · have hle := (hrank ((List.range n).map replies)).1
    rwa [hzero] at hle
  · have hfailed : succeeded (((List.range n).map replies).foldl round s) = false :=
      Bool.eq_false_iff.mpr fun h => hexceeded (hsucceeded _ h)
    refine ⟨Bool.eq_false_iff.mpr fun h => ?_, hfailed⟩
    rw [hgo _ h] at hfailed
    cases hfailed

/-! ## Rounds -/

namespace ReadState

/-- The counters of a read -/
def counters (s : ReadState) : Counters where
  timedOut := s.ctx.timedOutRetryAux
  invalid := s.ctx.invalidReplyRetryAux
  defersAux := s.ctx.deferRetryAux
  defersI2c := s.ctx.deferRetryI2c
  acks := s.ctx.invalidReplyRetryAuxOnAck

/-- The limits of a read -/
def limits : Limits := ⟨auxDeferRetryCounter, auxInvalidReplyRetryCounter⟩

/-- **A round of a read**: it ends the command, or the counters have counted. -/
theorem round_counts (bytes : ℕ → ℕ → UInt8) {s : ReadState} (result : ChannelResult)
    (hgoing : s.going = true) (h : (s.round bytes result).ctx.operationSucceeded = true) :
    ((s.round bytes result).going = false ∧
        (s.round bytes result).counters = ⟨0, 0, 0, s.counters.defersI2c, s.counters.acks⟩) ∨
      Counts limits s.counters (s.round bytes result).counters := by
  rw [round, if_pos hgoing] at h ⊢
  cases result with
  | failedReasonUnknown => cases h
  | failedInvalidReply =>
    dsimp only [processReadRequest] at h ⊢
    split_ifs at h ⊢ with hretry
    · cases h
    · exact .inr (.invalid (not_lt.mp hretry))
  | failedTimeout =>
    dsimp only [processReadRequest] at h ⊢
    split_ifs at h ⊢ with hretry
    · cases h
    · exact .inr (.timedOut (not_lt.mp hretry))
  | succeeded status n =>
    dsimp only [processReadRequest] at h ⊢
    split_ifs at h ⊢ with hmore
    · cases h
    cases status with
    | auxNack | i2cNack | invalid => cases h
    | auxDefer =>
      dsimp only [processReadReply] at h ⊢
      split_ifs at h ⊢ with hretry
      · cases h
      · exact .inr (.deferAux (not_lt.mp hretry))
    | i2cDefer =>
      dsimp only [processReadReply] at h ⊢
      split_ifs at h ⊢ with hretry
      · cases h
      · exact .inr (.deferI2c (not_lt.mp hretry))
    | auxAck =>
      dsimp only [processReadReply] at h ⊢
      split_ifs at h ⊢ with hless hretry
      · cases h
      · exact .inr (.ack 0 (Nat.zero_le _) (not_lt.mp hretry))
      · exact .inl ⟨rfl, rfl⟩

theorem round_submitted (bytes : ℕ → ℕ → UInt8) {s : ReadState} (result : ChannelResult)
    (hgoing : s.going = true) : (s.round bytes result).submitted = s.submitted + 1 := by
  rw [round, if_pos hgoing]
  cases result with
  | succeeded status n =>
    dsimp only [processReadRequest]
    split_ifs
    · rfl
    · cases status <;> rfl
  | _ => rfl

/-- **Reads are bounded.** -/
theorem readCommand_bounded (bytes : ℕ → ℕ → UInt8) (payload : Payload) (mot : Bool)
    (buffer : ℕ → UInt8) (replies : ℕ → ChannelResult) :
    Bounded going (fun s => s.ctx.operationSucceeded) submitted counters limits
      (Counters.rank limits ⟨0, 0, 0, 0, 0⟩ + 1)
      fun n => readCommand bytes payload mot buffer ((List.range n).map replies) := by
  refine bounded_of_counts (fun _ => True) (fun s hs => (going_iff.mp hs).1)
    (fun s r hs => round_of_not_going hs) (fun s r hgoing _ hwithin => ?_) trivial rfl rfl replies
  refine ⟨round_submitted bytes r hgoing, trivial, fun h => ?_⟩
  rcases round_counts bytes r hgoing h with ⟨hend, heq⟩ | hcounts
  · rw [heq, hend]
    exact ⟨⟨Nat.zero_le _, Nat.zero_le _, Nat.zero_le _, hwithin.defersI2c, hwithin.acks⟩, nofun⟩
  · exact ⟨(hcounts.rank_lt hwithin).1, fun _ => hcounts⟩

end ReadState

namespace WriteState

/-- The counters of a write -/
def counters (s : WriteState) : Counters where
  timedOut := s.ctx.timedOutRetryAux
  invalid := s.ctx.invalidReplyRetryAux
  defersAux := s.ctx.deferRetryAux
  defersI2c := s.ctx.deferRetryI2c
  acks := s.ctx.ackMRetry

/-- The limits of a write -/
def limits (maxDeferRetry : ℕ) : Limits := ⟨maxDeferRetry, auxDeferRetryCounter⟩

theorem incr_eq {counter limit : ℕ} (hle : counter ≤ limit) (hlimit : limit < 2 ^ 32 - 1) :
    incr counter = counter + 1 :=
  Nat.mod_eq_of_lt (by omega)

/-- **A round of a write**: it ends the command, or the counters have counted. -/
theorem round_counts {s : WriteState} (result : ChannelResult) (hgoing : s.going = true)
    (hlimit : s.ctx.maxDeferRetry < 2 ^ 32 - 1)
    (hwithin : s.counters.Within (limits s.ctx.maxDeferRetry))
    (h : (s.round result).ctx.operationSucceeded = true) :
    ((s.round result).going = false ∧
        (s.round result).counters = ⟨0, 0, 0, s.counters.defersI2c, 0⟩) ∨
      Counts (limits s.ctx.maxDeferRetry) s.counters (s.round result).counters := by
  have hsmall : auxDeferRetryCounter < 2 ^ 32 - 1 := by decide
  have htimed : incr s.ctx.timedOutRetryAux = s.ctx.timedOutRetryAux + 1 :=
    incr_eq hwithin.timedOut (by decide)
  have hinvalid : incr s.ctx.invalidReplyRetryAux = s.ctx.invalidReplyRetryAux + 1 :=
    incr_eq hwithin.invalid (by decide)
  have haux : incr s.ctx.deferRetryAux = s.ctx.deferRetryAux + 1 := incr_eq hwithin.defersAux hlimit
  have hi2c : incr s.ctx.deferRetryI2c = s.ctx.deferRetryI2c + 1 := incr_eq hwithin.defersI2c hlimit
  have hacks : incr s.ctx.ackMRetry = s.ctx.ackMRetry + 1 := incr_eq hwithin.acks hsmall
  rw [round, if_pos hgoing] at h ⊢
  cases result with
  | failedReasonUnknown => cases h
  | failedInvalidReply =>
    dsimp only [processWriteRequest] at h ⊢
    rw [hinvalid] at h ⊢
    split_ifs at h ⊢ with hretry
    · cases h
    · exact .inr (.invalid (not_lt.mp hretry))
  | failedTimeout =>
    dsimp only [processWriteRequest] at h ⊢
    rw [htimed] at h ⊢
    split_ifs at h ⊢ with hretry
    · cases h
    · exact .inr (.timedOut (not_lt.mp hretry))
  | succeeded status n =>
    dsimp only [processWriteRequest] at h ⊢
    cases status with
    | auxNack | i2cNack | invalid => cases h
    | auxDefer =>
      dsimp only [processWriteReply] at h ⊢
      rw [haux] at h ⊢
      split_ifs at h ⊢ with hretry
      · cases h
      · exact .inr (.deferAux (not_lt.mp hretry))
    | i2cDefer =>
      dsimp only [processWriteReply] at h ⊢
      rw [hi2c] at h ⊢
      split_ifs at h ⊢ with hretry
      · cases h
      · exact .inr (.deferI2c (not_lt.mp hretry))
    | auxAck =>
      dsimp only [processWriteReply] at h ⊢
      rw [hacks] at h ⊢
      split_ifs at h ⊢ with hbytes hretry
      · cases h
      · exact .inr (.ack _ le_rfl (not_lt.mp hretry))
      · exact .inl ⟨by simp [going], rfl⟩

theorem round_of_not_going {s : WriteState} {result : ChannelResult} (h : s.going = false) :
    s.round result = s := by
  rw [round, h]
  rfl

/-- The limit of the defers does not change. -/
theorem round_maxDeferRetry (s : WriteState) (result : ChannelResult) :
    (s.round result).ctx.maxDeferRetry = s.ctx.maxDeferRetry := by
  rw [round]
  split
  · cases result with
    | failedReasonUnknown => rfl
    | failedInvalidReply =>
      dsimp only [processWriteRequest]
      split_ifs <;> rfl
    | failedTimeout =>
      dsimp only [processWriteRequest]
      split_ifs <;> rfl
    | succeeded status n =>
      cases status <;> dsimp only [processWriteRequest, processWriteReply] <;> try split_ifs
      all_goals rfl
  · rfl

/-- **Writes are bounded**, unless the limit of the defers is the largest number of a counter. -/
theorem writeCommand_bounded {maxDeferWriteRetry : BitVec 32} (h : maxDeferWriteRetry ≠ 0xFFFFFFFF)
    (payload : Payload) (mot : Bool) (replies : ℕ → ChannelResult) :
    let lim := limits (maxDeferRetry maxDeferWriteRetry)
    Bounded going (fun s => s.ctx.operationSucceeded) submitted counters lim
      (Counters.rank lim ⟨0, 0, 0, 0, 0⟩ + 1)
      fun n => writeCommand maxDeferWriteRetry payload mot ((List.range n).map replies) := by
  have hlimit : maxDeferRetry maxDeferWriteRetry < 2 ^ 32 - 1 := by
    have hne : maxDeferWriteRetry.toNat ≠ 2 ^ 32 - 1 := fun heq => h (BitVec.eq_of_toNat_eq heq)
    have hlt := maxDeferWriteRetry.isLt
    rw [maxDeferRetry, auxDeferRetryCounter]
    split_ifs <;> omega
  refine bounded_of_counts
    (fun s => s.ctx.maxDeferRetry = maxDeferRetry maxDeferWriteRetry)
    (fun s hs => ?_) (fun s r hs => round_of_not_going hs) (fun s r hgoing hmax hwithin => ?_)
    rfl rfl rfl replies
  · exact (Bool.and_eq_true_iff.mp hs).1
  · rw [← hmax] at hlimit hwithin ⊢
    refine ⟨by rw [round, if_pos hgoing], round_maxDeferRetry s r, fun hok => ?_⟩
    rcases round_counts r hgoing hlimit hwithin hok with ⟨hend, heq⟩ | hcounts
    · rw [heq, hend]
      exact ⟨⟨Nat.zero_le _, Nat.zero_le _, Nat.zero_le _, hwithin.defersI2c, Nat.zero_le _⟩, nofun⟩
    · exact ⟨(hcounts.rank_lt hwithin).1, fun _ => hcounts⟩

/-- A display that defers every request keeps a write with the largest limit going. -/
theorem writeCommand_going (n : ℕ) :
    (writeCommand 0xFFFFFFFF ⟨.dpcd, 0, 1⟩ false
      ((List.range n).map fun _ => .succeeded .auxDefer 0)).going = true ∧
    (writeCommand 0xFFFFFFFF ⟨.dpcd, 0, 1⟩ false
      ((List.range n).map fun _ => .succeeded .auxDefer 0)).ctx.maxDeferRetry = 2 ^ 32 - 1 := by
  induction n with
  | zero => exact ⟨rfl, by decide⟩
  | succ n ih =>
    rw [List.range_succ, List.map_append, List.map_singleton, writeCommand, List.foldl_concat,
      ← writeCommand]
    generalize writeCommand 0xFFFFFFFF ⟨.dpcd, 0, 1⟩ false
      ((List.range n).map fun _ => .succeeded .auxDefer 0) = s at ih ⊢
    obtain ⟨hgoing, hmax⟩ := ih
    refine ⟨?_, by rw [round_maxDeferRetry, hmax]⟩
    have hle : ¬ incr s.ctx.deferRetryAux > s.ctx.maxDeferRetry := by
      rw [hmax, incr]
      omega
    rw [round, if_pos hgoing]
    dsimp only [processWriteRequest, processWriteReply]
    rw [if_neg hle]
    exact hgoing

end WriteState

/-- **The number of requests is bounded** by a number that only depends on the limits, and a command
fails when one of them is exceeded, if and only if the limit of the defers of a write is not the
largest number of its counter. -/
theorem auxCommands_bounded_iff (maxDeferWriteRetry : BitVec 32) :
    (∃ readBound writeBound, ∀ (payload : Payload) (mot : Bool) (replies : ℕ → ChannelResult),
      (∀ bytes buffer, Bounded ReadState.going (fun s => s.ctx.operationSucceeded)
        ReadState.submitted ReadState.counters ReadState.limits readBound
        fun n => ReadState.readCommand bytes payload mot buffer ((List.range n).map replies)) ∧
      Bounded WriteState.going (fun s => s.ctx.operationSucceeded) WriteState.submitted
        WriteState.counters
        (WriteState.limits (WriteState.maxDeferRetry maxDeferWriteRetry)) writeBound
        fun n => WriteState.writeCommand maxDeferWriteRetry payload mot
          ((List.range n).map replies)) ↔
      maxDeferWriteRetry ≠ 0xFFFFFFFF := by
  constructor
  · rintro ⟨_, bound, h⟩ rfl
    have hends := (h ⟨.dpcd, 0, 1⟩ false fun _ => .succeeded .auxDefer 0).2.ends
    rw [(WriteState.writeCommand_going bound).1] at hends
    cases hends
  · intro h
    exact ⟨_, _, fun payload mot replies => ⟨fun bytes buffer =>
      ReadState.readCommand_bounded bytes payload mot buffer replies,
      WriteState.writeCommand_bounded h payload mot replies⟩⟩

/-- **A write that never ends.** The limit of the defers of a write is the largest number of its
counter, and the display defers every request. -/
theorem writeCommand_endless :
    ¬∃ n, (WriteState.writeCommand 0xFFFFFFFF ⟨.dpcd, 0, 1⟩ false
      ((List.range n).map fun _ => .succeeded .auxDefer 0)).going = false := by
  rintro ⟨n, hends⟩
  rw [(WriteState.writeCommand_going n).1] at hends
  exact absurd hends (by decide)

end Dc.Aux
