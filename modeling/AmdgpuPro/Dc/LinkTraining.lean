import AmdgpuPro.Dc.LinkSettings

set_option autoImplicit false

/-!
# Training a DisplayPort link

Link training has three parts. In clock recovery and in channel equalization the driver programs a
voltage swing and a pre-emphasis for every lane, reads the status of the lanes from the sink
together with the settings that the sink asks for, and takes these for the next round. After a
successful training the sink may ask for other settings once more.

## Main definitions

* `Dc.findMaxDriveSettings`, `getLaneStatusAndDriveSettings` — what a status read gives.
* `Training.performClockRecoverySequence`, `Training.performChannelEqualizationSequence`,
  `Training.performPostLtAdjReqSequence` — the three parts.
* `dcLinkDpPerformLinkTraining` — `dc_link_dp_perform_link_training`.

## Main results

* `Dc.dcLinkDpPerformLinkTraining_bounded` — a training ends after a bounded number of reads,
  programs legal settings only, and succeeds only if all lanes were locked in some read.

## Design

The sink is a function from the number of a status read to the six bytes that it answers with, so
it may answer anything. The state of a training counts the status reads of each part, and has a log
of what was programmed. A loop of the source with a bounded counter is a recursion over the number
of rounds that are left.
-/

namespace Dc

/-- `VOLTAGE_SWING_MAX_LEVEL` -/
def voltageSwingMaxLevel : ℕ := 3

/-- `PRE_EMPHASIS_MAX_LEVEL` -/
def preEmphasisMaxLevel : ℕ := 3

/-- `POST_LT_ADJ_REQ_LIMIT` -/
def postLtAdjReqLimit : ℕ := 6

/-- `POST_LT_ADJ_REQ_TIMEOUT` -/
def postLtAdjReqTimeout : ℕ := 200

/-- `LINK_TRAINING_MAX_RETRY_COUNT` -/
def linkTrainingMaxRetryCount : ℕ := 5

/-- `LINK_TRAINING_MAX_CR_RETRY` -/
def linkTrainingMaxCrRetry : ℕ := 100

/-- `voltage_swing_to_pre_emphasis` -/
def voltageSwingToPreEmphasis : List ℕ := [3, 2, 1, 0]

/-- `get_max_pre_emphasis_for_voltage_swing` -/
def getMaxPreEmphasisForVoltageSwing (voltage : ℕ) : ℕ :=
  if voltage ≤ voltageSwingMaxLevel then
    voltageSwingToPreEmphasis.getD voltage preEmphasisMaxLevel
  else
    preEmphasisMaxLevel

/-- `struct dc_lane_settings`. The members are the numbers of the levels. -/
structure LaneSettings where
  voltageSwing : ℕ
  preEmphasis : ℕ
  postCursor2 : ℕ
  deriving DecidableEq, Repr

/-- `struct link_training_settings` -/
structure LinkTrainingSettings where
  linkSettings : LinkSettings
  laneSettings : ℕ → LaneSettings

/-- The number of lanes in use. -/
def LinkTrainingSettings.laneCount (lt : LinkTrainingSettings) : ℕ := lt.linkSettings.laneCount

/-- The settings of the lanes in use. -/
def LinkTrainingSettings.lanes (lt : LinkTrainingSettings) : List LaneSettings :=
  (List.range lt.laneCount).map lt.laneSettings

/-- `enum hw_dp_training_pattern` -/
inductive HwDpTrainingPattern
  | pattern1
  | pattern2
  | pattern3
  | pattern4
  deriving DecidableEq, Repr

/-- `enum dpcd_training_patterns`; `hw_training_pattern_to_dpcd_training_pattern` is the constructor
`training` -/
inductive DpcdTrainingPattern
  | videoIdle
  | training (pattern : HwDpTrainingPattern)
  deriving DecidableEq, Repr

/-- `union dpcd_training_lane` -/
structure DpcdTrainingLane where
  voltageSwingSet : ℕ
  maxSwingReached : Bool
  preEmphasisSet : ℕ
  maxPreEmphasisReached : Bool
  deriving DecidableEq, Repr

/-- The register of a lane; the two levels have two bits each. -/
def LaneSettings.dpcd (x : LaneSettings) : DpcdTrainingLane where
  voltageSwingSet := x.voltageSwing % 4
  maxSwingReached := x.voltageSwing = voltageSwingMaxLevel
  preEmphasisSet := x.preEmphasis % 4
  maxPreEmphasisReached := x.preEmphasis = preEmphasisMaxLevel

/-- What is programmed: the hardware, or a register of the sink. -/
inductive LinkEvent
  | hwTrainingPattern (pattern : HwDpTrainingPattern)
  | hwTestPatternVideoMode
  | hwLaneSettings (lanes : List LaneSettings)
  | dpcdTrainingPattern (pattern : DpcdTrainingPattern)
  | dpcdLaneSettings (lanes : List DpcdTrainingLane)
  | dpcdLinkSettings (rate laneCount : ℕ) (postLtAdjReqGranted : Bool) (spread : LinkSpread)
  | dpcdLaneCountSet (laneCount : ℕ) (postLtAdjReqGranted : Bool)
  deriving DecidableEq, Repr

/-- What is read of the capabilities of the encoder and of the sink. -/
structure TrainingCaps where
  isTps3Capable : Bool
  isTps4Capable : Bool
  tps3Supported : Bool
  tps4Supported : Bool
  postLtAdjReqSupported : Bool
  deriving DecidableEq, Repr

/-- `get_supported_tp` -/
def TrainingCaps.getSupportedTp (caps : TrainingCaps) : HwDpTrainingPattern :=
  if caps.tps4Supported && caps.isTps4Capable then .pattern4
  else if caps.tps3Supported && (caps.isTps3Capable || caps.isTps4Capable) then .pattern3
  else .pattern2

/-! ## A status read -/

/-- `get_nibble_at_index` -/
def getNibbleAtIndex (buf : ℕ → UInt8) (index : ℕ) : ℕ :=
  if index % 2 = 0 then (buf (index / 2)).toNat % 16 else (buf (index / 2)).toNat / 16

/-- `is_cr_done`: the bit `CR_DONE_0` of every lane -/
def isCrDone (laneCount : ℕ) (laneStatus : ℕ → ℕ) : Bool :=
  (List.range laneCount).all fun lane => (laneStatus lane).testBit 0

/-- `is_ch_eq_done`: the bit `INTERLANE_ALIGN_DONE`, and the bits `SYMBOL_LOCKED_0` and
`CHANNEL_EQ_DONE_0` of every lane -/
def isChEqDone (laneCount : ℕ) (laneStatus : ℕ → ℕ) (updated : ℕ) : Bool :=
  updated.testBit 0 &&
    (List.range laneCount).all fun lane =>
      (laneStatus lane).testBit 2 && (laneStatus lane).testBit 1

/-- `update_drive_settings` -/
def updateDriveSettings (dest src : LinkTrainingSettings) : LinkTrainingSettings :=
  { dest with
    laneSettings := fun lane =>
      if lane < src.laneCount then src.laneSettings lane else dest.laneSettings lane }

/-- The first loop of `find_max_drive_settings`. -/
def maxRequested (lt : LinkTrainingSettings) : LaneSettings :=
  (List.range' 1 (lt.laneCount - 1)).foldl
    (fun m lane =>
      { m with
        voltageSwing :=
          if (lt.laneSettings lane).voltageSwing > m.voltageSwing then
            (lt.laneSettings lane).voltageSwing
          else m.voltageSwing
        preEmphasis :=
          if (lt.laneSettings lane).preEmphasis > m.preEmphasis then
            (lt.laneSettings lane).preEmphasis
          else m.preEmphasis })
    (lt.laneSettings 0)

/-- `find_max_drive_settings`, into settings that were filled with zeros -/
def findMaxDriveSettings (lt : LinkTrainingSettings) : LinkTrainingSettings :=
  let voltageSwing :=
    if (maxRequested lt).voltageSwing > voltageSwingMaxLevel then voltageSwingMaxLevel
    else (maxRequested lt).voltageSwing
  let preEmphasis :=
    if (maxRequested lt).preEmphasis > preEmphasisMaxLevel then preEmphasisMaxLevel
    else (maxRequested lt).preEmphasis
  let preEmphasis :=
    if preEmphasis > getMaxPreEmphasisForVoltageSwing voltageSwing then
      getMaxPreEmphasisForVoltageSwing voltageSwing
    else preEmphasis
  { linkSettings := lt.linkSettings
    laneSettings := fun lane =>
      if lane < lt.laneCount then ⟨voltageSwing, preEmphasis, 0⟩ else ⟨0, 0, 0⟩ }

/-- What `get_lane_status_and_drive_settings` returns. -/
structure LaneStatusAndDriveSettings where
  lnStatus : ℕ → ℕ
  lnStatusUpdated : ℕ
  reqSettings : LinkTrainingSettings

/-- `get_lane_status_and_drive_settings`, with the bytes that the sink answers -/
def getLaneStatusAndDriveSettings (buf : ℕ → UInt8) (lt : LinkTrainingSettings) :
    LaneStatusAndDriveSettings :=
  let adjust := getNibbleAtIndex fun i => buf (4 + i)
  { lnStatus := getNibbleAtIndex buf
    lnStatusUpdated := (buf 2).toNat
    reqSettings := findMaxDriveSettings
      { linkSettings := lt.linkSettings
        laneSettings := fun lane =>
          if lane < lt.laneCount then ⟨adjust lane % 4, adjust lane / 4 % 4, 0⟩ else ⟨0, 0, 0⟩ } }

/-- `is_max_vs_reached` -/
def isMaxVsReached (lt : LinkTrainingSettings) : Bool :=
  lt.lanes.any fun x => x.voltageSwing = voltageSwingMaxLevel

/-- In an answer of the sink all lanes have clock recovery, symbol lock and equalization, and they
are aligned. -/
def LanesLocked (laneCount : ℕ) (buf : ℕ → UInt8) : Prop :=
  (buf 2).toNat.testBit 0 = true ∧ ∀ lane < laneCount,
    (getNibbleAtIndex buf lane).testBit 0 = true ∧ (getNibbleAtIndex buf lane).testBit 1 = true ∧
      (getNibbleAtIndex buf lane).testBit 2 = true

/-! ## The parts of a training -/

/-- The state of a training. -/
structure Training where
  lt : LinkTrainingSettings
  /-- the status reads of clock recovery -/
  crReads : ℕ
  /-- the status reads of channel equalization -/
  eqReads : ℕ
  /-- the status reads after the training -/
  postReads : ℕ
  /-- what was programmed, the last first -/
  events : List LinkEvent

namespace Training

/-- The number of status reads. -/
def reads (s : Training) : ℕ := s.crReads + s.eqReads + s.postReads

/-- Something is programmed. -/
def program (s : Training) (e : LinkEvent) : Training := { s with events := e :: s.events }

/-- `dp_set_hw_lane_settings` -/
def dpSetHwLaneSettings (s : Training) : Training := s.program (.hwLaneSettings s.lt.lanes)

/-- `dpcd_set_lane_settings` -/
def dpcdSetLaneSettings (s : Training) : Training :=
  s.program (.dpcdLaneSettings (s.lt.lanes.map LaneSettings.dpcd))

/-- `dpcd_set_lt_pattern_and_lane_settings` -/
def dpcdSetLtPatternAndLaneSettings (s : Training) (pattern : HwDpTrainingPattern) : Training :=
  (s.program (.dpcdTrainingPattern (.training pattern))).dpcdSetLaneSettings

/-- What both loops do first: the settings are programmed into the hardware and into the sink, in
the first round together with the pattern. -/
def programRound (s : Training) (first : Bool) (pattern : HwDpTrainingPattern) : Training :=
  if first then s.dpSetHwLaneSettings.dpcdSetLtPatternAndLaneSettings pattern
  else s.dpSetHwLaneSettings.dpcdSetLaneSettings

/-- `dc_link_dp_set_drive_settings` -/
def dcLinkDpSetDriveSettings (s : Training) : Training := s.dpSetHwLaneSettings.dpcdSetLaneSettings

/-- The settings that the sink asked for are taken. -/
def update (s : Training) (req : LinkTrainingSettings) : Training :=
  { s with lt := updateDriveSettings s.lt req }

variable (sink : ℕ → ℕ → UInt8)

/-- The loop of `perform_clock_recovery_sequence`, with the number of rounds that are left before
`retry_count` is `LINK_TRAINING_MAX_CR_RETRY`, and with `retries_cr`. -/
def clockRecoveryLoop : ℕ → ℕ → Training → Training × Bool
  | 0, _, s => (s, false)
  | n + 1, retriesCr, s =>
    if retriesCr < linkTrainingMaxRetryCount then
      let s := s.programRound (retriesCr = 0) .pattern1
      let status := getLaneStatusAndDriveSettings (sink s.reads) s.lt
      let s := { s with crReads := s.crReads + 1 }
      if isCrDone s.lt.laneCount status.lnStatus then (s, true)
      else if isMaxVsReached s.lt then (s, false)
      else
        clockRecoveryLoop n
          (if (s.lt.laneSettings 0).voltageSwing =
              (status.reqSettings.laneSettings 0).voltageSwing then retriesCr + 1 else 0)
          (s.update status.reqSettings)
    else (s, false)

/-- `perform_clock_recovery_sequence` -/
def performClockRecoverySequence (s : Training) : Training × Bool :=
  let s := { s with lt := { s.lt with laneSettings := fun _ => ⟨0, 0, 0⟩ } }
  clockRecoveryLoop sink linkTrainingMaxCrRetry 0 (s.program (.hwTrainingPattern .pattern1))

/-- The loop of `perform_channel_equalization_sequence`, with the number of rounds that are left. -/
def channelEqualizationLoop (pattern : HwDpTrainingPattern) :
    ℕ → ℕ → Training → Training × Bool
  | 0, _, s => (s, false)
  | n + 1, retriesChEq, s =>
    let s := s.programRound (retriesChEq = 0) pattern
    let status := getLaneStatusAndDriveSettings (sink s.reads) s.lt
    let s := { s with eqReads := s.eqReads + 1 }
    if !isCrDone s.lt.laneCount status.lnStatus then (s, false)
    else if isChEqDone s.lt.laneCount status.lnStatus status.lnStatusUpdated then (s, true)
    else channelEqualizationLoop pattern n (retriesChEq + 1) (s.update status.reqSettings)

/-- `perform_channel_equalization_sequence` -/
def performChannelEqualizationSequence (caps : TrainingCaps) (s : Training) : Training × Bool :=
  channelEqualizationLoop sink caps.getSupportedTp (linkTrainingMaxRetryCount + 1) 0
    (s.program (.hwTrainingPattern caps.getSupportedTp))

/-- How the inner loop of `perform_post_lt_adj_req_sequence` ends. -/
inductive AdjReq
  /-- the sink is done -/
  | done
  /-- a lane is lost -/
  | lost
  /-- `req_drv_setting_changed` -/
  | changed
  | timedOut
  deriving DecidableEq, Repr

/-- The inner loop of `perform_post_lt_adj_req_sequence`, with the number of polls that are left. -/
def adjReqPoll : ℕ → Training → Training × AdjReq
  | 0, s => (s, .timedOut)
  | n + 1, s =>
    let status := getLaneStatusAndDriveSettings (sink s.reads) s.lt
    let s := { s with postReads := s.postReads + 1 }
    if !status.lnStatusUpdated.testBit 1 then (s, .done)
    else if !isCrDone s.lt.laneCount status.lnStatus then (s, .lost)
    else if !isChEqDone s.lt.laneCount status.lnStatus status.lnStatusUpdated then (s, .lost)
    else if (List.range s.lt.laneCount).any fun lane =>
        (s.lt.laneSettings lane).voltageSwing ≠
            (status.reqSettings.laneSettings lane).voltageSwing ||
          (s.lt.laneSettings lane).preEmphasis ≠
            (status.reqSettings.laneSettings lane).preEmphasis then
      ((s.update status.reqSettings).dcLinkDpSetDriveSettings, .changed)
    else adjReqPoll n s

/-- The outer loop of `perform_post_lt_adj_req_sequence`, with the number of rounds that are
left. -/
def adjReqLoop : ℕ → Training → Training × Bool
  | 0, s => (s, true)
  | n + 1, s =>
    let out := adjReqPoll sink postLtAdjReqTimeout s
    match out.2 with
    | .done => (out.1, true)
    | .lost => (out.1, false)
    | .changed => adjReqLoop n out.1
    | .timedOut => (out.1, true)

/-- `perform_post_lt_adj_req_sequence` -/
def performPostLtAdjReqSequence (s : Training) : Training × Bool :=
  adjReqLoop sink postLtAdjReqLimit s

/-- `perform_link_training_int` -/
def performLinkTrainingInt (caps : TrainingCaps) (s : Training) (status : Bool) :
    Training × Bool :=
  let s := (s.program (.dpcdTrainingPattern .videoIdle)).program .hwTestPatternVideoMode
  if caps.postLtAdjReqSupported = false ∧ caps.getSupportedTp = .pattern4 then (s, status)
  else
    let out := if status then performPostLtAdjReqSequence sink s else (s, false)
    (out.1.program (.dpcdLaneCountSet s.lt.laneCount false), out.2)

/-- The first step of `dc_link_dp_perform_link_training`: the settings are filled, and
`dpcd_set_link_settings` programs them. -/
def start (caps : TrainingCaps) (linkSetting : LinkSettings) : Training where
  lt :=
    { linkSettings := { linkSetting with linkSpread := .downspread30kHz }
      laneSettings := fun _ => ⟨0, 0, 0⟩ }
  crReads := 0
  eqReads := 0
  postReads := 0
  events := [.dpcdLinkSettings linkSetting.linkRate linkSetting.laneCount
    caps.postLtAdjReqSupported .downspread30kHz]

/-- The second step of `dc_link_dp_perform_link_training`: one sequence after the other. -/
def performSequences (caps : TrainingCaps) (s : Training) : Training × Bool :=
  let cr := performClockRecoverySequence sink s
  if cr.2 then performChannelEqualizationSequence sink caps cr.1 else (cr.1, false)

end Training

/-- `dc_link_dp_perform_link_training` -/
def dcLinkDpPerformLinkTraining (sink : ℕ → ℕ → UInt8) (caps : TrainingCaps)
    (linkSetting : LinkSettings) (skipVideoPattern : Bool) : Training × Bool :=
  let out := Training.performSequences sink caps (.start caps linkSetting)
  if out.2 || !skipVideoPattern then Training.performLinkTrainingInt sink caps out.1 out.2 else out

/-! ## Legal settings -/

/-- The voltage swing is not above the maximum, and the pre-emphasis not above the limit for it. -/
def LaneSettings.Legal (x : LaneSettings) : Prop :=
  x.voltageSwing ≤ voltageSwingMaxLevel ∧
    x.preEmphasis ≤ getMaxPreEmphasisForVoltageSwing x.voltageSwing

/-- The register of a lane has legal settings. -/
def DpcdTrainingLane.Legal (x : DpcdTrainingLane) : Prop :=
  x.voltageSwingSet ≤ voltageSwingMaxLevel ∧
    x.preEmphasisSet ≤ getMaxPreEmphasisForVoltageSwing x.voltageSwingSet

/-- The lane settings that are programmed are legal. -/
def LinkEvent.Legal : LinkEvent → Prop
  | .hwLaneSettings lanes => ∀ x ∈ lanes, x.Legal
  | .dpcdLaneSettings lanes => ∀ x ∈ lanes, x.Legal
  | _ => True

/-- The settings at the start. -/
theorem LaneSettings.zero_legal : LaneSettings.Legal ⟨0, 0, 0⟩ := ⟨Nat.zero_le _, Nat.zero_le _⟩

/-- The table has legal levels. -/
theorem getMaxPreEmphasisForVoltageSwing_le (v : ℕ) :
    getMaxPreEmphasisForVoltageSwing v ≤ preEmphasisMaxLevel := by
  rw [getMaxPreEmphasisForVoltageSwing]
  split
  · rename_i hv
    rw [voltageSwingMaxLevel] at hv
    interval_cases v <;> decide
  · exact le_rfl

/-- Legal settings fit into the register of the lane. -/
theorem LaneSettings.Legal.dpcd {x : LaneSettings} (h : x.Legal) : x.dpcd.Legal := by
  have hvs : x.voltageSwing % 4 = x.voltageSwing := Nat.mod_eq_of_lt (Nat.lt_succ_of_le h.1)
  have hpe : x.preEmphasis % 4 = x.preEmphasis :=
    Nat.mod_eq_of_lt (Nat.lt_succ_of_le (h.2.trans (getMaxPreEmphasisForVoltageSwing_le _)))
  rw [DpcdTrainingLane.Legal, LaneSettings.dpcd, hvs, hpe]
  exact h

/-- **What is taken from the sink is legal**, whatever it asks for. -/
theorem findMaxDriveSettings_legal (lt : LinkTrainingSettings) (lane : ℕ) :
    ((findMaxDriveSettings lt).laneSettings lane).Legal := by
  have hclamp : ∀ a b : ℕ, (if a > b then b else a) ≤ b := by
    intro a b
    split <;> omega
  simp only [findMaxDriveSettings]
  by_cases hlane : lane < lt.laneCount
  · rw [if_pos hlane]
    exact ⟨hclamp _ _, hclamp _ _⟩
  · rw [if_neg hlane]
    exact LaneSettings.zero_legal

/-- So are those of a status read. -/
theorem reqSettings_legal (buf : ℕ → UInt8) (lt : LinkTrainingSettings) (lane : ℕ) :
    ((getLaneStatusAndDriveSettings buf lt).reqSettings.laneSettings lane).Legal :=
  findMaxDriveSettings_legal _ lane

namespace Training

/-- The current settings are legal, and so was everything that was programmed. -/
structure Legal (s : Training) : Prop where
  lanes : ∀ lane, (s.lt.laneSettings lane).Legal
  events : ∀ e ∈ s.events, e.Legal

/-- A part of a training: it keeps the number of lanes and legality, and reads the status at most so
many times. -/
structure Grown (cr eq post : ℕ) (s s' : Training) : Prop where
  laneCount : s'.lt.laneCount = s.lt.laneCount
  legal : s.Legal → s'.Legal
  reads : s.reads ≤ s'.reads
  crReads : s'.crReads ≤ s.crReads + cr
  eqReads : s'.eqReads ≤ s.eqReads + eq
  postReads : s'.postReads ≤ s.postReads + post

variable {sink : ℕ → ℕ → UInt8} {s s' s'' : Training} {cr eq post cr' eq' post' : ℕ}

/-- Nothing happens. -/
theorem Grown.refl (s : Training) : Grown 0 0 0 s s :=
  ⟨rfl, id, le_rfl, le_rfl, le_rfl, le_rfl⟩

/-- The reads of two parts add up. -/
theorem Grown.trans (h : Grown cr eq post s s') (h' : Grown cr' eq' post' s' s'') :
    Grown (cr + cr') (eq + eq') (post + post') s s'' where
  laneCount := h'.laneCount.trans h.laneCount
  legal := fun hs => h'.legal (h.legal hs)
  reads := h.reads.trans h'.reads
  crReads := by
    have := h.crReads
    have := h'.crReads
    omega
  eqReads := by
    have := h.eqReads
    have := h'.eqReads
    omega
  postReads := by
    have := h.postReads
    have := h'.postReads
    omega

/-- A bound may be larger. -/
theorem Grown.mono (h : Grown cr eq post s s') (hcr : cr ≤ cr') (heq : eq ≤ eq')
    (hpost : post ≤ post') : Grown cr' eq' post' s s' :=
  ⟨h.laneCount, h.legal, h.reads, h.crReads.trans (Nat.add_le_add_left hcr _),
    h.eqReads.trans (Nat.add_le_add_left heq _), h.postReads.trans (Nat.add_le_add_left hpost _)⟩

/-! ### Programming and reading -/

/-- Programming a legal event. -/
theorem program_grown {e : LinkEvent} (he : s.Legal → e.Legal) : Grown 0 0 0 s (s.program e) where
  laneCount := rfl
  legal := fun hs => ⟨hs.lanes, List.forall_mem_cons.mpr ⟨he hs, hs.events⟩⟩
  reads := le_rfl
  crReads := le_rfl
  eqReads := le_rfl
  postReads := le_rfl

/-- The lanes of legal settings are legal. -/
theorem Legal.mem_lanes (h : s.Legal) : ∀ x ∈ s.lt.lanes, x.Legal :=
  List.forall_mem_map.mpr fun lane _ => h.lanes lane

/-- The settings of the transmitter. -/
theorem dpSetHwLaneSettings_grown : Grown 0 0 0 s s.dpSetHwLaneSettings :=
  program_grown Legal.mem_lanes

/-- The settings that are told the sink. -/
theorem dpcdSetLaneSettings_grown : Grown 0 0 0 s s.dpcdSetLaneSettings :=
  program_grown fun hs => List.forall_mem_map.mpr fun x hx => (hs.mem_lanes x hx).dpcd

/-- Together with the pattern. -/
theorem dpcdSetLtPatternAndLaneSettings_grown (pattern : HwDpTrainingPattern) :
    Grown 0 0 0 s (s.dpcdSetLtPatternAndLaneSettings pattern) := by
  have hpattern : LinkEvent.Legal (.dpcdTrainingPattern (.training pattern)) := trivial
  exact (program_grown fun _ => hpattern).trans dpcdSetLaneSettings_grown

/-- What a round programs. -/
theorem programRound_grown (s : Training) (first : Bool) (pattern : HwDpTrainingPattern) :
    Grown 0 0 0 s (s.programRound first pattern) := by
  rw [programRound]
  split
  · exact dpSetHwLaneSettings_grown.trans (dpcdSetLtPatternAndLaneSettings_grown pattern)
  · exact dpSetHwLaneSettings_grown.trans dpcdSetLaneSettings_grown

/-- Legal settings are taken. -/
theorem update_grown {req : LinkTrainingSettings} (hreq : ∀ lane, (req.laneSettings lane).Legal) :
    Grown 0 0 0 s (s.update req) where
  laneCount := rfl
  legal := fun hs => ⟨fun lane => by
    simp only [update, updateDriveSettings]
    split
    · exact hreq lane
    · exact hs.lanes lane, hs.events⟩
  reads := le_rfl
  crReads := le_rfl
  eqReads := le_rfl
  postReads := le_rfl

/-- A read for clock recovery. -/
theorem crRead_grown : Grown 1 0 0 s { s with crReads := s.crReads + 1 } := by
  refine ⟨rfl, fun hs => ⟨hs.lanes, hs.events⟩, ?_, le_rfl, le_rfl, le_rfl⟩
  simp only [reads]
  omega

/-- A read for channel equalization. -/
theorem eqRead_grown : Grown 0 1 0 s { s with eqReads := s.eqReads + 1 } := by
  refine ⟨rfl, fun hs => ⟨hs.lanes, hs.events⟩, ?_, le_rfl, le_rfl, le_rfl⟩
  simp only [reads]
  omega

/-- A read for the adjustment after the training. -/
theorem postRead_grown : Grown 0 0 1 s { s with postReads := s.postReads + 1 } := by
  refine ⟨rfl, fun hs => ⟨hs.lanes, hs.events⟩, ?_, le_rfl, le_rfl, le_rfl⟩
  simp only [reads]
  omega

/-! ### The loops -/

variable (sink)

/-- **The rounds of clock recovery** are not more than were left. -/
theorem clockRecoveryLoop_grown (n retriesCr : ℕ) (s : Training) :
    Grown n 0 0 s (clockRecoveryLoop sink n retriesCr s).1 := by
  induction n generalizing retriesCr s with
  | zero => exact .refl s
  | succ n ih =>
    rw [clockRecoveryLoop]
    split
    · have hprogram := programRound_grown s (retriesCr = 0) .pattern1
      generalize s.programRound (retriesCr = 0) .pattern1 = t at hprogram ⊢
      have hread := hprogram.trans crRead_grown
      dsimp only
      split
      · exact hread.mono (by omega) le_rfl le_rfl
      · split
        · exact hread.mono (by omega) le_rfl le_rfl
        · have hupdate := hread.trans (update_grown (reqSettings_legal (sink t.reads) t.lt))
          exact (hupdate.trans (ih _ _)).mono (by omega) le_rfl le_rfl
    · exact (Grown.refl s).mono (Nat.zero_le _) le_rfl le_rfl

/-- In an answer with which channel equalization ends, all lanes are locked. -/
theorem lanesLocked {laneCount : ℕ} {buf : ℕ → UInt8} {lt : LinkTrainingSettings}
    (hcr : isCrDone laneCount (getLaneStatusAndDriveSettings buf lt).lnStatus = true)
    (heq : isChEqDone laneCount (getLaneStatusAndDriveSettings buf lt).lnStatus
      (getLaneStatusAndDriveSettings buf lt).lnStatusUpdated = true) :
    LanesLocked laneCount buf := by
  rw [isChEqDone, Bool.and_eq_true] at heq
  refine ⟨heq.1, fun lane hlane => ?_⟩
  have hmem : lane ∈ List.range laneCount := List.mem_range.mpr hlane
  have hlane := List.all_eq_true.mp heq.2 lane hmem
  rw [Bool.and_eq_true] at hlane
  exact ⟨List.all_eq_true.mp hcr lane hmem, hlane.2, hlane.1⟩

/-- **The rounds of channel equalization** are not more than were left, and it succeeds only with
all lanes locked. -/
theorem channelEqualizationLoop_spec (pattern : HwDpTrainingPattern) (n retriesChEq : ℕ)
    (s : Training) :
    Grown 0 n 0 s (channelEqualizationLoop sink pattern n retriesChEq s).1 ∧
      ((channelEqualizationLoop sink pattern n retriesChEq s).2 = true →
        ∃ k < (channelEqualizationLoop sink pattern n retriesChEq s).1.reads,
          LanesLocked s.lt.laneCount (sink k)) := by
  induction n generalizing retriesChEq s with
  | zero => exact ⟨.refl s, fun h => by cases h⟩
  | succ n ih =>
    rw [channelEqualizationLoop]
    have hprogram := programRound_grown s (retriesChEq = 0) pattern
    generalize s.programRound (retriesChEq = 0) pattern = t at hprogram ⊢
    have hread := hprogram.trans eqRead_grown
    dsimp only
    split
    · exact ⟨hread.mono le_rfl (by omega) le_rfl, fun h => by cases h⟩
    · rename_i hcr
      split
      · rename_i heq
        refine ⟨hread.mono le_rfl (by omega) le_rfl, fun _ => ⟨t.reads, ?_, ?_⟩⟩
        · simp only [reads]
          omega
        · rw [← hprogram.laneCount]
          exact lanesLocked (by simpa using hcr) heq
      · have hupdate := hread.trans (update_grown (reqSettings_legal (sink t.reads) t.lt))
        obtain ⟨hgrown, hlocked⟩ := ih (retriesChEq + 1)
          (({ t with eqReads := t.eqReads + 1 } : Training).update
            (getLaneStatusAndDriveSettings (sink t.reads) t.lt).reqSettings)
        refine ⟨(hupdate.trans hgrown).mono le_rfl (by omega) le_rfl, fun h => ?_⟩
        rw [← hupdate.laneCount]
        exact hlocked h

/-- The polls of one round are not more than were left. -/
theorem adjReqPoll_grown (n : ℕ) (s : Training) : Grown 0 0 n s (adjReqPoll sink n s).1 := by
  induction n generalizing s with
  | zero => exact .refl s
  | succ n ih =>
    rw [adjReqPoll]
    have hread : Grown 0 0 1 s _ := postRead_grown
    dsimp only
    split
    · exact hread.mono le_rfl le_rfl (by omega)
    · split
      · exact hread.mono le_rfl le_rfl (by omega)
      · split
        · exact hread.mono le_rfl le_rfl (by omega)
        · split
          · have hupdate := hread.trans (update_grown (reqSettings_legal (sink s.reads) s.lt))
            have hset := hupdate.trans
              (dpSetHwLaneSettings_grown.trans dpcdSetLaneSettings_grown)
            exact hset.mono le_rfl le_rfl (by omega)
          · exact (hread.trans (ih _)).mono le_rfl le_rfl (by omega)

/-- **The polls after the training** are not more than the rounds that are left times the
timeout. -/
theorem adjReqLoop_grown (n : ℕ) (s : Training) :
    Grown 0 0 (n * postLtAdjReqTimeout) s (adjReqLoop sink n s).1 := by
  induction n generalizing s with
  | zero => exact (Grown.refl s).mono le_rfl le_rfl (Nat.zero_le _)
  | succ n ih =>
    have hpoll := adjReqPoll_grown sink postLtAdjReqTimeout s
    have hle : postLtAdjReqTimeout ≤ (n + 1) * postLtAdjReqTimeout :=
      Nat.le_mul_of_pos_left _ n.succ_pos
    rw [adjReqLoop]
    split
    · exact hpoll.mono le_rfl le_rfl hle
    · exact hpoll.mono le_rfl le_rfl hle
    · refine (hpoll.trans (ih _)).mono le_rfl le_rfl ?_
      rw [Nat.succ_mul, Nat.add_comm]
    · exact hpoll.mono le_rfl le_rfl hle

/-! ### The parts -/

/-- **Clock recovery** is bounded. -/
theorem performClockRecoverySequence_grown (s : Training) :
    Grown linkTrainingMaxCrRetry 0 0 s (performClockRecoverySequence sink s).1 := by
  have hstart : Grown 0 0 0 s
      { s with lt := { s.lt with laneSettings := fun _ => ⟨0, 0, 0⟩ } } :=
    ⟨rfl, fun hs => ⟨fun _ => LaneSettings.zero_legal, hs.events⟩, le_rfl, le_rfl, le_rfl, le_rfl⟩
  have hpattern : LinkEvent.Legal (.hwTrainingPattern .pattern1) := trivial
  have hloop := (hstart.trans (program_grown fun _ => hpattern)).trans
    (clockRecoveryLoop_grown sink linkTrainingMaxCrRetry 0 _)
  exact hloop.mono (by omega) le_rfl le_rfl

/-- **Channel equalization** is bounded, and succeeds only with locked lanes. -/
theorem performChannelEqualizationSequence_spec (caps : TrainingCaps) (s : Training) :
    Grown 0 (linkTrainingMaxRetryCount + 1) 0 s
        (performChannelEqualizationSequence sink caps s).1 ∧
      ((performChannelEqualizationSequence sink caps s).2 = true →
        ∃ k < (performChannelEqualizationSequence sink caps s).1.reads,
          LanesLocked s.lt.laneCount (sink k)) := by
  have hpattern : LinkEvent.Legal (.hwTrainingPattern caps.getSupportedTp) := trivial
  obtain ⟨hgrown, hlocked⟩ := channelEqualizationLoop_spec sink caps.getSupportedTp
    (linkTrainingMaxRetryCount + 1) 0 (s.program (.hwTrainingPattern caps.getSupportedTp))
  exact ⟨((program_grown fun _ => hpattern).trans hgrown).mono le_rfl (by omega) le_rfl, hlocked⟩

/-- **The adjustment after the training** is bounded. -/
theorem performPostLtAdjReqSequence_grown (s : Training) :
    Grown 0 0 (postLtAdjReqLimit * postLtAdjReqTimeout) s (performPostLtAdjReqSequence sink s).1 :=
  adjReqLoop_grown sink postLtAdjReqLimit s

/-- The part behind the two sequences. -/
theorem performLinkTrainingInt_grown (caps : TrainingCaps) (s : Training) (status : Bool) :
    Grown 0 0 (postLtAdjReqLimit * postLtAdjReqTimeout) s
        (performLinkTrainingInt sink caps s status).1 ∧
      ((performLinkTrainingInt sink caps s status).2 = true → status = true) := by
  have hidle : LinkEvent.Legal (.dpcdTrainingPattern .videoIdle) := trivial
  have htest : LinkEvent.Legal .hwTestPatternVideoMode := trivial
  have hcount : ∀ n, LinkEvent.Legal (.dpcdLaneCountSet n false) := fun _ => trivial
  have hstart : Grown 0 0 0 s _ :=
    (program_grown fun _ => hidle).trans (program_grown fun _ => htest)
  rw [performLinkTrainingInt]
  dsimp only
  split
  · exact ⟨hstart.mono le_rfl le_rfl (Nat.zero_le _), id⟩
  · cases status with
    | false =>
      have hend := hstart.trans (program_grown fun _ => hcount s.lt.laneCount)
      exact ⟨hend.mono le_rfl le_rfl (Nat.zero_le _), id⟩
    | true =>
      have hpost := hstart.trans (performPostLtAdjReqSequence_grown sink _)
      have hend := hpost.trans (program_grown fun _ => hcount s.lt.laneCount)
      exact ⟨hend.mono le_rfl le_rfl (by omega), fun _ => rfl⟩

/-- The two sequences. -/
theorem performSequences_spec (caps : TrainingCaps) (s : Training) :
    Grown linkTrainingMaxCrRetry (linkTrainingMaxRetryCount + 1) 0 s
        (performSequences sink caps s).1 ∧
      ((performSequences sink caps s).2 = true →
        ∃ k < (performSequences sink caps s).1.reads, LanesLocked s.lt.laneCount (sink k)) := by
  have hcr := performClockRecoverySequence_grown sink s
  rw [performSequences]
  generalize performClockRecoverySequence sink s = cr at hcr ⊢
  obtain ⟨heq, hlocked⟩ := performChannelEqualizationSequence_spec sink caps cr.1
  split
  · rw [← hcr.laneCount]
    exact ⟨(hcr.trans heq).mono le_rfl (by omega) le_rfl, hlocked⟩
  · exact ⟨hcr.mono le_rfl (Nat.zero_le _) le_rfl, fun h => by cases h⟩

/-- A training starts with legal settings. -/
theorem start_legal (caps : TrainingCaps) (linkSetting : LinkSettings) :
    (start caps linkSetting).Legal :=
  ⟨fun _ => LaneSettings.zero_legal,
    List.forall_mem_cons.mpr ⟨trivial, List.forall_mem_nil _⟩⟩

end Training

/-- **A link training is bounded and legal.** For every sink, a training ends after at most 100
rounds of clock recovery, 6 rounds of channel equalization and 1200 polls after it. Every lane
setting that it programs, into the hardware or into the sink, has a voltage swing within the maximum
and a pre-emphasis within the limit for it. It succeeds only if in some status read all lanes had
clock recovery, symbol lock and equalization, and were aligned. -/
theorem dcLinkDpPerformLinkTraining_bounded (sink : ℕ → ℕ → UInt8) (caps : TrainingCaps)
    (linkSetting : LinkSettings) (skipVideoPattern : Bool) :
    let out := dcLinkDpPerformLinkTraining sink caps linkSetting skipVideoPattern
    out.1.crReads ≤ 100 ∧ out.1.eqReads ≤ 6 ∧ out.1.postReads ≤ 1200 ∧
      (∀ e ∈ out.1.events, e.Legal) ∧
      (out.2 = true → ∃ k < out.1.reads, LanesLocked linkSetting.laneCount (sink k)) := by
  intro out
  obtain ⟨hseq, hlocked⟩ :=
    Training.performSequences_spec sink caps (.start caps linkSetting)
  have hout : Training.Grown linkTrainingMaxCrRetry (linkTrainingMaxRetryCount + 1)
        (postLtAdjReqLimit * postLtAdjReqTimeout) (.start caps linkSetting) out.1 ∧
      (out.2 = true → ∃ k < out.1.reads, LanesLocked linkSetting.laneCount (sink k)) := by
    simp only [out, dcLinkDpPerformLinkTraining]
    generalize Training.performSequences sink caps (.start caps linkSetting) = mid at hseq hlocked ⊢
    obtain ⟨hint, hstatus⟩ := Training.performLinkTrainingInt_grown sink caps mid.1 mid.2
    split
    · refine ⟨(hseq.trans hint).mono le_rfl le_rfl (by omega), fun hok => ?_⟩
      obtain ⟨k, hk, hlanes⟩ := hlocked (hstatus hok)
      exact ⟨k, hk.trans_le hint.reads, hlanes⟩
    · exact ⟨hseq.mono le_rfl le_rfl (Nat.zero_le _), hlocked⟩
  obtain ⟨hgrown, hok⟩ := hout
  have hcr : out.1.crReads ≤ 0 + 100 := hgrown.crReads
  have heq : out.1.eqReads ≤ 0 + 6 := hgrown.eqReads
  have hpost : out.1.postReads ≤ 0 + 1200 := hgrown.postReads
  have hlegal := hgrown.legal (Training.start_legal caps linkSetting)
  exact ⟨by omega, by omega, by omega, hlegal.events, hok⟩

end Dc
