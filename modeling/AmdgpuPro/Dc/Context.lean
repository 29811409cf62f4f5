import Mathlib.Tactic

set_option autoImplicit false

/-!
# Streams, pipes and contexts of the display core

The display core shows streams on sinks. Each stream needs a pipe, a stream encoder, maybe an audio
endpoint, and a clock source; these come from the resource pool of the chip. A validate context
records which pipes carry which streams and surfaces. The current context is what the hardware
does; other contexts are built from it to see whether a configuration is possible.

## Main definitions

* `Dc.Board` — what the chip has and what the caller asks for: the resource pool, and the sinks,
  streams and targets.
* `Board.areStreamsTimingSynchronizable` — two streams can run in step.
* `dce110Pool` — the resource pool of a chip with four pipes.

## Design

Objects that the code names by pointers are named by numbers. A target has one stream, because
`MAX_STREAM_NUM` is 1. The signal and the pixel clock of a stream are what `calculate_phy_pix_clks`
stores in it; they depend on nothing that changes. Pointers between pipes are `PipePtr`, which tells
pipes of the same context from pipes of another one. Of the resources of a pipe, the timing
generator and the other blocks with the index of the pipe are left out.
-/

namespace Dc

/-- `MAX_PIPES` -/
def maxPipes : ℕ := 6

/-! ## Streams -/

/-- `enum signal_type` -/
inductive SignalType
  | none
  | dviSingleLink
  | dviDualLink
  | hdmiTypeA
  | lvds
  | rgb
  | displayPort
  | displayPortMst
  | edp
  | wireless
  | virtual
  deriving DecidableEq

namespace SignalType

/-- `dc_is_hdmi_signal` -/
def isHdmi (signal : SignalType) : Bool := signal = hdmiTypeA

/-- `dc_is_dp_signal` -/
def isDp (signal : SignalType) : Bool :=
  signal = displayPort || signal = edp || signal = displayPortMst

end SignalType

/-- `enum dc_color_depth`, as far as `get_norm_pix_clk` tells them apart. -/
inductive DcColorDepth
  | depth888
  | depth101010
  | depth121212
  | depth161616
  | other
  deriving DecidableEq

/-- `enum dc_pixel_encoding` -/
inductive DcPixelEncoding
  | rgb
  | ycbcr422
  | ycbcr444
  | ycbcr420
  | undefined
  deriving DecidableEq

/-- `struct dc_crtc_timing` -/
structure DcCrtcTiming where
  hTotal : ℕ
  vTotal : ℕ
  hAddressable : ℕ
  vAddressable : ℕ
  pixClkKhz : ℕ
  displayColorDepth : DcColorDepth
  pixelEncoding : DcPixelEncoding
  /-- the other members, which are only compared -/
  rest : ℕ
  deriving DecidableEq

/-- `struct core_link`, and what is read of its encoder. -/
structure CoreLink where
  connectorSignal : SignalType
  /-- `link_enc->preferred_engine` -/
  preferredEngine : ℕ

/-- `struct core_sink` -/
structure CoreSink where
  sinkSignal : SignalType
  converterDisableAudio : Bool
  link : CoreLink

/-- `struct core_stream` -/
structure CoreStream where
  sink : ℕ
  outputColorSpace : ℕ
  timing : DcCrtcTiming
  /-- `audio_info.mode_count` -/
  audioModeCount : ℕ

/-- `struct resource_pool` -/
structure ResourcePool where
  pipeCount : ℕ
  pipeCount_le : pipeCount ≤ maxPipes
  /-- `underlay_pipe_index`, if there is a function `acquire_idle_pipe_for_layer` -/
  underlayPipeIndex : Option ℕ
  underlay_lt : ∀ u, underlayPipeIndex = some u → u < pipeCount
  /-- `stream_enc` -/
  streamEncs : List (Option ℕ)
  audios : List ℕ
  clockSources : List ℕ
  dpClockSource : ℕ
  /-- `FEATURE_DISABLE_CLOCK_SHARING` -/
  disableClockSharing : Bool

/-- What does not change while contexts are built. -/
structure Board where
  pool : ResourcePool
  /-- the engine of a stream encoder, `id` -/
  engine : ℕ → ℕ
  sink : ℕ → CoreSink
  stream : ℕ → CoreStream
  /-- the stream of a target -/
  target : ℕ → ℕ

namespace Board

variable (b : Board)

/-- `update_stream_signal` -/
def signal (s : ℕ) : SignalType :=
  let sinkSignal := (b.sink (b.stream s).sink).sinkSignal
  if sinkSignal = .dviSingleLink ∨ sinkSignal = .dviDualLink then
    if (b.stream s).timing.pixClkKhz > 165000 then .dviDualLink else .dviSingleLink
  else sinkSignal

/-- `get_norm_pix_clk` -/
def getNormPixClk (timing : DcCrtcTiming) : ℕ :=
  let pixClk := if timing.pixelEncoding = .ycbcr420 then timing.pixClkKhz / 2 else timing.pixClkKhz
  match timing.displayColorDepth with
  | .depth888 => pixClk
  | .depth101010 => pixClk * 30 % 2 ^ 32 / 24
  | .depth121212 => pixClk * 36 % 2 ^ 32 / 24
  | .depth161616 => pixClk * 48 % 2 ^ 32 / 24
  | .other => timing.pixClkKhz

/-- `phy_pix_clk`, as `calculate_phy_pix_clks` sets it. -/
def phyPixClk (s : ℕ) : ℕ :=
  if (b.signal s).isHdmi then getNormPixClk (b.stream s).timing else (b.stream s).timing.pixClkKhz

/-- `resource_are_streams_timing_synchronizable` -/
def areStreamsTimingSynchronizable (x y : ℕ) : Bool :=
  let tx := (b.stream x).timing
  let ty := (b.stream y).timing
  tx.hTotal = ty.hTotal && tx.vTotal = ty.vTotal && tx.hAddressable = ty.hAddressable &&
    tx.vAddressable = ty.vAddressable && tx.pixClkKhz = ty.pixClkKhz &&
    !(b.phyPixClk x ≠ b.phyPixClk y && !(b.signal x).isDp && !(b.signal y).isDp)

end Board

/-- The resource pool of DCE 11.0: three pipes, and one for the underlay. -/
def dce110Pool : ResourcePool where
  pipeCount := 4
  pipeCount_le := Nat.le_of_ble_eq_true rfl
  underlayPipeIndex := some 3
  underlay_lt := fun _ hu => Option.some.inj hu ▸ Nat.lt_succ_self 3
  streamEncs := [some 0, some 1, some 2]
  audios := [0, 1, 2]
  clockSources := [0, 1]
  dpClockSource := 2
  disableClockSharing := false

/-! ## Contexts -/

/-- A pointer to a pipe: of the same context, or of another one. -/
inductive PipePtr
  | here (k : ℕ)
  | other (k : ℕ)
  deriving DecidableEq

/-- `struct pipe_ctx` -/
@[ext] structure PipeCtx where
  surface : Option ℕ
  stream : Option ℕ
  streamEnc : Option ℕ
  clockSource : Option ℕ
  audio : Option ℕ
  pipeIdx : ℕ
  topPipe : Option PipePtr
  bottomPipe : Option PipePtr

/-- A pipe of a context that was filled with zeros. -/
def PipeCtx.zero : PipeCtx := ⟨none, none, none, none, none, 0, none, none⟩

/-- `struct validate_context` -/
structure ValidateContext where
  targets : List ℕ
  /-- the surfaces of the target with an index, `target_status[i].surfaces` -/
  targetStatus : ℕ → List ℕ
  pipes : ℕ → PipeCtx
  isStreamEncAcquired : ℕ → Bool
  isAudioAcquired : ℕ → Bool
  clockSourceRefCount : ℕ → ℕ
  dpClockSourceRefCount : ℕ

namespace ValidateContext

/-- A context that was filled with zeros, with targets. -/
def new (targets : List ℕ) : ValidateContext where
  targets := targets
  targetStatus := fun _ => []
  pipes := fun _ => .zero
  isStreamEncAcquired := fun _ => false
  isAudioAcquired := fun _ => false
  clockSourceRefCount := fun _ => 0
  dpClockSourceRefCount := 0

end ValidateContext

end Dc
