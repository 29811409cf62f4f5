import Mathlib.Tactic

set_option autoImplicit false

/-!
# Variable refresh rates

The FreeSync module changes the duration of a frame within the range of a panel. When the screen is
static, the duration goes up to its maximum over a number of frames, and back when it is not. When
an application renders frames more slowly than the panel can show them, every frame is shown several
times (below the range).

## Main definitions

* `Freesync.rampRateInterpolated`, `calcVTotalForStaticRamp` — one update of the ramp.
* `notifyModeChange`, `updateTimestamps`, `applyBelowTheRange` — the functions of the same names.

## Main results

* `Freesync.rampRate_bounds` — every update changes the duration, and by no more than the duration.
* `ramp_reaches` — the ramp is monotone, stays in the range of the panel, and ends.
* `btr_in_range` — inserted frames are in the range of the panel.

## Design

Values of `unsigned int` are taken modulo `2 ^ 32` where they are stored. The cache of the last
render times is only written, and is left out. A stream whose sink does not support FreeSync is left
out.
-/

namespace Freesync

/-- The conversion to `unsigned int` -/
def u32 (n : ℕ) : ℕ := n % 2 ^ 32

theorem u32_of_lt {n : ℕ} (h : n < 2 ^ 32) : u32 n = n := Nat.mod_eq_of_lt h

/-- The duration of a frame in ns, from a refresh rate in μHz -/
def frameDurationInNs (refreshInMicroHz : ℕ) : ℕ := u32 (1000000000 * 1000000 / refreshInMicroHz)

/-! ## The static screen ramp -/

/-- `struct gradual_static_ramp` -/
structure GradualStaticRamp where
  rampIsActive : Bool
  rampDirectionIsUp : Bool
  rampCurrentFrameDurationInNs : ℕ

/-- `frame_duration_ratio`. The refresh rate changes by `(1000 / 60) * 65` mHz in each frame. -/
def frameDurationRatio (duration : ℕ) : ℕ :=
  u32 (1000000 / (1000 + 1000 / 60 * 65 * duration / 1000000000))

/-- `frame_duration_delta` -/
def frameDurationDelta (duration : ℕ) : ℕ :=
  u32 (duration * u32 (2 ^ 32 + 1000 - frameDurationRatio duration) / 1000)

/-- `ramp_rate_interpolated` -/
def rampRateInterpolated (duration : ℕ) : ℕ :=
  u32 (frameDurationDelta duration * duration / 16666666)

/-- A panel: its minimal refresh rate, and the nominal one of the mode that it is in -/
structure Panel where
  minRefreshInMicroHz : ℕ
  nominalRefreshRateInMicroHz : ℕ

/-- `calc_v_total_for_static_ramp`, what it does to the ramp. The vertical total that it returns is
that of the new duration. -/
def calcVTotalForStaticRamp (p : Panel) (ramp : GradualStaticRamp) : GradualStaticRamp :=
  let rate := rampRateInterpolated ramp.rampCurrentFrameDurationInNs
  if ramp.rampDirectionIsUp then
    let duration := u32 (2 ^ 32 + ramp.rampCurrentFrameDurationInNs - rate)
    let frameDuration := frameDurationInNs p.nominalRefreshRateInMicroHz
    if duration ≤ frameDuration then
      { ramp with rampIsActive := false, rampCurrentFrameDurationInNs := frameDuration }
    else { ramp with rampCurrentFrameDurationInNs := duration }
  else
    let duration := u32 (ramp.rampCurrentFrameDurationInNs + rate)
    let frameDuration := frameDurationInNs p.minRefreshInMicroHz
    if frameDuration ≤ duration then
      { ramp with rampIsActive := false, rampCurrentFrameDurationInNs := frameDuration }
    else { ramp with rampCurrentFrameDurationInNs := duration }

/-- `set_static_ramp_variables` -/
def setStaticRampVariables (p : Panel) (enableStaticScreen : Bool) (ramp : GradualStaticRamp) :
    GradualStaticRamp :=
  let ramp :=
    if ramp.rampIsActive then ramp
    else { ramp with
      rampIsActive := true
      rampCurrentFrameDurationInNs :=
        if enableStaticScreen then frameDurationInNs p.nominalRefreshRateInMicroHz
        else frameDurationInNs p.minRefreshInMicroHz }
  { ramp with rampDirectionIsUp := !enableStaticScreen }

/-- The ramp in `mod_freesync_handle_v_update` -/
def rampUpdate (p : Panel) (ramp : GradualStaticRamp) : GradualStaticRamp :=
  if ramp.rampIsActive then calcVTotalForStaticRamp p ramp else ramp

/-- What happens to a ramp -/
inductive RampEvent
  /-- the screen becomes static, or not -/
  | setStatic (enable : Bool)
  /-- `mod_freesync_handle_v_update` -/
  | vUpdate
  /-- the same in fullscreen or with video -/
  | stop
  /-- `reset_freesync_state_variables` -/
  | reset

/-- The ramp after an event -/
def rampStep (p : Panel) (ramp : GradualStaticRamp) : RampEvent → GradualStaticRamp
  | .setStatic enable => setStaticRampVariables p enable ramp
  | .vUpdate => rampUpdate p ramp
  | .stop => { ramp with rampIsActive := false }
  | .reset => { ramp with
      rampIsActive := false
      rampCurrentFrameDurationInNs :=
        if p.nominalRefreshRateInMicroHz ≠ 0 then frameDurationInNs p.nominalRefreshRateInMicroHz
        else ramp.rampCurrentFrameDurationInNs }

/-- The refresh rates of the panel are between 20 and 240 Hz. -/
structure Panel.Usual (p : Panel) : Prop where
  min : 20000000 ≤ p.minRefreshInMicroHz
  le : p.minRefreshInMicroHz ≤ p.nominalRefreshRateInMicroHz
  nominal : p.nominalRefreshRateInMicroHz ≤ 240000000

/-- The duration is in the range of the panel. -/
def Panel.InRange (p : Panel) (duration : ℕ) : Prop :=
  frameDurationInNs p.nominalRefreshRateInMicroHz ≤ duration ∧
    duration ≤ frameDurationInNs p.minRefreshInMicroHz

/-- **Every update changes the duration**, and by no more than the duration. -/
theorem rampRate_bounds {d : ℕ} (hlo : 4166666 ≤ d) (hhi : d ≤ 50000000) :
    0 < rampRateInterpolated d ∧ rampRateInterpolated d ≤ d := by
  have hratio : 950 ≤ frameDurationRatio d ∧ frameDurationRatio d ≤ 996 := by
    rw [frameDurationRatio]
    have hk : 4 ≤ 1000 / 60 * 65 * d / 1000000000 ∧ 1000 / 60 * 65 * d / 1000000000 ≤ 52 := by
      omega
    generalize 1000 / 60 * 65 * d / 1000000000 = k at hk
    have hle : 1000000 / (1000 + k) ≤ 1000000 / (1000 + 4) :=
      Nat.div_le_div_left (by omega) (by omega)
    have hge : 1000000 / (1000 + 52) ≤ 1000000 / (1000 + k) :=
      Nat.div_le_div_left (by omega) (by omega)
    rw [u32_of_lt (by omega)]
    omega
  have hdelta : 4 * d / 1000 ≤ frameDurationDelta d ∧ frameDurationDelta d ≤ 50 * d / 1000 := by
    rw [frameDurationDelta]
    have hsub : u32 (2 ^ 32 + 1000 - frameDurationRatio d) = 1000 - frameDurationRatio d := by
      rw [u32]
      omega
    rw [hsub]
    have hle : d * (1000 - frameDurationRatio d) ≤ d * 50 := Nat.mul_le_mul_left d (by omega)
    have hge : d * 4 ≤ d * (1000 - frameDurationRatio d) := Nat.mul_le_mul_left d (by omega)
    rw [u32_of_lt (by omega)]
    omega
  have hle : frameDurationDelta d * d ≤ 2500000 * d := Nat.mul_le_mul_right d (by omega)
  have hge : 16666 * d ≤ frameDurationDelta d * d := Nat.mul_le_mul_right d (by omega)
  rw [rampRateInterpolated, u32_of_lt (by omega)]
  omega

section Ramp

variable {p : Panel} {ramp : GradualStaticRamp}

theorem Panel.Usual.bounds (hp : p.Usual) :
    4166666 ≤ frameDurationInNs p.nominalRefreshRateInMicroHz ∧
      frameDurationInNs p.nominalRefreshRateInMicroHz ≤ frameDurationInNs p.minRefreshInMicroHz ∧
      frameDurationInNs p.minRefreshInMicroHz ≤ 50000000 := by
  obtain ⟨hmin, hle, hnominal⟩ := hp
  have hlo : 1000000000 * 1000000 / 240000000 ≤
      1000000000 * 1000000 / p.nominalRefreshRateInMicroHz :=
    Nat.div_le_div_left hnominal (by omega)
  have hmid : 1000000000 * 1000000 / p.nominalRefreshRateInMicroHz ≤
      1000000000 * 1000000 / p.minRefreshInMicroHz := Nat.div_le_div_left hle (by omega)
  have hhi : 1000000000 * 1000000 / p.minRefreshInMicroHz ≤ 1000000000 * 1000000 / 20000000 :=
    Nat.div_le_div_left hmin (by omega)
  rw [frameDurationInNs, frameDurationInNs, u32_of_lt (by omega), u32_of_lt (by omega)]
  omega

/-- The end of the range that a ramp goes to -/
def target (p : Panel) (ramp : GradualStaticRamp) : ℕ :=
  if ramp.rampDirectionIsUp then frameDurationInNs p.nominalRefreshRateInMicroHz
  else frameDurationInNs p.minRefreshInMicroHz

/-- How far a ramp is from its end -/
def distance (p : Panel) (ramp : GradualStaticRamp) : ℕ :=
  if ramp.rampDirectionIsUp then
    ramp.rampCurrentFrameDurationInNs - frameDurationInNs p.nominalRefreshRateInMicroHz
  else frameDurationInNs p.minRefreshInMicroHz - ramp.rampCurrentFrameDurationInNs

/-- The new duration is not on the other side of the old one. -/
def Toward (old new : GradualStaticRamp) : Prop :=
  if old.rampDirectionIsUp then
    new.rampCurrentFrameDurationInNs ≤ old.rampCurrentFrameDurationInNs
  else old.rampCurrentFrameDurationInNs ≤ new.rampCurrentFrameDurationInNs

/-- **One update of a ramp** -/
structure Updated (p : Panel) (old new : GradualStaticRamp) : Prop where
  direction : new.rampDirectionIsUp = old.rampDirectionIsUp
  inRange : p.InRange new.rampCurrentFrameDurationInNs
  toward : Toward old new
  progress : new.rampIsActive = true → distance p new < distance p old
  ended : new.rampIsActive = false → new.rampCurrentFrameDurationInNs = target p old

theorem calcVTotalForStaticRamp_updated (hp : p.Usual)
    (h : p.InRange ramp.rampCurrentFrameDurationInNs) (hactive : ramp.rampIsActive = true) :
    Updated p ramp (calcVTotalForStaticRamp p ramp) := by
  obtain ⟨hlo, hle, hhi⟩ := hp.bounds
  obtain ⟨hmin, hmax⟩ := h
  obtain ⟨hpos, hrate⟩ := rampRate_bounds (hlo.trans hmin) (hmax.trans hhi)
  rw [calcVTotalForStaticRamp]
  cases hup : ramp.rampDirectionIsUp with
  | true =>
    have hsub : u32 (2 ^ 32 + ramp.rampCurrentFrameDurationInNs -
        rampRateInterpolated ramp.rampCurrentFrameDurationInNs) =
        ramp.rampCurrentFrameDurationInNs -
          rampRateInterpolated ramp.rampCurrentFrameDurationInNs := by
      rw [u32]
      omega
    dsimp only
    rw [if_pos rfl, hsub]
    split_ifs with hend
    · constructor <;> simp [Panel.InRange, Toward, target, hup] <;> omega
    · constructor <;> simp [Panel.InRange, Toward, distance, hup, hactive] <;> omega
  | false =>
    dsimp only
    rw [if_neg Bool.false_ne_true, u32_of_lt (by omega)]
    split_ifs with hend
    · constructor <;> simp [Panel.InRange, Toward, target, hup] <;> omega
    · constructor <;> simp [Panel.InRange, Toward, distance, hup, hactive] <;> omega

/-- An active ramp is in the range of the panel, whatever happens to it. -/
theorem rampStep_inRange (hp : p.Usual)
    (h : ramp.rampIsActive = true → p.InRange ramp.rampCurrentFrameDurationInNs)
    (event : RampEvent) (hactive : (rampStep p ramp event).rampIsActive = true) :
    p.InRange (rampStep p ramp event).rampCurrentFrameDurationInNs := by
  obtain ⟨-, hle, -⟩ := hp.bounds
  cases event with
  | setStatic enable =>
    rw [rampStep, setStaticRampVariables]
    split_ifs with hwas
    · exact h hwas
    · exact ⟨le_rfl, hle⟩
    · exact ⟨hle, le_rfl⟩
  | vUpdate =>
    rw [rampStep, rampUpdate] at hactive ⊢
    split_ifs at hactive ⊢ with hwas
    · exact (calcVTotalForStaticRamp_updated hp (h hwas) hwas).inRange
    · exact h hactive
  | stop => cases hactive
  | reset => cases hactive

theorem foldl_rampStep_inRange (hp : p.Usual) (events : List RampEvent)
    (h : ramp.rampIsActive = true → p.InRange ramp.rampCurrentFrameDurationInNs)
    (hactive : (events.foldl (rampStep p) ramp).rampIsActive = true) :
    p.InRange (events.foldl (rampStep p) ramp).rampCurrentFrameDurationInNs := by
  induction events generalizing ramp with
  | nil => exact h hactive
  | cons event events ih => exact ih (rampStep_inRange hp h event) hactive

/-- An update of a ramp that is not active changes nothing. -/
theorem rampUpdate_cases (hp : p.Usual) (h : p.InRange ramp.rampCurrentFrameDurationInNs) :
    Updated p ramp (rampUpdate p ramp) ∨
      ramp.rampIsActive = false ∧ rampUpdate p ramp = ramp := by
  rw [rampUpdate]
  split_ifs with hactive
  · exact .inl (calcVTotalForStaticRamp_updated hp h hactive)
  · exact .inr ⟨Bool.eq_false_iff.mpr hactive, rfl⟩

/-- A number of updates keeps the ramp in the range, and its direction. -/
theorem iterate_rampUpdate (hp : p.Usual) (h : p.InRange ramp.rampCurrentFrameDurationInNs)
    (n : ℕ) : p.InRange ((rampUpdate p)^[n] ramp).rampCurrentFrameDurationInNs ∧
      ((rampUpdate p)^[n] ramp).rampDirectionIsUp = ramp.rampDirectionIsUp := by
  induction n with
  | zero => exact ⟨h, rfl⟩
  | succ n ih =>
    rw [Function.iterate_succ_apply']
    rcases rampUpdate_cases hp ih.1 with hup | ⟨-, heq⟩
    · exact ⟨hup.inRange, hup.direction.trans ih.2⟩
    · rwa [heq]

/-- **A ramp ends** at the end of the range, by induction on its distance from it. -/
theorem rampUpdate_ends (hp : p.Usual) (h : p.InRange ramp.rampCurrentFrameDurationInNs)
    (hactive : ramp.rampIsActive = true) :
    ∃ n, ((rampUpdate p)^[n] ramp).rampIsActive = false ∧
      ((rampUpdate p)^[n] ramp).rampCurrentFrameDurationInNs = target p ramp := by
  induction hd : distance p ramp using Nat.strong_induction_on generalizing ramp with
  | _ d ih =>
    rcases rampUpdate_cases hp h with hup | ⟨hoff, -⟩
    · have htarget : target p (rampUpdate p ramp) = target p ramp := by
        rw [target, target, hup.direction]
      cases hnext : (rampUpdate p ramp).rampIsActive with
      | false => exact ⟨1, hnext, hup.ended hnext⟩
      | true =>
        obtain ⟨n, hn⟩ := ih _ (hd ▸ hup.progress hnext) hup.inRange hnext rfl
        refine ⟨n + 1, ?_⟩
        rwa [Function.iterate_succ_apply, ← htarget]
    · rw [hactive] at hoff
      cases hoff

end Ramp

/-- **The static screen ramp.** For a panel with refresh rates between 20 and 240 Hz, let the screen
become static or not, after any other events. Then the updates change the duration of a frame in one
direction only, it is always in the range of the panel, and after some updates it has reached the
end of the range and the ramp is not active any more. -/
theorem ramp_reaches (p : Panel) (hp : p.Usual) (up : Bool) (duration : ℕ)
    (events : List RampEvent) (enable : Bool) :
    let start := events.foldl (rampStep p) ⟨false, up, duration⟩
    let ramp := fun n => (rampUpdate p)^[n] (setStaticRampVariables p enable start)
    (∀ n, if enable then
        (ramp n).rampCurrentFrameDurationInNs ≤ (ramp (n + 1)).rampCurrentFrameDurationInNs
      else (ramp (n + 1)).rampCurrentFrameDurationInNs ≤ (ramp n).rampCurrentFrameDurationInNs) ∧
    (∀ n, p.InRange (ramp n).rampCurrentFrameDurationInNs) ∧
    ∃ n, (ramp n).rampIsActive = false ∧ (ramp n).rampCurrentFrameDurationInNs =
      if enable then frameDurationInNs p.minRefreshInMicroHz
      else frameDurationInNs p.nominalRefreshRateInMicroHz := by
  intro start ramp
  have hactive : (ramp 0).rampIsActive = true := by
    change (setStaticRampVariables p enable start).rampIsActive = true
    rw [setStaticRampVariables]
    split_ifs <;> first | assumption | rfl
  have hrange : p.InRange (ramp 0).rampCurrentFrameDurationInNs := by
    refine rampStep_inRange hp (foldl_rampStep_inRange hp events ?_) (.setStatic enable) hactive
    exact fun h => by cases h
  have hinv := fun n => iterate_rampUpdate hp hrange n
  refine ⟨fun n => ?_, fun n => (hinv n).1, ?_⟩
  · have hsucc : ramp (n + 1) = rampUpdate p (ramp n) := Function.iterate_succ_apply' ..
    have hup : (ramp n).rampDirectionIsUp = !enable := (hinv n).2
    rw [hsucc]
    rcases rampUpdate_cases hp (hinv n).1 with hupdated | ⟨-, heq⟩
    · have htoward := hupdated.toward
      rw [Toward, show ((rampUpdate p)^[n] (ramp 0)) = ramp n from rfl, hup] at htoward
      cases enable <;> exact htoward
    · rw [show rampUpdate p (ramp n) = ramp n from heq]
      split_ifs <;> exact le_rfl
  · obtain ⟨n, hoff, hend⟩ := rampUpdate_ends hp hrange hactive
    refine ⟨n, hoff, hend.trans ?_⟩
    rw [target, show (ramp 0).rampDirectionIsUp = !enable from rfl]
    cases enable <;> rfl

/-- A panel from 40 to 144 Hz -/
theorem ramp_reaches_gaming :
    (Panel.Usual ⟨40000000, 144000000⟩) ∧
      ∃ n, ((rampUpdate ⟨40000000, 144000000⟩)^[n] (setStaticRampVariables ⟨40000000, 144000000⟩
        true ⟨false, true, 0⟩)).rampIsActive = false := by
  have hp : Panel.Usual ⟨40000000, 144000000⟩ := ⟨by decide, by decide, by decide⟩
  obtain ⟨-, -, n, hn, -⟩ := ramp_reaches ⟨40000000, 144000000⟩ hp true 0 [] true
  exact ⟨hp, n, hn⟩

/-! ## Below the range -/

/-- `struct dc_crtc_timing`, as far as it is used -/
structure Timing where
  pixClkKhz : ℕ
  hTotal : ℕ
  vTotal : ℕ

/-- `struct below_the_range` -/
structure BelowTheRange where
  btrActive : Bool
  programBtr : Bool
  midPointInUs : ℕ
  insertedFrameDurationInUs : ℕ
  framesToInsert : ℕ
  frameCounter : ℕ

/-- `struct fixed_refresh` -/
structure FixedRefresh where
  fixedRefreshActive : Bool
  programFixedRefresh : Bool

/-- `struct freesync_entity` with its stream, its capabilities and its `struct freesync_state` -/
structure Entity where
  timing : Timing
  minRefreshInMicroHz : ℕ
  btrSupported : Bool
  enableForGaming : Bool
  enableForVideo : Bool
  fullscreen : Bool
  video : Bool
  nominalRefreshRateInMicroHz : ℕ
  updateDurationInNs : ℕ
  minRenderTimeInUs : ℕ
  maxRenderTimeInUs : ℕ
  staticRamp : GradualStaticRamp
  btr : BelowTheRange
  fixedRefresh : FixedRefresh

/-- The smallest and the largest vertical total, as `adjust_vmin_vmax` gets them -/
structure VRange where
  vmin : ℕ
  vmax : ℕ

/-- `calc_v_total_from_duration` -/
def calcVTotalFromDuration (t : Timing) (durationInNs : ℕ) : ℕ :=
  u32 (durationInNs * t.pixClkKhz / t.hTotal / 1000000)

/-- `calc_vmin_vmax` -/
def calcVminVmax (e : Entity) : VRange where
  vmin := calcVTotalFromDuration e.timing (frameDurationInNs e.nominalRefreshRateInMicroHz)
  vmax := calcVTotalFromDuration e.timing (frameDurationInNs e.minRefreshInMicroHz)

/-- `reset_freesync_state_variables` -/
def resetFreesyncStateVariables (e : Entity) : Entity :=
  { e with
    staticRamp :=
      rampStep ⟨e.minRefreshInMicroHz, e.nominalRefreshRateInMicroHz⟩ e.staticRamp .reset
    btr := { e.btr with
      btrActive := false
      programBtr := false
      insertedFrameDurationInUs := 0
      framesToInsert := 0
      frameCounter := 0 }
    fixedRefresh := ⟨false, false⟩ }

/-- `set_freesync_on_streams`, with what is programmed -/
def setFreesyncOnStreams (e : Entity) : Entity × Option VRange :=
  if e.enableForGaming && e.fullscreen && !e.fixedRefresh.fixedRefreshActive then
    (e, some (calcVminVmax e))
  else if e.enableForVideo && e.video then
    let vTotalNominal := calcVTotalFromDuration e.timing e.updateDurationInNs
    (e, if e.timing.vTotal ≤ vTotalNominal then some ⟨vTotalNominal, vTotalNominal⟩ else none)
  else (resetFreesyncStateVariables e, some ⟨e.timing.vTotal, e.timing.vTotal⟩)

/-- `nominal_refresh_rate_in_micro_hz` of a mode, in whole Hz -/
def nominalRefreshRate (t : Timing) : ℕ :=
  u32 (1000000 * (u32 (t.pixClkKhz * 1000) / t.vTotal / t.hTotal))

/-- `mod_freesync_notify_mode_change` -/
def notifyModeChange (t : Timing) (e : Entity) : Entity × Option VRange :=
  let minFrameDurationInNs := frameDurationInNs (nominalRefreshRate t)
  let maxFrameDurationInNs := frameDurationInNs e.minRefreshInMicroHz
  setFreesyncOnStreams { e with
    timing := t
    nominalRefreshRateInMicroHz := nominalRefreshRate t
    btrSupported := u32 (2 * minFrameDurationInNs) ≤ maxFrameDurationInNs
    maxRenderTimeInUs := maxFrameDurationInNs / 1000
    minRenderTimeInUs := minFrameDurationInNs / 1000
    btr := { e.btr with
      midPointInUs := u32 (maxFrameDurationInNs + minFrameDurationInNs) / 2000 } }

/-- `BTR_EXIT_MARGIN` -/
def btrExitMargin : ℕ := 2000

/-- `update_timestamps` -/
def updateTimestamps (lastRenderTimeInUs : ℕ) (e : Entity) : Entity :=
  let e :=
    if u32 (lastRenderTimeInUs + btrExitMargin) < e.maxRenderTimeInUs then
      if e.btr.btrActive then
        { e with btr := { e.btr with programBtr := true, btrActive := false, frameCounter := 0 } }
      else if e.fixedRefresh.fixedRefreshActive then { e with fixedRefresh := ⟨false, true⟩ }
      else e
    else if e.maxRenderTimeInUs < lastRenderTimeInUs then
      if !e.btr.btrActive && e.btrSupported then
        { e with btr := { e.btr with programBtr := true, btrActive := true } }
      else if !e.fixedRefresh.fixedRefreshActive && !e.btrSupported then
        { e with fixedRefresh := ⟨true, true⟩ }
      else e
    else e
  if e.btr.btrActive then { e with btr := { e.btr with programBtr := true } } else e

/-- How far a frame time is from the middle, as an unsigned number -/
def deltaFromMidPoint (midPointInUs lastRenderTimeInUs frames : ℕ) : ℕ :=
  if frames > 0 then
    let frameTimeInUs := lastRenderTimeInUs / frames
    if midPointInUs > frameTimeInUs then midPointInUs - frameTimeInUs
    else frameTimeInUs - midPointInUs
  else 0xFFFFFFFF

/-- `frames_to_insert` -/
def framesToInsert (midPointInUs lastRenderTimeInUs : ℕ) : ℕ :=
  let ceil := u32 (2 ^ 32 + lastRenderTimeInUs + midPointInUs - 1) / midPointInUs
  let floor := lastRenderTimeInUs / midPointInUs
  if deltaFromMidPoint midPointInUs lastRenderTimeInUs ceil <
      deltaFromMidPoint midPointInUs lastRenderTimeInUs floor then ceil
  else floor

/-- `inserted_frame_duration_in_us` -/
def insertedFrameDurationInUs (midPointInUs minRenderTimeInUs lastRenderTimeInUs : ℕ) : ℕ :=
  let frames := framesToInsert midPointInUs lastRenderTimeInUs
  let duration := if frames > 0 then lastRenderTimeInUs / frames else 0
  if duration < minRenderTimeInUs then minRenderTimeInUs else duration

/-- `apply_below_the_range` -/
def applyBelowTheRange (lastRenderTimeInUs : ℕ) (e : Entity) : Entity × Option VRange :=
  if !e.btr.programBtr then (e, none)
  else
    let e := { e with btr := { e.btr with programBtr := false } }
    let minFrameDurationInNs := frameDurationInNs e.nominalRefreshRateInMicroHz
    if !e.btr.btrActive then setFreesyncOnStreams e
    else
      let frames := framesToInsert e.btr.midPointInUs lastRenderTimeInUs
      let inserted :=
        insertedFrameDurationInUs e.btr.midPointInUs e.minRenderTimeInUs lastRenderTimeInUs
      let vmin := (calcVminVmax e).vmin
      let vmax :=
        if minFrameDurationInNs / 1000 ≠ 0 then
          u32 (inserted * vmin) / (minFrameDurationInNs / 1000)
        else vmin
      ({ e with btr := { e.btr with
        insertedFrameDurationInUs := inserted, framesToInsert := frames, frameCounter := frames } },
        some ⟨vmin, vmax⟩)

/-- `apply_fixed_refresh` -/
def applyFixedRefresh (e : Entity) : Entity × Option VRange :=
  if !e.fixedRefresh.programFixedRefresh then (e, none)
  else
    let e := { e with fixedRefresh := { e.fixedRefresh with programFixedRefresh := false } }
    if !e.fixedRefresh.fixedRefreshActive then setFreesyncOnStreams e
    else (e, some ⟨(calcVminVmax e).vmin, (calcVminVmax e).vmin⟩)

/-- `mod_freesync_pre_update_plane_addresses`, for a frame that was rendered in this time -/
def preUpdatePlaneAddresses (e : Entity) (lastRenderTimeInUs : ℕ) : Entity × Option VRange :=
  let e := updateTimestamps lastRenderTimeInUs e
  if e.fullscreen && e.enableForGaming then
    if e.btrSupported then applyBelowTheRange lastRenderTimeInUs e else applyFixedRefresh e
  else (e, none)

/-- A mode with support for frames below the range: the minimal refresh rate is at least 20 Hz, the
longest frame is at least as long as two of the shortest ones, and vertical totals are at most
40000. Either this is said of the smallest total that is programmed, or of the mode itself; then
its refresh rate must be a number that was computed without an overflow. The driver divides by the
refresh rate of the mode, which is not zero. -/
structure BtrMode (t : Timing) (minRefreshInMicroHz : ℕ) : Prop where
  min : 20000000 ≤ minRefreshInMicroHz
  nominal_pos : 0 < nominalRefreshRate t
  twice : 2 * frameDurationInNs (nominalRefreshRate t) ≤ frameDurationInNs minRefreshInMicroHz
  vTotal : calcVTotalFromDuration t (frameDurationInNs (nominalRefreshRate t)) ≤ 40000 ∨
    t.vTotal ≤ 40000 ∧
      nominalRefreshRate t = 1000000 * (t.pixClkKhz * 1000 / t.vTotal / t.hTotal)

/-- **The number of inserted frames is chosen well**: the shorter of the two candidates is not
longer than the middle of the range, and the longer one is only taken if it is as close to it, so
that it is at most four thirds of it. -/
theorem framesToInsert_le {mid time : ℕ} (hmid : mid < 2 ^ 31) (htime : time < 2 ^ 31)
    (hpos : 0 < framesToInsert mid time) :
    3 * (time / framesToInsert mid time) ≤ 4 * mid + 1 := by
  rcases Nat.eq_zero_or_pos mid with rfl | hmid0
  · simp [framesToInsert] at hpos
  have hceil : u32 (2 ^ 32 + time + mid - 1) = time + mid - 1 := by
    rw [u32]
    omega
  rw [framesToInsert, hceil] at hpos ⊢
  generalize hc : (time + mid - 1) / mid = ceil at hpos ⊢
  generalize hf : time / mid = floor at hpos ⊢
  have hceil_le : time / ceil ≤ mid := by
    have hle : time ≤ mid * ceil := by
      have := Nat.div_add_mod (time + mid - 1) mid
      have := Nat.mod_lt (time + mid - 1) hmid0
      rw [hc] at *
      omega
    exact Nat.div_le_of_le_mul (by rwa [Nat.mul_comm])
  split_ifs at hpos ⊢ with hchoice
  · omega
  · have hfloor : mid ≤ time / floor := by
      rw [Nat.le_div_iff_mul_le hpos, ← hf]
      exact Nat.mul_div_le time mid
    have hge : mid ≤ time := by
      by_contra hlt
      rw [Nat.div_eq_of_lt (not_le.mp hlt)] at hf
      omega
    have hceil_floor : 0 < ceil ∧ ceil ≤ 2 * floor := by
      have hlow : mid / mid ≤ ceil := hc ▸ Nat.div_le_div_right (by omega)
      have hhigh : ceil ≤ (time + mid) / mid := hc ▸ Nat.div_le_div_right (by omega)
      rw [Nat.div_self hmid0] at hlow
      rw [Nat.add_div_right time hmid0, hf] at hhigh
      omega
    have hhalf : time / floor / 2 ≤ time / ceil := by
      rw [Nat.div_div_eq_div_mul]
      exact Nat.div_le_div_left (by omega) hceil_floor.1
    rw [deltaFromMidPoint, deltaFromMidPoint, if_pos hceil_floor.1, if_pos hpos] at hchoice
    dsimp only at hchoice
    split_ifs at hchoice <;> omega

theorem BtrMode.maxDuration_le {t : Timing} {minRefresh : ℕ} (h : BtrMode t minRefresh) :
    frameDurationInNs minRefresh ≤ 50000000 := by
  have hle : 1000000000 * 1000000 / minRefresh ≤ 1000000000 * 1000000 / 20000000 :=
    Nat.div_le_div_left h.min (by decide)
  rw [frameDurationInNs, u32_of_lt (by omega)]
  omega

/-- The smallest vertical total of such a mode. The refresh rate is at least 40 Hz, so that taking
it in whole Hz makes the total larger by a fortieth at most. -/
theorem BtrMode.vmin_le {t : Timing} {minRefresh : ℕ} (h : BtrMode t minRefresh) :
    calcVTotalFromDuration t (frameDurationInNs (nominalRefreshRate t)) ≤ 41000 := by
  rcases h.vTotal with hvmin | ⟨hv, hexact⟩
  · omega
  have htwice := h.twice
  have hmax := h.maxDuration_le
  rw [hexact] at htwice ⊢
  generalize hn : t.pixClkKhz * 1000 / t.vTotal / t.hTotal = n at htwice ⊢
  rcases Nat.eq_zero_or_pos n with rfl | hpos
  · simp [calcVTotalFromDuration, frameDurationInNs, u32]
  have hduration : frameDurationInNs (1000000 * n) = 1000000000 / n := by
    have hle : 1000000000 / n ≤ 1000000000 := Nat.div_le_self ..
    rw [frameDurationInNs, Nat.mul_comm 1000000000, Nat.mul_div_mul_left _ _ (by decide),
      u32_of_lt (by omega)]
  rw [hduration] at htwice ⊢
  have hn40 : 40 ≤ n := by
    by_contra hlt
    have : 1000000000 / 39 ≤ 1000000000 / n := Nat.div_le_div_left (by omega) hpos
    omega
  have harea : 0 < t.vTotal * t.hTotal := by
    rw [Nat.div_div_eq_div_mul] at hn
    by_contra hzero
    rw [Nat.eq_zero_of_not_pos hzero, Nat.div_zero] at hn
    omega
  -- the pixel clock is less than that of one Hz more
  have hclock : t.pixClkKhz * 1000 ≤ t.vTotal * t.hTotal * (n + 1) := by
    rw [Nat.div_div_eq_div_mul] at hn
    exact hn ▸ (Nat.lt_mul_div_succ (t.pixClkKhz * 1000) harea).le
  have hprod : 1000000000 / n * t.pixClkKhz ≤ 41000000000 * t.hTotal := by
    apply Nat.le_of_mul_le_mul_left _ (show 0 < 40000 * n by omega)
    calc 40000 * n * (1000000000 / n * t.pixClkKhz)
        = 1000000000 / n * n * (40 * (t.pixClkKhz * 1000)) := by ring
      _ ≤ 1000000000 * (40 * (t.vTotal * t.hTotal * (n + 1))) :=
          Nat.mul_le_mul (Nat.div_mul_le_self ..) (Nat.mul_le_mul_left 40 hclock)
      _ = 1000000000 * (t.vTotal * t.hTotal * (40 * n + 40)) := by ring
      _ ≤ 1000000000 * (40000 * t.hTotal * (41 * n)) := by
          refine Nat.mul_le_mul_left _ (Nat.mul_le_mul (Nat.mul_le_mul_right _ hv) (by omega))
      _ = 40000 * n * (41000000000 * t.hTotal) := by ring
  have hdiv : 1000000000 / n * t.pixClkKhz / t.hTotal ≤ 41000000000 :=
    Nat.div_le_of_le_mul (by rw [Nat.mul_comm t.hTotal]; exact hprod)
  rw [calcVTotalFromDuration, u32_of_lt (by omega)]
  omega

/-- What a mode change has cached -/
structure Cached (t : Timing) (minRefresh : ℕ) (e : Entity) : Prop where
  timing : e.timing = t
  minRefreshInMicroHz : e.minRefreshInMicroHz = minRefresh
  btrSupported : e.btrSupported = true
  nominal : e.nominalRefreshRateInMicroHz = nominalRefreshRate t
  maxRenderTime : e.maxRenderTimeInUs = frameDurationInNs minRefresh / 1000
  minRenderTime : e.minRenderTimeInUs = frameDurationInNs (nominalRefreshRate t) / 1000
  midPoint : e.btr.midPointInUs =
    (frameDurationInNs minRefresh + frameDurationInNs (nominalRefreshRate t)) / 2000

section Frames

variable {t : Timing} {minRefresh : ℕ} {e : Entity}

theorem setFreesyncOnStreams_cached (h : Cached t minRefresh e) :
    Cached t minRefresh (setFreesyncOnStreams e).1 := by
  obtain ⟨h1, h2, h3, h4, h5, h6, h7⟩ := h
  rw [setFreesyncOnStreams]
  split_ifs <;> exact ⟨h1, h2, h3, h4, h5, h6, h7⟩

theorem updateTimestamps_cached (h : Cached t minRefresh e) (time : ℕ) :
    Cached t minRefresh (updateTimestamps time e) := by
  obtain ⟨h1, h2, h3, h4, h5, h6, h7⟩ := h
  rw [updateTimestamps]
  dsimp only
  split_ifs <;> exact ⟨h1, h2, h3, h4, h5, h6, h7⟩

theorem applyBelowTheRange_cached (h : Cached t minRefresh e) (time : ℕ) :
    Cached t minRefresh (applyBelowTheRange time e).1 := by
  obtain ⟨h1, h2, h3, h4, h5, h6, h7⟩ := h
  rw [applyBelowTheRange]
  dsimp only
  split_ifs
  · exact ⟨h1, h2, h3, h4, h5, h6, h7⟩
  · exact setFreesyncOnStreams_cached ⟨h1, h2, h3, h4, h5, h6, h7⟩
  · exact ⟨h1, h2, h3, h4, h5, h6, h7⟩
  · exact ⟨h1, h2, h3, h4, h5, h6, h7⟩

theorem preUpdatePlaneAddresses_cached (h : Cached t minRefresh e) (time : ℕ) :
    Cached t minRefresh (preUpdatePlaneAddresses e time).1 := by
  have hu := updateTimestamps_cached h time
  rw [preUpdatePlaneAddresses]
  simp only [hu.btrSupported, if_true]
  split_ifs
  · exact applyBelowTheRange_cached hu time
  · exact hu

/-- The mode change caches what the frames use. -/
theorem notifyModeChange_cached (h : BtrMode t e.minRefreshInMicroHz) :
    Cached t e.minRefreshInMicroHz (notifyModeChange t e).1 := by
  have hmax := h.maxDuration_le
  have htwice := h.twice
  apply setFreesyncOnStreams_cached
  constructor
  · rfl
  · rfl
  · rw [u32_of_lt (by omega)]
    exact decide_eq_true htwice
  · rfl
  · rfl
  · rfl
  · dsimp only
    rw [u32_of_lt (by omega)]

/-- **Inserted frames.** What a frame with frame insertion programs is in the range of the panel. -/
theorem applyBelowTheRange_inRange (hmode : BtrMode t minRefresh) (h : Cached t minRefresh e)
    {time : ℕ} (htime : time < 1000000) (hprogram : e.btr.programBtr = true)
    (hactive : e.btr.btrActive = true) :
    let out := applyBelowTheRange time e
    e.minRenderTimeInUs ≤ out.1.btr.insertedFrameDurationInUs ∧
      out.1.btr.insertedFrameDurationInUs ≤ e.maxRenderTimeInUs + 1 ∧
      ∃ range, out.2 = some range ∧ range.vmin ≤ range.vmax := by
  have hmax := hmode.maxDuration_le
  have htwice := hmode.twice
  have hvmin := hmode.vmin_le
  have hinserted : e.minRenderTimeInUs ≤
        insertedFrameDurationInUs e.btr.midPointInUs e.minRenderTimeInUs time ∧
      insertedFrameDurationInUs e.btr.midPointInUs e.minRenderTimeInUs time ≤
        e.maxRenderTimeInUs + 1 := by
    rw [insertedFrameDurationInUs, h.minRenderTime, h.maxRenderTime, h.midPoint]
    generalize hmid : (frameDurationInNs minRefresh + frameDurationInNs (nominalRefreshRate t)) /
      2000 = mid
    split_ifs with hpos
    · omega
    · have := framesToInsert_le (by omega) (by omega) hpos
      omega
    · omega
    · omega
  simp only [applyBelowTheRange, hprogram, hactive, Bool.not_true, Bool.false_eq_true, if_false]
  refine ⟨hinserted.1, hinserted.2, _, rfl, ?_⟩
  generalize insertedFrameDurationInUs e.btr.midPointInUs e.minRenderTimeInUs time = inserted
    at hinserted ⊢
  rw [h.minRenderTime, h.maxRenderTime] at hinserted
  dsimp only [calcVminVmax]
  rw [h.timing, h.nominal]
  generalize calcVTotalFromDuration t (frameDurationInNs (nominalRefreshRate t)) = vmin at hvmin ⊢
  split_ifs with hnonzero
  · have hprod : inserted * vmin ≤ 50001 * 41000 := Nat.mul_le_mul (by omega) hvmin
    rw [u32_of_lt (by omega), Nat.le_div_iff_mul_le (Nat.pos_of_ne_zero hnonzero), Nat.mul_comm]
    exact Nat.mul_le_mul_right vmin hinserted.1
  · exact le_rfl

/-- While frames are inserted, every frame is programmed. -/
theorem updateTimestamps_programs (time : ℕ) (h : (updateTimestamps time e).btr.btrActive = true) :
    (updateTimestamps time e).btr.programBtr = true := by
  rw [updateTimestamps] at h ⊢
  dsimp only at h ⊢
  split_ifs at h ⊢ <;> first | rfl | assumption | exact absurd h ‹_›

/-- Frames are not inserted after `apply_below_the_range` if they were not before. -/
theorem applyBelowTheRange_active (time : ℕ)
    (h : (applyBelowTheRange time e).1.btr.btrActive = true) : e.btr.btrActive = true := by
  rw [applyBelowTheRange] at h
  dsimp only at h
  split_ifs at h with h1 h2
  · exact h
  · rw [setFreesyncOnStreams] at h
    split_ifs at h
    · exact h
    · exact h
    · cases h
  all_goals exact h

theorem updateTimestamps_fullscreen (time : ℕ) :
    (updateTimestamps time e).fullscreen = e.fullscreen ∧
      (updateTimestamps time e).enableForGaming = e.enableForGaming := by
  rw [updateTimestamps]
  dsimp only
  split_ifs <;> exact ⟨rfl, rfl⟩

theorem foldl_cached (h : Cached t minRefresh e) (times : List ℕ) :
    Cached t minRefresh (times.foldl (fun e time => (preUpdatePlaneAddresses e time).1) e) := by
  induction times generalizing e with
  | nil => exact h
  | cons time times ih => exact ih (preUpdatePlaneAddresses_cached h time)

end Frames

/-- **Below the range.** After a change to such a mode, let frames be rendered, each in less than a
second. Whenever frames are inserted after one of them, the chosen duration of an inserted frame is
between the shortest and the longest time for a frame, up to a microsecond, and the largest vertical
total that is programmed is not below the smallest one. -/
theorem btr_in_range (e : Entity) (t : Timing) (hmode : BtrMode t e.minRefreshInMicroHz)
    (times : List ℕ) (time : ℕ) (htime : time < 1000000) :
    let before := times.foldl (fun e time => (preUpdatePlaneAddresses e time).1)
      (notifyModeChange t e).1
    let out := preUpdatePlaneAddresses before time
    before.fullscreen = true → before.enableForGaming = true → out.1.btr.btrActive = true →
      out.1.minRenderTimeInUs ≤ out.1.btr.insertedFrameDurationInUs ∧
        out.1.btr.insertedFrameDurationInUs ≤ out.1.maxRenderTimeInUs + 1 ∧
        ∃ range, out.2 = some range ∧ range.vmin ≤ range.vmax := by
  intro before out hfullscreen hgaming hactive
  have hcached := updateTimestamps_cached (foldl_cached (notifyModeChange_cached hmode) times) time
  have hout : out = applyBelowTheRange time (updateTimestamps time before) := by
    obtain ⟨hsame, hsame'⟩ := @updateTimestamps_fullscreen before time
    have hsupported : (updateTimestamps time before).btrSupported = true := hcached.btrSupported
    change preUpdatePlaneAddresses before time = _
    simp only [preUpdatePlaneAddresses, hsame, hsame', hfullscreen, hgaming, hsupported,
      Bool.and_self, if_true]
  rw [hout] at hactive
  have hactive' := applyBelowTheRange_active time hactive
  have hafter := applyBelowTheRange_cached hcached time
  rw [hout, hafter.minRenderTime, ← hcached.minRenderTime, hafter.maxRenderTime,
    ← hcached.maxRenderTime]
  exact applyBelowTheRange_inRange hmode hcached htime (updateTimestamps_programs time hactive')
    hactive'

/-- A mode with 60 Hz on a panel from 20 Hz on, after a frame of 60 ms -/
theorem btr_in_range_sixty :
    let e : Entity := ⟨⟨0, 0, 0⟩, 20000000, false, true, false, true, false, 0, 0, 0, 0,
      ⟨false, false, 0⟩, ⟨false, false, 0, 0, 0, 0⟩, ⟨false, false⟩⟩
    let t : Timing := ⟨148500, 2200, 1125⟩
    let out := preUpdatePlaneAddresses (notifyModeChange t e).1 60000
    BtrMode t 20000000 ∧ out.1.btr.btrActive = true ∧
      ∃ range, out.2 = some range ∧ range.vmin ≤ range.vmax := by
  intro e t out
  have hmode : BtrMode t 20000000 := ⟨by decide, by decide, by decide, .inl (by decide)⟩
  have hactive : out.1.btr.btrActive = true := by decide
  exact ⟨hmode, hactive,
    (btr_in_range e t hmode [] 60000 (by decide) (by decide) (by decide) hactive).2.2⟩

end Freesync
