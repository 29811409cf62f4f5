import Mathlib.Tactic

set_option autoImplicit false

/-!
# The settings of a DisplayPort link

A DisplayPort link runs with a number of lanes and a rate. A display reports a capability, and link
training finds the capability that works. `dp_validate_mode_timing` accepts a timing by the
bandwidth of the verified capability. When the timing is set, `decide_link_settings` takes the
reported capability if its rate is not above the verified one, or else a row of a table.

## Main definitions

* `Dc.LinkSettings` — `struct dc_link_settings`, with the widths of the fields.

## Main results

* `Dc.DpLink.decideLinkSettings_within_iff` — when the decision for an accepted timing is within the
  verified capability and enough for the timing.
* `decideLinkSettings_too_many_lanes` — the decision may have lanes that failed to train.
* `dpHbrVerifyLinkCap_bandwidth` — the fail-safe mode fits every capability that link training
  finds.

## Design

A reported capability comes from two registers of the display: five bits for the number of lanes and
a byte for the rate. With these widths the bandwidth of a link is less than `2 ^ 32`. The required
bandwidth of a timing may be more, and is computed modulo `2 ^ 32`.
-/

namespace Dc

/-- `enum dc_link_spread` -/
inductive LinkSpread
  | disabled
  | downspread30kHz
  | downspread33kHz
  deriving DecidableEq, Repr

/-- `struct dc_link_settings`. The numbers are those of `enum dc_lane_count` and
`enum dc_link_rate`, or what a display reports instead. -/
@[ext]
structure LinkSettings where
  laneCount : ℕ
  linkRate : ℕ
  linkSpread : LinkSpread
  /-- `MAX_LANE_COUNT` has five bits -/
  laneCount_lt : laneCount < 32
  /-- the rate is a byte -/
  linkRate_lt : linkRate < 256
  deriving DecidableEq, Repr

/-- `enum dc_lane_count` -/
inductive LaneCount
  | unknown
  | one
  | two
  | four
  | eight

/-- The number that a lane count is. -/
def LaneCount.value : LaneCount → ℕ
  | .unknown => 0
  | .one => 1
  | .two => 2
  | .four => 4
  | .eight => 8

theorem LaneCount.value_lt (c : LaneCount) : c.value < 32 := by cases c <;> decide

/-- `enum dc_link_rate` -/
inductive LinkRate
  | unknown
  | low
  | high
  | rbr2
  | high2
  | high3

/-- The number that a rate is: a multiple of 27 MHz. -/
def LinkRate.value : LinkRate → ℕ
  | .unknown => 0
  | .low => 0x06
  | .high => 0x0A
  | .rbr2 => 0x0C
  | .high2 => 0x14
  | .high3 => 0x1E

theorem LinkRate.value_lt (r : LinkRate) : r.value < 256 := by cases r <;> decide

/-- A setting without spread. -/
def LinkSettings.row (c : LaneCount) (r : LinkRate) : LinkSettings :=
  ⟨c.value, r.value, .disabled, c.value_lt, r.value_lt⟩

/-- `link_training_fallback_table` -/
def linkTrainingFallbackTable : List LinkSettings :=
  [.row .four .high3, .row .four .high2, .row .four .high, .row .four .low,
    .row .two .high3, .row .two .high2, .row .two .high, .row .two .low,
    .row .one .high3, .row .one .high2, .row .one .high, .row .one .low]

/-- `is_link_setting_supported` -/
def isLinkSettingSupported (s m : LinkSettings) : Bool :=
  if s.laneCount > m.laneCount ∨ s.linkRate > m.linkRate then false else true

/-- `exceeded_limit_link_setting` -/
def exceededLimitLinkSetting (s limit : LinkSettings) : Bool :=
  s.laneCount * s.linkRate > limit.laneCount * limit.linkRate

/-- `bandwidth_in_kbps_from_link_settings` -/
def bandwidthInKbpsFromLinkSettings (s : LinkSettings) : ℕ :=
  s.linkRate * 27000 % 0x100000000 * s.laneCount % 0x100000000 * 8 % 0x100000000

/-- `enum dc_color_depth` -/
inductive ColorDepth
  | undefined
  | depth666
  | depth888
  | depth101010
  | depth121212
  | depth141414
  | depth161616
  deriving DecidableEq, Repr

/-- The part of `struct dc_crtc_timing` that the link needs. -/
structure CrtcTiming where
  pixClkKhz : ℕ
  hAddressable : ℕ
  vAddressable : ℕ
  displayColorDepth : ColorDepth
  /-- `flags.Y_ONLY` -/
  yOnly : Bool
  deriving DecidableEq, Repr

/-- `bits_per_channel` -/
def ColorDepth.bitsPerChannel : ColorDepth → ℕ
  | .undefined => 0
  | .depth666 => 6
  | .depth888 => 8
  | .depth101010 => 10
  | .depth121212 => 12
  | .depth141414 => 14
  | .depth161616 => 16

/-- `bandwidth_in_kbps_from_timing` -/
def bandwidthInKbpsFromTiming (t : CrtcTiming) : ℕ :=
  let kbps := t.pixClkKhz * t.displayColorDepth.bitsPerChannel % 0x100000000
  if t.yOnly then kbps else kbps * 3 % 0x100000000

/-- A timing with 1920 × 1080 pixels at 60 Hz. -/
def fullHd : CrtcTiming := ⟨148500, 1920, 1080, .depth888, false⟩

/-- The mode that is always accepted. -/
def CrtcTiming.isFailSafeMode (t : CrtcTiming) : Bool :=
  t.pixClkKhz = 25175 && t.hAddressable = 640 && t.vAddressable = 480

/-- The part of a link that is used here. -/
structure DpLink where
  reportedLinkCap : LinkSettings
  verifiedLinkCap : LinkSettings
  maxLinkSetting : LinkSettings

namespace DpLink

variable (link : DpLink) (t : CrtcTiming)

/-- `dp_hbr_verify_link_cap`. The argument `maxRate` is `get_max_link_rate`, and `trains` says for
which settings `perform_link_training_with_retries` succeeds. -/
def dpHbrVerifyLinkCap (knownLimit : LinkSettings) (maxRate : LinkRate)
    (trains : LinkSettings → Bool) : DpLink :=
  let found := linkTrainingFallbackTable.find? fun cur =>
    !(knownLimit.laneCount ≠ 0 && exceededLimitLinkSetting cur knownLimit) &&
      (isLinkSettingSupported cur (.row .four maxRate) && trains cur)
  let verified := found.getD (.row .one .low)
  { link with
    verifiedLinkCap := verified
    maxLinkSetting := verified }

/-- `dp_validate_mode_timing` -/
def dpValidateModeTiming : Bool :=
  if t.isFailSafeMode then true
  else bandwidthInKbpsFromTiming t < bandwidthInKbpsFromLinkSettings link.verifiedLinkCap

/-- The condition under which `decide_link_settings` takes the reported capability. -/
def takesReported : Bool :=
  link.reportedLinkCap.laneCount ≠ 0 &&
    link.reportedLinkCap.linkRate ≤ link.verifiedLinkCap.linkRate &&
      bandwidthInKbpsFromTiming t < bandwidthInKbpsFromLinkSettings link.reportedLinkCap

/-- The search in the table. -/
def tableSetting : Option LinkSettings :=
  linkTrainingFallbackTable.find? fun cur =>
    bandwidthInKbpsFromTiming t < bandwidthInKbpsFromLinkSettings cur &&
      isLinkSettingSupported cur link.maxLinkSetting

/-- `decide_link_settings` -/
def decideLinkSettings : LinkSettings :=
  if link.takesReported t then link.reportedLinkCap
  else (link.tableSetting t).getD link.verifiedLinkCap

end DpLink

/-! ## Bandwidths -/

/-- What a link carries, in kbps. -/
def LinkSettings.bandwidth (s : LinkSettings) : ℕ := s.laneCount * s.linkRate * 216000

/-- What a timing needs, in kbps. -/
def CrtcTiming.required (t : CrtcTiming) : ℕ :=
  t.pixClkKhz * t.displayColorDepth.bitsPerChannel * if t.yOnly then 1 else 3

theorem LinkSettings.bandwidth_lt (s : LinkSettings) : s.bandwidth < 0x100000000 := by
  have hmul : s.laneCount * s.linkRate ≤ 31 * 255 :=
    Nat.mul_le_mul (Nat.le_of_lt_succ s.laneCount_lt) (Nat.le_of_lt_succ s.linkRate_lt)
  rw [bandwidth]
  omega

theorem LinkSettings.bandwidth_mono {s m : LinkSettings} (hl : s.laneCount ≤ m.laneCount)
    (hr : s.linkRate ≤ m.linkRate) : s.bandwidth ≤ m.bandwidth :=
  Nat.mul_le_mul_right _ (Nat.mul_le_mul hl hr)

/-- The bandwidth of a link is computed without an overflow. -/
theorem bandwidthInKbpsFromLinkSettings_eq (s : LinkSettings) :
    bandwidthInKbpsFromLinkSettings s = s.bandwidth := by
  have hlt := s.bandwidth_lt
  have hprod : s.linkRate * 27000 * s.laneCount * 8 = s.bandwidth := by
    rw [LinkSettings.bandwidth]
    ring
  rw [bandwidthInKbpsFromLinkSettings, ← hprod]
  rw [← hprod] at hlt
  have hrate : s.linkRate * 27000 < 0x100000000 := by
    have := s.linkRate_lt
    omega
  rw [Nat.mod_eq_of_lt hrate, @Nat.mod_eq_of_lt (s.linkRate * 27000 * s.laneCount) _ (by omega),
    Nat.mod_eq_of_lt hlt]

/-- A requirement of less than `2 ^ 32` kbps is computed without an overflow. -/
theorem bandwidthInKbpsFromTiming_eq {t : CrtcTiming} (h : t.required < 0x100000000) :
    bandwidthInKbpsFromTiming t = t.required := by
  cases hy : t.yOnly with
  | true =>
    simp only [CrtcTiming.required, bandwidthInKbpsFromTiming, hy, if_true, Nat.mul_one] at h ⊢
    exact Nat.mod_eq_of_lt h
  | false =>
    simp only [CrtcTiming.required, bandwidthInKbpsFromTiming, hy, Bool.false_eq_true, if_false]
      at h ⊢
    omega

theorem isLinkSettingSupported_iff (s m : LinkSettings) :
    isLinkSettingSupported s m = true ↔ s.laneCount ≤ m.laneCount ∧ s.linkRate ≤ m.linkRate := by
  rw [isLinkSettingSupported]
  split
  · simp only [Bool.false_eq_true, false_iff]
    omega
  · simp only [true_iff]
    omega

/-! ## The decision -/

namespace DpLink

variable {link : DpLink} {t : CrtcTiming}

/-- **The decision is within the verified capability**, in lanes and in rate, and is enough for the
timing. -/
def DecidesWithin (link : DpLink) (t : CrtcTiming) : Prop :=
  (link.decideLinkSettings t).laneCount ≤ link.verifiedLinkCap.laneCount ∧
    (link.decideLinkSettings t).linkRate ≤ link.verifiedLinkCap.linkRate ∧
      t.required < (link.decideLinkSettings t).bandwidth

theorem takesReported_iff (h : t.required < 0x100000000) : link.takesReported t = true ↔
    link.reportedLinkCap.laneCount ≠ 0 ∧
      link.reportedLinkCap.linkRate ≤ link.verifiedLinkCap.linkRate ∧
        t.required < link.reportedLinkCap.bandwidth := by
  simp only [takesReported, bandwidthInKbpsFromTiming_eq h, bandwidthInKbpsFromLinkSettings_eq,
    Bool.and_eq_true, decide_eq_true_eq, and_assoc]

/-- A row of the table is within the limit of the link and enough for the timing. -/
theorem tableSetting_within (h : t.required < 0x100000000) {s : LinkSettings}
    (hs : link.tableSetting t = some s) : s.laneCount ≤ link.maxLinkSetting.laneCount ∧
      s.linkRate ≤ link.maxLinkSetting.linkRate ∧ t.required < s.bandwidth := by
  have hfound := List.find?_some hs
  simp only [bandwidthInKbpsFromTiming_eq h, bandwidthInKbpsFromLinkSettings_eq,
    Bool.and_eq_true, decide_eq_true_eq, isLinkSettingSupported_iff] at hfound
  exact ⟨hfound.2.1, hfound.2.2, hfound.1⟩

/-- The decision when the reported capability is not taken. -/
theorem decidesWithin_of_not_takesReported (h : t.required < 0x100000000)
    (hmax : link.maxLinkSetting = link.verifiedLinkCap) (hrep : link.takesReported t = false) :
    link.DecidesWithin t ↔ t.required < link.verifiedLinkCap.bandwidth := by
  rw [DecidesWithin, decideLinkSettings, hrep, if_neg (by decide)]
  cases hs : link.tableSetting t with
  | none => simp
  | some s =>
    obtain ⟨hl, hr, hbw⟩ := tableSetting_within h hs
    rw [hmax] at hl hr
    exact ⟨fun _ => hbw.trans_le (LinkSettings.bandwidth_mono hl hr), fun _ => ⟨hl, hr, hbw⟩⟩

/-- When the decision is within the verified capability, for any timing. -/
theorem decidesWithin_iff (hmax : link.maxLinkSetting = link.verifiedLinkCap) :
    link.DecidesWithin t ↔ t.required < 0x100000000 ∧
      (link.takesReported t = true →
        link.reportedLinkCap.laneCount ≤ link.verifiedLinkCap.laneCount) ∧
      (link.takesReported t = true ∨ t.required < link.verifiedLinkCap.bandwidth) := by
  by_cases hreq : t.required < 0x100000000
  · cases hrep : link.takesReported t with
    | false => simp [decidesWithin_of_not_takesReported hreq hmax hrep, hreq]
    | true =>
      obtain ⟨_, hrate, hbw⟩ := (takesReported_iff hreq).mp hrep
      simp [DecidesWithin, decideLinkSettings, hrep, hrate, hbw, hreq]
  · have hlt := (link.decideLinkSettings t).bandwidth_lt
    exact ⟨fun h => absurd (h.2.2.trans hlt) hreq, fun h => absurd h.1 hreq⟩

/-- An accepted timing other than the fail-safe mode fits the verified capability. -/
theorem required_lt_of_valid (h : t.required < 0x100000000)
    (hvalid : link.dpValidateModeTiming t = true) (hmode : t.isFailSafeMode = false) :
    t.required < link.verifiedLinkCap.bandwidth := by
  rw [dpValidateModeTiming, if_neg (by simp [hmode])] at hvalid
  simpa only [bandwidthInKbpsFromTiming_eq h, bandwidthInKbpsFromLinkSettings_eq,
    decide_eq_true_eq] using hvalid

/-- **When the decision for an accepted timing is within the verified capability** and enough for
the timing: the requirement has to be less than `2 ^ 32` kbps, and the reported capability, if it is
taken, must not have more lanes than the verified one; in the fail-safe mode one of the two has to
be enough for the timing, since this is not checked when it is accepted.

**Proof sketch.** The reported capability is taken if its rate and bandwidth are right, so only its
lanes are left. A row of the table is within the limit of the link, which is the verified
capability. -/
theorem decideLinkSettings_within_iff (link : DpLink) (t : CrtcTiming)
    (hmax : link.maxLinkSetting = link.verifiedLinkCap)
    (hvalid : link.dpValidateModeTiming t = true) :
    link.DecidesWithin t ↔ t.required < 0x100000000 ∧
      (link.takesReported t = true →
        link.reportedLinkCap.laneCount ≤ link.verifiedLinkCap.laneCount) ∧
      (t.isFailSafeMode = true →
        link.takesReported t = true ∨ t.required < link.verifiedLinkCap.bandwidth) := by
  rw [decidesWithin_iff hmax]
  refine and_congr_right fun hreq => and_congr_right fun _ => ?_
  cases hmode : t.isFailSafeMode with
  | false => simp [required_lt_of_valid hreq hvalid hmode]
  | true => simp

/-- A link on which the reported capability is the verified one. -/
theorem decideLinkSettings_within_reported :
    (⟨.row .two .high2, .row .two .high2, .row .two .high2⟩ : DpLink).DecidesWithin fullHd :=
  (decideLinkSettings_within_iff _ fullHd rfl (by decide)).mpr ⟨by decide, by decide, by decide⟩

/-! ## Link training -/

/-- Link training finds a capability with a lane at the low rate at least, and makes it the limit
of the link. -/
theorem dpHbrVerifyLinkCap_bandwidth (link : DpLink) (knownLimit : LinkSettings)
    (maxRate : LinkRate) (trains : LinkSettings → Bool) :
    (link.dpHbrVerifyLinkCap knownLimit maxRate trains).maxLinkSetting =
        (link.dpHbrVerifyLinkCap knownLimit maxRate trains).verifiedLinkCap ∧
      1296000 ≤ (link.dpHbrVerifyLinkCap knownLimit maxRate trains).verifiedLinkCap.bandwidth := by
  have hrow : ∀ s ∈ linkTrainingFallbackTable, 1296000 ≤ s.bandwidth := by decide
  refine ⟨rfl, ?_⟩
  simp only [dpHbrVerifyLinkCap]
  cases hs : linkTrainingFallbackTable.find? _ with
  | none => decide
  | some s => exact hrow s (List.mem_of_find?_eq_some hs)

/-- The fail-safe mode needs less than a lane at the low rate. -/
theorem required_lt_of_isFailSafeMode (hmode : t.isFailSafeMode = true) : t.required < 1296000 := by
  simp only [CrtcTiming.isFailSafeMode, Bool.and_eq_true, decide_eq_true_eq] at hmode
  rw [CrtcTiming.required, hmode.1.1]
  cases t.displayColorDepth <;> cases t.yOnly <;> decide

/-- After link training only the lanes of the reported capability matter, unless the requirement of
the timing overflows. -/
theorem decidesWithin_dpHbrVerifyLinkCap {knownLimit : LinkSettings} {maxRate : LinkRate}
    {trains : LinkSettings → Bool} {link' : DpLink}
    (hlink : link' = link.dpHbrVerifyLinkCap knownLimit maxRate trains)
    (hvalid : link'.dpValidateModeTiming t = true) (hreq : t.required < 0x100000000)
    (hlanes : link'.reportedLinkCap.laneCount ≤ link'.verifiedLinkCap.laneCount) :
    link'.DecidesWithin t := by
  obtain ⟨hmax, hbw⟩ := link.dpHbrVerifyLinkCap_bandwidth knownLimit maxRate trains
  rw [← hlink] at hmax hbw
  refine (decidesWithin_iff hmax).mpr ⟨hreq, fun _ => hlanes, .inr ?_⟩
  cases hmode : t.isFailSafeMode with
  | false => exact required_lt_of_valid hreq hvalid hmode
  | true => exact (required_lt_of_isFailSafeMode hmode).trans_le hbw

/-- A display that reports four lanes at the rate `HIGH2`. -/
def fourLanes : DpLink := ⟨.row .four .high2, .row .unknown .unknown, .row .unknown .unknown⟩

/-- The decision is right where all lanes train. -/
theorem decidesWithin_fourLanes :
    (fourLanes.dpHbrVerifyLinkCap (.row .four .high2) .high2 fun _ => true).DecidesWithin fullHd :=
  decidesWithin_dpHbrVerifyLinkCap rfl (by decide) (by decide) (by decide)

/-- Link training of that display, where only two lanes work. -/
def twoLanesTrained : DpLink :=
  fourLanes.dpHbrVerifyLinkCap fourLanes.reportedLinkCap .high2 fun s => s.laneCount ≤ 2

/-- **The decision may have lanes that failed to train**: two lanes were verified and are enough for
the timing, and the decision is for the four lanes that the display reports. -/
theorem decideLinkSettings_too_many_lanes :
    twoLanesTrained.verifiedLinkCap = .row .two .high2 ∧
      twoLanesTrained.maxLinkSetting = twoLanesTrained.verifiedLinkCap ∧
      twoLanesTrained.dpValidateModeTiming fullHd = true ∧
      (twoLanesTrained.decideLinkSettings fullHd).laneCount = 4 ∧
      ¬twoLanesTrained.DecidesWithin fullHd := by
  refine ⟨by decide, by decide, by decide, by decide, fun h => ?_⟩
  exact absurd h.1 (by decide)

end DpLink

end Dc
