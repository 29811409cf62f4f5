import AmdgpuPro.Dc.FixedPoint

set_option autoImplicit false

/-!
# The user gamma ramp on the points of the hardware curve

A user gives a ramp of 256 entries for each color. The hardware has a curve with points of its own.
`gamma_calcs.c` places the entries of the ramp on an axis from zero to one, looks for the two
neighbours of every coordinate, and interpolates between their values. Then it clamps the points,
makes them non-decreasing in one pass over the curve, and stores the differences.

## Main definitions

* `Dc.buildEvenlyDistributedPoints`, `scaleGamma` — the axis and the values of the ramp.

## Main results

* `Dc.gammaCurve_correct` — the whole calculation, for every ramp and all coordinates.
-/

namespace Dc

open Fixed31_32

/-- `enum channel_name` -/
inductive ChannelName
  | red
  | green
  | blue
  deriving DecidableEq

/-- A value for each channel: `struct gamma_pixel` and `struct pwl_float_data`. -/
structure Pixel (α : Type) where
  r : α
  g : α
  b : α

/-- The value of a channel. -/
def Pixel.get {α : Type} (p : Pixel α) : ChannelName → α
  | .red => p.r
  | .green => p.g
  | .blue => p.b

/-- The same calculation for each channel. -/
def forChannels {α : Type} (f : ChannelName → Except Fault α) : Except Fault (Pixel α) := do
  let r ← f .red
  let g ← f .green
  let b ← f .blue
  pure ⟨r, g, b⟩

/-- `struct dividers` -/
structure Dividers where
  divider1 : Fixed31_32
  divider2 : Fixed31_32
  divider3 : Fixed31_32

/-- `RGB_256X3X16` -/
def rgb256x3x16 : ℕ := 256

/-- A pixel that is read out of range of an array. -/
def noPixel : Pixel Fixed31_32 := ⟨zero, zero, zero⟩

/-- `build_evenly_distributed_points` -/
def buildEvenlyDistributedPoints (numberofPoints : ℕ) (maxValue : Fixed31_32)
    (dividers : Dividers) : Except Fault (List (Pixel Fixed31_32)) := do
  let points ← (List.range numberofPoints).mapM fun i => do
    let value ← divInt (mulInt maxValue (BitVec.ofNat 32 i)) (BitVec.ofNat 64 (numberofPoints - 1))
    pure (⟨value, value, value⟩ : Pixel Fixed31_32)
  let last := points.getD (numberofPoints - 1) noPixel
  let p1 ← forChannels fun c => div (last.get c) dividers.divider1
  let p2 ← forChannels fun c => div (last.get c) dividers.divider2
  let p3 ← forChannels fun c => div (last.get c) dividers.divider3
  pure (points ++ [p1, p2, p3])

/-- `struct dc_gamma`: a ramp of 256 entries for each color, or a ramp of another type. -/
inductive DcGamma
  | rgb256x3x16 (entries : List (Pixel (BitVec 16)))
  | float

/-- The divisor of the entries: `max_os`, or `max_driver` if there is a larger entry. -/
def gammaScaler (entries : List (Pixel (BitVec 16))) : BitVec 16 :=
  if entries.any fun e => 0xFF00 < e.r || 0xFF00 < e.g || 0xFF00 < e.b then 0xFFFF else 0xFF00

/-- `scale_gamma` -/
def scaleGamma (ramp : DcGamma) (dividers : Dividers) :
    Except Fault (List (Pixel Fixed31_32)) :=
  match ramp with
  | .float => .error .gaveUp
  | .rgb256x3x16 entries => do
    let rgb ← entries.mapM fun e => forChannels fun c =>
      fromFraction ((e.get c).setWidth 64) ((gammaScaler entries).setWidth 64)
    let last := rgb.getD (Dc.rgb256x3x16 - 1) noPixel
    let p1 ← forChannels fun c => pure (mul (last.get c) dividers.divider1)
    let p2 ← forChannels fun c => pure (mul (last.get c) dividers.divider2)
    let p3 ← forChannels fun c => pure (mul (last.get c) dividers.divider3)
    pure (rgb ++ [p1, p2, p3])

/-- `enum hw_point_position` -/
inductive HwPointPosition
  | middle
  | left
  | right
  deriving DecidableEq

/-- `struct gamma_point` -/
structure GammaPoint where
  leftIndex : ℕ
  rightIndex : ℕ
  pos : HwPointPosition
  coeff : Fixed31_32

/-- The loop of `find_software_points` from index `i` on, for `rounds` more indices: the indices of
the neighbours and the position. -/
def findFrom (axis : List (Pixel Fixed31_32)) (hwPoint : Fixed31_32) (channel : ChannelName)
    (indexToStart : ℕ) : ℕ → ℕ → Except Fault (ℕ × ℕ × HwPointPosition)
  | 0, _ => .error .gaveUp
  | rounds + 1, i =>
    let maxNumber := rgb256x3x16 + 3
    let next := if i < maxNumber - 1 then i + 1 else maxNumber - 1
    let left := (axis.getD i noPixel).get channel
    let right := (axis.getD next noPixel).get channel
    if le left hwPoint && le hwPoint right then .ok (i, next, .middle)
    else if i = indexToStart ∧ le hwPoint left then .ok (i, i, .left)
    else if i = maxNumber - 1 ∧ le right hwPoint then .ok (i, i, .right)
    else findFrom axis hwPoint channel indexToStart rounds (i + 1)

/-- `find_software_points` -/
def findSoftwarePoints (axis : List (Pixel Fixed31_32)) (hwPoint : Fixed31_32)
    (channel : ChannelName) (indexToStart : ℕ) : Except Fault (ℕ × ℕ × HwPointPosition) :=
  findFrom axis hwPoint channel indexToStart (rgb256x3x16 + 3 - indexToStart) indexToStart

/-- `build_custom_gamma_mapping_coefficients_worker`, for one coordinate. -/
def buildCoefficient (axis : List (Pixel Fixed31_32)) (channel : ChannelName)
    (coordX : Fixed31_32) : Except Fault GammaPoint := do
  let found ← findSoftwarePoints axis coordX channel 0
  if rgb256x3x16 + 3 ≤ found.1 then throw .gaveUp
  if rgb256x3x16 + 3 ≤ found.2.1 then throw .gaveUp
  let leftPos := (axis.getD found.1 noPixel).get channel
  let rightPos := (axis.getD found.2.1 noPixel).get channel
  let coeff ← match found.2.2 with
    | .middle => div (sub coordX leftPos) (sub rightPos leftPos)
    | .left => pure zero
    | .right => pure (fromInt 2)
  pure ⟨found.1, found.2.1, found.2.2, coeff⟩

/-- `build_oem_custom_gamma_mapping_coefficients` -/
def buildMappingCoefficients (axis coordinates : List (Pixel Fixed31_32)) :
    Except Fault (List (Pixel GammaPoint)) :=
  coordinates.mapM fun coord => forChannels fun c => buildCoefficient axis c (coord.get c)

/-- `calculate_mapped_value` -/
def calculateMappedValue (rgb : List (Pixel Fixed31_32)) (coeff : Pixel GammaPoint)
    (channel : ChannelName) (maxIndex : ℕ) : Fixed31_32 :=
  let point := coeff.get channel
  if maxIndex < point.leftIndex then zero
  else if maxIndex < point.rightIndex then zero
  else
    let left := (rgb.getD point.leftIndex noPixel).get channel
    let right := (rgb.getD point.rightIndex noPixel).get channel
    match point.pos with
    | .middle => add (mul point.coeff (sub right left)) left
    | .left => zero
    | .right => one

/-- `calculate_interpolated_hardware_curve` -/
def calculateInterpolatedHardwareCurve (axis rgbUser coordinates : List (Pixel Fixed31_32)) :
    Except Fault (List (Pixel Fixed31_32)) := do
  let coeff ← buildMappingCoefficients axis coordinates
  let maxEntries := 3 - 1 + rgb256x3x16
  coeff.mapM fun point => forChannels fun c =>
    pure (calculateMappedValue rgbUser point c maxEntries)

/-- `struct pwl_result_data`: the point and the difference to the next one. -/
structure PwlResultData where
  rgb : Pixel Fixed31_32
  delta : Pixel Fixed31_32

/-- The point is clamped in every channel. -/
def clampPoint (p : PwlResultData) : PwlResultData :=
  { p with rgb := ⟨clamp p.rgb.r zero one, clamp p.rgb.g zero one, clamp p.rgb.b zero one⟩ }

/-- A value that is less than the one before it becomes that value. -/
def raise (before value : Fixed31_32) : Fixed31_32 := if lt value before then before else value

/-- The second loop of `build_new_custom_resulted_curve`, from a point on. -/
def repairCurve (p : PwlResultData) : List PwlResultData → List PwlResultData
  | [] => [p]
  | q :: l =>
    let raised : Pixel Fixed31_32 :=
      ⟨raise p.rgb.r q.rgb.r, raise p.rgb.g q.rgb.g, raise p.rgb.b q.rgb.b⟩
    { p with delta := ⟨sub raised.r p.rgb.r, sub raised.g p.rgb.g, sub raised.b p.rgb.b⟩ } ::
      repairCurve { q with rgb := raised } l

/-- `build_new_custom_resulted_curve` -/
def buildNewCustomResultedCurve (rgb : List PwlResultData) : List PwlResultData :=
  match rgb.map clampPoint with
  | [] => []
  | p :: l => repairCurve p l

/-- The dividers that `calculate_regamma_params` uses. -/
def regammaDividers : Except Fault Dividers := do
  let divider1 ← fromFraction 3 2
  let divider3 ← fromFraction 5 2
  pure ⟨divider1, fromInt 2, divider3⟩

/-! ## Calculations for each channel and each element -/

theorem forChannels_ok {α : Type} {f : ChannelName → Except Fault α} {P : ChannelName → α → Prop}
    (h : ∀ c, ∃ x, f c = .ok x ∧ P c x) :
    ∃ p, forChannels f = .ok p ∧ ∀ c, P c (p.get c) := by
  obtain ⟨r, hr, hPr⟩ := h .red
  obtain ⟨g, hg, hPg⟩ := h .green
  obtain ⟨b, hb, hPb⟩ := h .blue
  refine ⟨⟨r, g, b⟩, ?_, ?_⟩
  · rw [forChannels, hr, hg, hb]
    rfl
  · intro c
    cases c
    · exact hPr
    · exact hPg
    · exact hPb

/-- A calculation that succeeds for every element of a list succeeds for the list. -/
theorem mapM_ok {α β : Type} {f : α → Except Fault β} {P : α → β → Prop} {l : List α}
    (h : ∀ x ∈ l, ∃ y, f x = .ok y ∧ P x y) :
    ∃ ys, l.mapM f = .ok ys ∧ List.Forall₂ P l ys := by
  induction l with
  | nil => exact ⟨[], rfl, .nil⟩
  | cons x l ih =>
    obtain ⟨y, hy, hP⟩ := h x List.mem_cons_self
    obtain ⟨ys, hys, hPs⟩ := ih fun x' hx' => h x' (List.mem_cons_of_mem _ hx')
    refine ⟨y :: ys, ?_, .cons hP hPs⟩
    rw [List.mapM_cons, hy, hys]
    rfl

/-- Elements at the same place are related; what was appended does not matter. -/
theorem getD_forall₂ {α β : Type} {P : α → β → Prop} {l : List α} {ys : List β}
    (h : List.Forall₂ P l ys) {i : ℕ} (hi : i < l.length) (a : α) (b : β) (rest : List β) :
    P (l.getD i a) ((ys ++ rest).getD i b) := by
  induction h generalizing i with
  | nil => exact absurd hi (Nat.not_lt_zero i)
  | cons hP _ ih =>
    cases i with
    | zero => exact hP
    | succ i => exact ih (Nat.lt_of_succ_lt_succ hi)

/-! ## The axis and the ramp -/

/-- The points of the axis: from zero to one, and strictly increasing. -/
structure AxisOk (axis : List (Pixel Fixed31_32)) : Prop where
  first : ∀ c, ((axis.getD 0 noPixel).get c).toInt = 0
  last : ∀ c, ((axis.getD 255 noPixel).get c).toInt = 2 ^ 32
  increasing : ∀ i < 255, ∀ c,
    ((axis.getD i noPixel).get c).toInt < ((axis.getD (i + 1) noPixel).get c).toInt

/-- The points of the axis are between zero and one. -/
theorem AxisOk.bounds {axis : List (Pixel Fixed31_32)} (h : AxisOk axis) (c : ChannelName) {i : ℕ}
    (hi : i ≤ 255) : 0 ≤ ((axis.getD i noPixel).get c).toInt ∧
      ((axis.getD i noPixel).get c).toInt ≤ 2 ^ 32 := by
  constructor
  · induction i with
    | zero => rw [h.first c]
    | succ i ih => exact (ih (by omega)).trans (h.increasing i (by omega) c).le
  · obtain ⟨j, rfl⟩ : ∃ j, i = 255 - j := ⟨255 - i, by omega⟩
    induction j with
    | zero => exact (h.last c).le
    | succ j ih =>
      by_cases hj : j < 255
      · have hstep := h.increasing (255 - (j + 1)) (by omega) c
        rw [show 255 - (j + 1) + 1 = 255 - j by omega] at hstep
        exact hstep.le.trans (ih (by omega))
      · rw [show 255 - (j + 1) = 255 - j by omega]
        exact ih (by omega)

/-- The dividers, which are one and a half, two, and two and a half. -/
theorem regammaDividers_eq : regammaDividers = .ok ⟨ofMagnitude false (3 * 2 ^ 31),
    ofMagnitude false (4 * 2 ^ 31), ofMagnitude false (5 * 2 ^ 31)⟩ := by
  have h1 : fromFraction 3 2 = .ok (ofMagnitude false (3 * 2 ^ 31)) := by
    rw [fromFraction_eq _ (by decide)]
    decide
  have h3 : fromFraction 5 2 = .ok (ofMagnitude false (5 * 2 ^ 31)) := by
    rw [fromFraction_eq _ (by decide)]
    decide
  rw [regammaDividers, h1, h3]
  rfl

/-- A point of the axis. -/
theorem axisPoint_eq {i : ℕ} (hi : i < 256) :
    divInt (mulInt one (BitVec.ofNat 32 i)) (BitVec.ofNat 64 (256 - 1)) =
      .ok (ofMagnitude false (Rounding.divNat (i * 2 ^ 32) 255)) := by
  have hone : one.toInt = 2 ^ 32 := by decide
  have hword : (BitVec.ofNat 32 i).toInt = i := by
    rw [BitVec.toInt_eq_toNat_of_lt] <;> rw [BitVec.toNat_ofNat] <;> omega
  have hmul : mulInt one (BitVec.ofNat 32 i) = ofMagnitude false (i * 2 ^ 32) := by
    apply ext_toInt
    rw [toInt_mulInt, hone, hword, toInt_units (by omega)]
    · push_cast
      ring
    · rw [hone, hword]
      constructor <;> omega
  have hint : (fromInt (BitVec.ofNat 64 (256 - 1))).value = BitVec.ofNat 64 (255 * 2 ^ 32) := rfl
  rw [divInt, hmul, hint]
  change fromFraction (BitVec.ofNat 64 (i * 2 ^ 32)) _ = _
  rw [fromFraction_units (by omega) (by norm_num) (by norm_num),
    Rounding.divNat_mul_mul_right _ _ (by norm_num)]

/-- A quotient of a number and a divider of the last points. -/
theorem div_units {n d : ℕ} (hn : n < 2 ^ 63) (hpos : 0 < d) (hd : d < 2 ^ 63) :
    div (ofMagnitude false n) (ofMagnitude false d) =
      .ok (ofMagnitude false (Rounding.divNat (n * 2 ^ 32) d)) :=
  fromFraction_units hn hpos hd

/-- The axis of 256 points. -/
theorem buildEvenlyDistributedPoints_ok {dividers : Dividers}
    (h : regammaDividers = .ok dividers) :
    ∃ axis, buildEvenlyDistributedPoints rgb256x3x16 one dividers = .ok axis ∧ AxisOk axis := by
  rw [regammaDividers_eq] at h
  obtain rfl := Except.ok.inj h
  -- the points from zero to one
  obtain ⟨points, hpoints, hvalues⟩ := @mapM_ok ℕ (Pixel Fixed31_32) (fun i => do
      let value ← divInt (mulInt one (BitVec.ofNat 32 i)) (BitVec.ofNat 64 (256 - 1))
      pure (⟨value, value, value⟩ : Pixel Fixed31_32))
    (fun i p => ∀ c, p.get c = ofMagnitude false (Rounding.divNat (i * 2 ^ 32) 255))
    (List.range 256) (by
      intro i hi
      refine ⟨_, by rw [axisPoint_eq (List.mem_range.mp hi)]; rfl, ?_⟩
      intro c
      cases c <;> rfl)
  have hget : ∀ rest, ∀ i < 256, ∀ c, ((points ++ rest).getD i noPixel).get c =
      ofMagnitude false (Rounding.divNat (i * 2 ^ 32) 255) := by
    intro rest i hi c
    have hi' : i < (List.range 256).length := by rwa [List.length_range]
    have hrange : (List.range 256).getD i 0 = i := by
      rw [List.getD_eq_getElem?_getD, List.getElem?_range hi, Option.getD_some]
    have hvalue := getD_forall₂ hvalues hi' 0 noPixel rest c
    rwa [hrange] at hvalue
  -- the last point divided by the dividers
  have hextra : ∀ d, 0 < d → d < 2 ^ 63 → ∃ p, forChannels (fun c =>
      div ((points.getD (256 - 1) noPixel).get c) (ofMagnitude false d)) = .ok p := by
    intro d hpos hd
    obtain ⟨p, hp, -⟩ := @forChannels_ok _ (fun c =>
      div ((points.getD (256 - 1) noPixel).get c) (ofMagnitude false d)) (fun _ _ => True) (by
        intro c
        have hlast := hget [] 255 (by norm_num) c
        rw [List.append_nil] at hlast
        exact ⟨_, by rw [hlast, div_units (by decide) hpos hd], trivial⟩)
    exact ⟨p, hp⟩
  obtain ⟨p1, hp1⟩ := hextra (3 * 2 ^ 31) (by norm_num) (by norm_num)
  obtain ⟨p2, hp2⟩ := hextra (4 * 2 ^ 31) (by norm_num) (by norm_num)
  obtain ⟨p3, hp3⟩ := hextra (5 * 2 ^ 31) (by norm_num) (by norm_num)
  refine ⟨points ++ [p1, p2, p3], ?_, ?_, ?_, ?_⟩
  · rw [buildEvenlyDistributedPoints, rgb256x3x16, hpoints]
    simp only [bind, Except.bind, hp1, hp2, hp3]
    rfl
  · intro c
    rw [hget _ 0 (by norm_num)]
    decide
  · intro c
    rw [hget _ 255 (by norm_num)]
    decide
  · intro i hi c
    rw [hget _ i (by omega), hget _ (i + 1) (by omega), toInt_units, toInt_units] <;>
      simp only [Rounding.divNat] <;> omega

/-- The number is between zero and one. -/
def InUnit (x : Fixed31_32) : Prop := 0 ≤ x.toInt ∧ x.toInt ≤ 2 ^ 32

/-- No entry is larger than the divisor. -/
theorem le_gammaScaler {entries : List (Pixel (BitVec 16))} {e : Pixel (BitVec 16)}
    (he : e ∈ entries) (c : ChannelName) : (e.get c).toNat ≤ (gammaScaler entries).toNat := by
  have hlt := (e.get c).isLt
  rw [gammaScaler]
  split_ifs with hany
  · change _ ≤ 0xFFFF
    omega
  · have hall : ¬ (0xFF00 < e.r ∨ 0xFF00 < e.g ∨ 0xFF00 < e.b) := by
      intro hlarge
      refine hany (List.any_eq_true.mpr ⟨e, he, ?_⟩)
      simpa [or_assoc] using hlarge
    have hle : ¬ 0xFF00 < e.get c := by
      intro hlarge
      apply hall
      cases c
      · exact .inl hlarge
      · exact .inr (.inl hlarge)
      · exact .inr (.inr hlarge)
    exact BitVec.le_def.mp (BitVec.not_lt.mp hle)

theorem gammaScaler_pos (entries : List (Pixel (BitVec 16))) : 0 < (gammaScaler entries).toNat := by
  rw [gammaScaler]
  split_ifs <;> decide

/-- The values of the ramp are between zero and one. -/
theorem scaleGamma_ok {entries : List (Pixel (BitVec 16))} (hlen : entries.length = 256)
    (dividers : Dividers) :
    ∃ user, scaleGamma (.rgb256x3x16 entries) dividers = .ok user ∧
      ∀ i < 256, ∀ c, InUnit ((user.getD i noPixel).get c) := by
  have hentry : ∀ e ∈ entries, ∃ p, forChannels (fun c =>
      fromFraction ((e.get c).setWidth 64) ((gammaScaler entries).setWidth 64)) = .ok p ∧
      ∀ c, InUnit (p.get c) := by
    intro e he
    refine @forChannels_ok _ _ (fun _ x => InUnit x) fun c => ?_
    have hle := le_gammaScaler he c
    have hpos := gammaScaler_pos entries
    have hlt := (gammaScaler entries).isLt
    have hq : Rounding.divNat ((e.get c).toNat * 2 ^ 32) (gammaScaler entries).toNat ≤ 2 ^ 32 :=
      Rounding.divNat_le hpos (by omega)
    refine ⟨ofMagnitude false (Rounding.divNat ((e.get c).toNat * 2 ^ 32)
      (gammaScaler entries).toNat), ?_, ?_⟩
    · rw [← BitVec.ofNat_toNat, ← BitVec.ofNat_toNat,
        fromFraction_units (by omega) hpos (by omega)]
    · rw [InUnit, toInt_units (by omega)]
      omega
  obtain ⟨rgb, hrgb, hvalues⟩ := mapM_ok hentry
  have hextra : ∀ d : Fixed31_32, ∃ p, forChannels (fun c =>
      (pure (mul ((rgb.getD (256 - 1) noPixel).get c) d) : Except Fault Fixed31_32)) = .ok p :=
    fun d => ⟨_, rfl⟩
  obtain ⟨p1, hp1⟩ := hextra dividers.divider1
  obtain ⟨p2, hp2⟩ := hextra dividers.divider2
  obtain ⟨p3, hp3⟩ := hextra dividers.divider3
  refine ⟨rgb ++ [p1, p2, p3], ?_, ?_⟩
  · rw [scaleGamma, hrgb]
    simp only [bind, Except.bind, rgb256x3x16, hp1, hp2, hp3]
    rfl
  · intro i hi c
    exact getD_forall₂ hvalues (by omega) ⟨0, 0, 0⟩ noPixel _ c

/-! ## The neighbours of a coordinate -/

section Interpolation

variable {axis user : List (Pixel Fixed31_32)} {c : ChannelName} {x : Fixed31_32}

/-- The coordinate is between two neighbouring points of the axis. -/
def Neighbours (axis : List (Pixel Fixed31_32)) (c : ChannelName) (x : Fixed31_32) (k : ℕ) : Prop :=
  k < 255 ∧ ((axis.getD k noPixel).get c).toInt ≤ x.toInt ∧
    x.toInt ≤ ((axis.getD (k + 1) noPixel).get c).toInt

/-- **The search** for the neighbours, from an index on whose point is not above the coordinate. It
ends at the latest at the last but one point of the ramp, and never comes to the three additional
points after it. -/
theorem findFrom_middle (haxis : AxisOk axis) (hx : InUnit x) {rounds i : ℕ} (hi : i < 255)
    (hrounds : 255 ≤ i + rounds) (hleft : ((axis.getD i noPixel).get c).toInt ≤ x.toInt) :
    ∃ k, Neighbours axis c x k ∧ findFrom axis x c 0 rounds i = .ok (k, k + 1, .middle) := by
  induction rounds generalizing i with
  | zero => omega
  | succ rounds ih =>
    have hnext : (if i < rgb256x3x16 + 3 - 1 then i + 1 else rgb256x3x16 + 3 - 1) = i + 1 :=
      if_pos (by rw [rgb256x3x16]; omega)
    simp only [findFrom, hnext, le_eq, decide_eq_true hleft, Bool.true_and]
    by_cases hright : x.toInt ≤ ((axis.getD (i + 1) noPixel).get c).toInt
    · rw [if_pos (decide_eq_true hright)]
      exact ⟨i, ⟨hi, hleft, hright⟩, rfl⟩
    · have hgap := haxis.increasing i hi c
      have hlast := haxis.last c
      have hi' : i ≠ 254 := by
        rintro rfl
        rw [hlast] at hright
        exact hright hx.2
      rw [if_neg (by simpa using hright), if_neg, if_neg]
      · exact ih (by omega) (by omega) (by omega)
      · rintro ⟨heq, -⟩
        rw [rgb256x3x16] at heq
        omega
      · rintro ⟨-, hle⟩
        have hle := of_decide_eq_true hle
        omega

/-- The place of a number between two others. -/
theorem div_place {left right : Fixed31_32} (hnonneg : 0 ≤ left.toInt) (hle : right.toInt ≤ 2 ^ 32)
    (hgap : left.toInt < right.toInt) (hleft : left.toInt ≤ x.toInt)
    (hright : x.toInt ≤ right.toInt) :
    ∃ coeff, div (sub x left) (sub right left) = .ok coeff ∧ InUnit coeff := by
  have hunits : ∀ y : Fixed31_32, left.toInt ≤ y.toInt → y.toInt ≤ 2 ^ 32 →
      sub y left = ofMagnitude false (y.toInt - left.toInt).toNat := by
    intro y hle hlt
    apply ext_toInt
    rw [toInt_sub (by constructor <;> omega), toInt_units (by omega)]
    omega
  have hq : Rounding.divNat ((x.toInt - left.toInt).toNat * 2 ^ 32)
      (right.toInt - left.toInt).toNat ≤ 2 ^ 32 := Rounding.divNat_le (by omega) (by omega)
  rw [hunits x hleft (by omega), hunits right hgap.le hle]
  refine ⟨_, div_units (by omega) (by omega) (by omega), ?_⟩
  rw [InUnit, toInt_units (by omega)]
  omega

/-- The coefficient of a coordinate between zero and one. The neighbours are different points, so
that there is no division by zero. -/
theorem buildCoefficient_ok (haxis : AxisOk axis) (hx : InUnit x) (c : ChannelName) :
    ∃ point, buildCoefficient axis c x = .ok point ∧ ∃ k coeff, Neighbours axis c x k ∧
      InUnit coeff ∧ point = ⟨k, k + 1, .middle, coeff⟩ := by
  have hfirst := haxis.first c
  obtain ⟨k, ⟨hlt, hleft, hright⟩, hfind⟩ := @findFrom_middle axis c x haxis hx 259 0
    (by norm_num) (by norm_num) (by rw [hfirst]; exact hx.1)
  obtain ⟨coeff, hcoeff, hunit⟩ := div_place (haxis.bounds c (by omega)).1
    (haxis.bounds c (by omega)).2 (haxis.increasing k hlt c) hleft hright
  refine ⟨⟨k, k + 1, .middle, coeff⟩, ?_, k, coeff, ⟨hlt, hleft, hright⟩, hunit, rfl⟩
  have hk : ¬ rgb256x3x16 + 3 ≤ k := by rw [rgb256x3x16]; omega
  have hk' : ¬ rgb256x3x16 + 3 ≤ k + 1 := by rw [rgb256x3x16]; omega
  have hfind' : findSoftwarePoints axis x c 0 = .ok (k, k + 1, .middle) := hfind
  rw [buildCoefficient, hfind']
  simp only [bind, Except.bind, if_neg hk, if_neg hk', hcoeff]
  rfl

/-! ## Interpolated values -/

/-- A product with a number that is at most one is not larger in magnitude, although the product is
rounded up too often. -/
theorem mulMagnitude_le {a : ℕ} (ha : a ≤ 2 ^ 32) (d : ℕ) : mulMagnitude a d ≤ d := by
  rcases ha.lt_or_eq with hlt | rfl
  · rw [mulMagnitude, Nat.mod_eq_of_lt hlt]
    rcases Nat.eq_zero_or_pos d with rfl | hd
    · simp
    · have hprod : a * d < d * 2 ^ 32 := by
        rw [mul_comm]
        exact Nat.mul_lt_mul_of_pos_left hlt hd
      have hquot := Nat.div_lt_of_lt_mul (mul_comm d _ ▸ hprod)
      split_ifs <;> omega
  · rw [mulMagnitude, Nat.mod_self, Nat.zero_mul, Nat.mul_div_cancel_left _ (by norm_num)]
    simp

/-- A product with a number between zero and one is between zero and the other factor. -/
theorem toInt_mul_between {a : Fixed31_32} (ha : InUnit a) (d : Fixed31_32) :
    min 0 d.toInt ≤ (mul a d).toInt ∧ (mul a d).toInt ≤ max 0 d.toInt := by
  have hle := @mulMagnitude_le a.toInt.natAbs (by have := ha.1; have := ha.2; omega)
    d.toInt.natAbs
  have hbounds := d.toInt_bounds
  have hslt : d.value.slt 0 = decide (d.toInt < 0) := rfl
  have hslt' : a.value.slt 0 = false := decide_eq_false (not_lt.mpr ha.1)
  rw [mul_eq, hslt, hslt', Bool.false_xor]
  generalize mulMagnitude a.toInt.natAbs d.toInt.natAbs = m at hle
  by_cases hneg : d.toInt < 0
  · rw [decide_eq_true hneg, toInt_ofMagnitude_of_fits (by constructor <;> simp <;> omega),
      if_pos rfl]
    omega
  · rw [decide_eq_false hneg, toInt_units (by omega)]
    omega

/-- **An interpolated value** is between the values of its neighbours. -/
theorem calculateMappedValue_between {coeff : Fixed31_32} {k : ℕ} {point : Pixel GammaPoint}
    (hpoint : point.get c = ⟨k, k + 1, .middle, coeff⟩) (hk : k < 255) (hcoeff : InUnit coeff)
    (hleft : InUnit ((user.getD k noPixel).get c))
    (hright : InUnit ((user.getD (k + 1) noPixel).get c)) :
    let value := (calculateMappedValue user point c (3 - 1 + rgb256x3x16)).toInt
    let left := ((user.getD k noPixel).get c).toInt
    let right := ((user.getD (k + 1) noPixel).get c).toInt
    min left right ≤ value ∧ value ≤ max left right := by
  have hmax : ¬ 3 - 1 + rgb256x3x16 < k := by rw [rgb256x3x16]; omega
  have hmax' : ¬ 3 - 1 + rgb256x3x16 < k + 1 := by rw [rgb256x3x16]; omega
  simp only [calculateMappedValue, hpoint, if_neg hmax, if_neg hmax']
  generalize (user.getD k noPixel).get c = left at *
  generalize (user.getD (k + 1) noPixel).get c = right at *
  obtain ⟨hl, hl'⟩ := hleft
  obtain ⟨hr, hr'⟩ := hright
  have hsub : (sub right left).toInt = right.toInt - left.toInt :=
    toInt_sub (by constructor <;> omega)
  have hmul := toInt_mul_between hcoeff (sub right left)
  rw [hsub] at hmul
  rw [toInt_add (by constructor <;> omega)]
  omega

end Interpolation

/-- The values of the ramp that an interpolated value is between. -/
def Interpolates (axis user : List (Pixel Fixed31_32)) (coord value : Pixel Fixed31_32) : Prop :=
  ∀ c, ∃ k, Neighbours axis c (coord.get c) k ∧
    min ((user.getD k noPixel).get c).toInt ((user.getD (k + 1) noPixel).get c).toInt ≤
      (value.get c).toInt ∧
    (value.get c).toInt ≤
      max ((user.getD k noPixel).get c).toInt ((user.getD (k + 1) noPixel).get c).toInt

/-- **The interpolated curve**, for all coordinates between zero and one. -/
theorem calculateInterpolatedHardwareCurve_ok {axis user coordinates : List (Pixel Fixed31_32)}
    (haxis : AxisOk axis) (huser : ∀ i < 256, ∀ c, InUnit ((user.getD i noPixel).get c))
    (hcoords : ∀ coord ∈ coordinates, ∀ c, InUnit (coord.get c)) :
    ∃ curve, calculateInterpolatedHardwareCurve axis user coordinates = .ok curve ∧
      List.Forall₂ (Interpolates axis user) coordinates curve := by
  obtain ⟨coeff, hcoeff, hpoints⟩ := mapM_ok fun coord hcoord =>
    forChannels_ok fun c => buildCoefficient_ok haxis (hcoords coord hcoord c) c
  let mapped (point : Pixel GammaPoint) : Pixel Fixed31_32 :=
    ⟨calculateMappedValue user point .red (3 - 1 + rgb256x3x16),
      calculateMappedValue user point .green (3 - 1 + rgb256x3x16),
      calculateMappedValue user point .blue (3 - 1 + rgb256x3x16)⟩
  have hget : ∀ point c, (mapped point).get c =
      calculateMappedValue user point c (3 - 1 + rgb256x3x16) := by
    intro point c
    cases c <;> rfl
  refine ⟨coeff.map mapped, ?_, ?_⟩
  · rw [calculateInterpolatedHardwareCurve, buildMappingCoefficients, hcoeff]
    exact List.mapM_pure
  · rw [List.forall₂_map_right_iff]
    refine hpoints.imp fun coord point hpoint c => ?_
    obtain ⟨k, coeff, hk, hunit, heq⟩ := hpoint c
    rw [hget]
    exact ⟨k, hk, calculateMappedValue_between heq hk.1 hunit (huser k (by have := hk.1; omega) c)
      (huser (k + 1) (by have := hk.1; omega) c)⟩

/-! ## The final pass -/

/-- The next point is not below the point, and the difference to it is stored. -/
def FollowedBy (p q : PwlResultData) : Prop :=
  ∀ c, (p.rgb.get c).toInt ≤ (q.rgb.get c).toInt ∧
    (p.delta.get c).toInt = (q.rgb.get c).toInt - (p.rgb.get c).toInt

theorem inUnit_raise {x y : Fixed31_32} (hx : InUnit x) (hy : InUnit y) :
    InUnit (raise x y) ∧ x.toInt ≤ (raise x y).toInt := by
  rw [raise, lt_eq]
  split_ifs with hlt
  · exact ⟨hx, le_rfl⟩
  · exact ⟨hy, by simpa using hlt⟩

theorem inUnit_clamp (x : Fixed31_32) : InUnit (clamp x zero one) := by
  have hone : one.toInt = 2 ^ 32 := by decide
  have hzero : zero.toInt = 0 := rfl
  rw [clamp, le_eq, le_eq, hone, hzero]
  split_ifs with hle hge
  · exact ⟨hzero.ge, by rw [hzero]; norm_num⟩
  · exact ⟨by rw [hone]; norm_num, hone.le⟩
  · simp only [decide_eq_true_eq, not_le] at hle hge
    exact ⟨hle.le, hge.le⟩

/-- **The pass over the curve.** Every point is compared with the point before it after that point
was raised, so that one pass is enough, and the stored differences are those of the final points. -/
theorem repairCurve_spec {p : PwlResultData} {l : List PwlResultData}
    (hp : ∀ c, InUnit (p.rgb.get c)) (hl : ∀ q ∈ l, ∀ c, InUnit (q.rgb.get c)) :
    ∃ d l', repairCurve p l = ⟨p.rgb, d⟩ :: l' ∧ l'.length = l.length ∧
      (⟨p.rgb, d⟩ :: l').IsChain FollowedBy ∧ ∀ q ∈ l', ∀ c, InUnit (q.rgb.get c) := by
  induction l generalizing p with
  | nil => exact ⟨p.delta, [], rfl, rfl, List.isChain_singleton _, List.forall_mem_nil _⟩
  | cons q l ih =>
    have hq := hl q List.mem_cons_self
    let raised : Pixel Fixed31_32 :=
      ⟨raise p.rgb.r q.rgb.r, raise p.rgb.g q.rgb.g, raise p.rgb.b q.rgb.b⟩
    let delta : Pixel Fixed31_32 :=
      ⟨sub raised.r p.rgb.r, sub raised.g p.rgb.g, sub raised.b p.rgb.b⟩
    have hraised : ∀ c, raised.get c = raise (p.rgb.get c) (q.rgb.get c) ∧
        delta.get c = sub (raised.get c) (p.rgb.get c) := by
      intro c
      cases c <;> exact ⟨rfl, rfl⟩
    have hunit : ∀ c, InUnit (raised.get c) ∧ (p.rgb.get c).toInt ≤ (raised.get c).toInt := by
      intro c
      rw [(hraised c).1]
      exact inUnit_raise (hp c) (hq c)
    obtain ⟨d, l', hrun, hlen, hchain, hrest⟩ := @ih ⟨raised, q.delta⟩ (fun c => (hunit c).1)
      fun q' hq' => hl q' (List.mem_cons_of_mem _ hq')
    refine ⟨delta, ⟨raised, d⟩ :: l', ?_, congrArg Nat.succ hlen, ?_, ?_⟩
    · rw [← hrun]
      rfl
    · refine List.isChain_cons_cons.mpr ⟨fun c => ⟨(hunit c).2, ?_⟩, hchain⟩
      have hp' := hp c
      have hr' := (hunit c).1
      rw [InUnit] at hp' hr'
      rw [(hraised c).2]
      exact toInt_sub (by constructor <;> omega)
    · intro q' hq'
      rcases List.mem_cons.mp hq' with rfl | hq'
      · exact fun c => (hunit c).1
      · exact hrest q' hq'

/-- The final curve, from any points. -/
theorem buildNewCustomResultedCurve_spec (points : List PwlResultData) :
    (buildNewCustomResultedCurve points).length = points.length ∧
      (buildNewCustomResultedCurve points).IsChain FollowedBy ∧
      ∀ p ∈ buildNewCustomResultedCurve points, ∀ c, InUnit (p.rgb.get c) := by
  have hclamp : ∀ p : PwlResultData, ∀ c, InUnit ((clampPoint p).rgb.get c) := by
    intro p c
    cases c <;> exact inUnit_clamp _
  cases points with
  | nil => exact ⟨rfl, List.isChain_nil, List.forall_mem_nil _⟩
  | cons p l =>
    obtain ⟨d, l', hrun, hlen, hchain, hrest⟩ := @repairCurve_spec (clampPoint p)
      (l.map clampPoint) (hclamp p) (by
        intro q hq
        obtain ⟨q', -, rfl⟩ := List.mem_map.mp hq
        exact hclamp q')
    have heq : buildNewCustomResultedCurve (p :: l) = ⟨(clampPoint p).rgb, d⟩ :: l' := hrun
    rw [heq]
    refine ⟨?_, hchain, ?_⟩
    · rw [List.length_cons, List.length_cons, hlen, List.length_map]
    · intro q hq
      rcases List.mem_cons.mp hq with rfl | hq
      · exact hclamp p
      · exact hrest q hq

/-- **The gamma curve.** For every ramp of 256 entries and all coordinates between zero and one, no
step divides by zero or gives up. Every interpolated value is between the values of the two entries
whose places on the axis are next to the coordinate. After the final pass all points are between
zero and one and do not decrease, and the stored differences are those of the points. -/
theorem gammaCurve_correct (entries : List (Pixel (BitVec 16))) (hlen : entries.length = 256)
    (coordinates : List (Pixel Fixed31_32))
    (hcoords : ∀ coord ∈ coordinates, ∀ c, InUnit (coord.get c)) :
    ∃ dividers axis user curve, regammaDividers = .ok dividers ∧
      buildEvenlyDistributedPoints rgb256x3x16 one dividers = .ok axis ∧
      scaleGamma (.rgb256x3x16 entries) dividers = .ok user ∧
      calculateInterpolatedHardwareCurve axis user coordinates = .ok curve ∧
      List.Forall₂ (Interpolates axis user) coordinates curve ∧
      ∀ points : List PwlResultData, points.map PwlResultData.rgb = curve →
        (buildNewCustomResultedCurve points).length = coordinates.length ∧
          (buildNewCustomResultedCurve points).IsChain FollowedBy ∧
          ∀ p ∈ buildNewCustomResultedCurve points, ∀ c, InUnit (p.rgb.get c) := by
  obtain ⟨axis, hbuild, haxis⟩ := buildEvenlyDistributedPoints_ok regammaDividers_eq
  obtain ⟨user, hscale, huser⟩ := scaleGamma_ok hlen ⟨ofMagnitude false (3 * 2 ^ 31),
    ofMagnitude false (4 * 2 ^ 31), ofMagnitude false (5 * 2 ^ 31)⟩
  obtain ⟨curve, hcurve, hbetween⟩ := calculateInterpolatedHardwareCurve_ok haxis huser hcoords
  refine ⟨_, axis, user, curve, regammaDividers_eq, hbuild, hscale, hcurve, hbetween, ?_⟩
  rintro points rfl
  obtain ⟨hsame, hchain, hunit⟩ := buildNewCustomResultedCurve_spec points
  refine ⟨?_, hchain, hunit⟩
  rw [hsame, hbetween.length_eq, List.length_map]

/-- A ramp with a line that rises, a parabola and a line that falls. -/
def threeRamps : List (Pixel (BitVec 16)) :=
  (List.range 256).map fun i =>
    ⟨BitVec.ofNat 16 (257 * i), BitVec.ofNat 16 (i * i), BitVec.ofNat 16 (65535 - 257 * i)⟩

/-- Coordinates that are different for the channels. -/
def threeCoordinates : List (Pixel Fixed31_32) :=
  [⟨zero, half, one⟩, ⟨⟨0x40000000⟩, ⟨0x12345678⟩, half⟩, ⟨one, ⟨0xfedcba98⟩, zero⟩]

/-- The ramps of `threeRamps` at `threeCoordinates`. -/
theorem gammaCurve_correct_threeRamps :
    ∃ dividers axis user curve, regammaDividers = .ok dividers ∧
      buildEvenlyDistributedPoints rgb256x3x16 one dividers = .ok axis ∧
      scaleGamma (.rgb256x3x16 threeRamps) dividers = .ok user ∧
      calculateInterpolatedHardwareCurve axis user threeCoordinates = .ok curve ∧
      List.Forall₂ (Interpolates axis user) threeCoordinates curve ∧
      ∀ points : List PwlResultData, points.map PwlResultData.rgb = curve →
        (buildNewCustomResultedCurve points).length = 3 ∧
          (buildNewCustomResultedCurve points).IsChain FollowedBy ∧
          ∀ p ∈ buildNewCustomResultedCurve points, ∀ c, InUnit (p.rgb.get c) := by
  have hlen : threeRamps.length = 256 := by simp [threeRamps]
  refine gammaCurve_correct threeRamps hlen threeCoordinates fun coord hcoord c => ?_
  simp only [threeCoordinates, List.mem_cons, List.not_mem_nil, or_false] at hcoord
  rcases hcoord with rfl | rfl | rfl <;> cases c <;> exact ⟨by decide, by decide⟩

end Dc
