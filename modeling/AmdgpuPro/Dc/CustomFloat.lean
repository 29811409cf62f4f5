import AmdgpuPro.Dc.FixedPoint
import AmdgpuPro.Lib.While

set_option autoImplicit false

/-!
# Custom floating-point numbers of the gamma curve

The points of a gamma curve are written to registers as floating-point numbers with a few bits.
`build_custom_float` finds the exponent of a fixed-point number: a number below one is doubled until
it is at least one, a large number is halved until it is at most the largest mantissa. The largest
mantissa is a little less than two, so that a number just below a power of two is halved once more
than it should be, and its mantissa is negative then and becomes zero.

## Main definitions

* `Dc.buildCustomFloat`, `setupCustomFloat` — the fields of a number, and the register value.
* `decodeCustomFloat` — the number that a register value of the format stands for.

## Main results

* `Dc.customFloat_accurate` — every number is encoded up to a relative error of 2^-12.
-/

namespace Dc

open Fixed31_32

/-- `struct custom_float_format` -/
structure CustomFloatFormat where
  mantissaBits : ℕ
  exponentaBits : ℕ
  sign : Bool

/-- `struct custom_float_value` -/
structure CustomFloatValue where
  mantissa : BitVec 32
  exponenta : BitVec 32
  value : BitVec 32
  negative : Bool
  deriving DecidableEq

/-- The mantissa of a normalized number, at the end of `build_custom_float`. -/
def mantissaOf (format : CustomFloatFormat) (value : Fixed31_32) : BitVec 32 :=
  let mantiss := sub value one
  if lt mantiss zero || lt one mantiss then floor zero
  else floor ⟨mantiss.value <<< format.mantissaBits⟩

/-- The loop that doubles a number: `dal_fixed31_32_shl(value, 1)` and `++i`. -/
def double (s : Fixed31_32 × BitVec 32) : Fixed31_32 × BitVec 32 := (⟨s.1.value <<< 1⟩, s.2 + 1)

/-- The loop that halves a number: `dal_fixed31_32_shr(value, 1)` and `++i`. -/
def halve (s : Fixed31_32 × BitVec 32) : Fixed31_32 × BitVec 32 :=
  (⟨s.1.value.sshiftRight 1⟩, s.2 + 1)

/-- `build_custom_float` for a number that is not negative: the mantissa and the exponent. The two
loops are run for at most `fuel` more rounds after the first one. -/
def buildMagnitude (fuel : ℕ) (format : CustomFloatFormat) (plusMaxFraction value : Fixed31_32) :
    Option (BitVec 32 × BitVec 32) :=
  let expOffset := 1#32 <<< (format.exponentaBits - 1) - 1
  if lt value one then
    (While.loop (fun s => lt s.1 one) double fuel (double (value, 1))).map fun s =>
      let i := s.2 - 1
      if expOffset ≤ i then (0, 0) else (mantissaOf format s.1, expOffset - i)
  else if le plusMaxFraction value then
    (While.loop (fun s => lt plusMaxFraction s.1) halve fuel (halve (value, 1))).map fun s =>
      (mantissaOf format s.1, expOffset + s.2 - 1)
  else some (mantissaOf format value, expOffset)

/-- `build_custom_float`: the sign, the mantissa and the exponent. -/
def buildCustomFloat (fuel : ℕ) (value : Fixed31_32) (format : CustomFloatFormat) :
    Except Fault (Option (Bool × BitVec 32 × BitVec 32)) := do
  let plusMaxFraction ← fromFraction (1#64 <<< (format.mantissaBits + 1) - 1)
    (1#64 <<< format.mantissaBits)
  if value = zero then pure (some (false, 0, 0))
  else if lt value zero then
    pure ((buildMagnitude fuel format plusMaxFraction (neg value)).map fun m => (format.sign, m))
  else pure ((buildMagnitude fuel format plusMaxFraction value).map fun m => (false, m))

/-- The loops of `setup_custom_float`: the lowest bits of a field, one after the other. -/
def copyBits (field : BitVec 32) (shift n : ℕ) (value : BitVec 32) : BitVec 32 :=
  (List.range n).foldl (fun (value : BitVec 32) (i : ℕ) =>
    if field &&& 1#32 <<< i ≠ 0 then value ||| (1#32 <<< i) <<< shift else value) value

/-- `setup_custom_float` -/
def setupCustomFloat (format : CustomFloatFormat) (negative : Bool)
    (mantissa exponenta : BitVec 32) : BitVec 32 :=
  let mantissaMask := 1#32 <<< (format.mantissaBits + 1) - 1
  let exponentaMask := 1#32 <<< (format.exponentaBits + 1) - 1
  let mantissa := if mantissa &&& ~~~mantissaMask ≠ 0 then mantissaMask else mantissa
  let exponenta := if exponenta &&& ~~~exponentaMask ≠ 0 then exponentaMask else exponenta
  let value := copyBits mantissa 0 format.mantissaBits 0
  let value := copyBits exponenta format.mantissaBits format.exponentaBits value
  if negative && format.sign then value ||| 1#32 <<< (format.mantissaBits + format.exponentaBits)
  else value

/-- `convert_to_custom_float_format_ex` -/
def convertToCustomFloatFormatEx (fuel : ℕ) (value : Fixed31_32) (format : CustomFloatFormat) :
    Except Fault (Option CustomFloatValue) := do
  let fields ← buildCustomFloat fuel value format
  pure (fields.map fun f =>
    ⟨f.2.1, f.2.2, setupCustomFloat format f.1 f.2.1 f.2.2, f.1⟩)

/-- The format of the points of a curve: six bits of exponent, twelve bits of mantissa, a sign. -/
def format612 : CustomFloatFormat := ⟨12, 6, true⟩

/-- The number that a register value of the format stands for. An exponent of zero is zero. -/
def decodeCustomFloat (w : BitVec 32) : ℚ :=
  let mantissa := (w.extractLsb' 0 12).toNat
  let exponenta := (w.extractLsb' 12 6).toNat
  let magnitude : ℚ :=
    if exponenta = 0 then 0 else (1 + mantissa / 2 ^ 12) * 2 ^ ((exponenta : ℤ) - 31)
  if w.getLsbD 18 then -magnitude else magnitude

/-! ## The loops -/

theorem double_units (n i : ℕ) :
    double (ofMagnitude false n, BitVec.ofNat 32 i) =
      (ofMagnitude false (n * 2), BitVec.ofNat 32 (i + 1)) := by
  rw [double, BitVec.ofNat_add]
  refine Prod.ext ?_ rfl
  exact congrArg mk (shiftLeft_ofNat n 1)

theorem halve_units {n : ℕ} (h : n < 2 ^ 63) (i : ℕ) :
    halve (ofMagnitude false n, BitVec.ofNat 32 i) =
      (ofMagnitude false (n / 2), BitVec.ofNat 32 (i + 1)) := by
  rw [halve, BitVec.ofNat_add]
  refine Prod.ext ?_ rfl
  have hmsb : (BitVec.ofNat 64 n).msb = false := by
    rw [BitVec.msb_eq_false_iff_two_mul_lt, BitVec.toNat_ofNat]
    omega
  apply congrArg mk
  change (BitVec.ofNat 64 n).sshiftRight 1 = BitVec.ofNat 64 (n / 2)
  rw [BitVec.sshiftRight_eq_of_msb_false hmsb, shiftRight_ofNat 1 (by omega), pow_one]

/-- **Doubling** ends, at a number that is at least one and less than two. -/
theorem doubling_ends {v : ℕ} (hpos : 0 < v) (hlt : v < 2 ^ 32) :
    ∃ fuel j, While.loop (fun s => lt s.1 one) double fuel
        (double (ofMagnitude false v, BitVec.ofNat 32 1)) =
          some (ofMagnitude false (v * 2 ^ (j + 1)), BitVec.ofNat 32 (j + 2)) ∧
      v * 2 ^ j < 2 ^ 32 ∧ 2 ^ 32 ≤ v * 2 ^ (j + 1) := by
  let I (s : Fixed31_32 × BitVec 32) : Prop := ∃ j,
    s = (ofMagnitude false (v * 2 ^ (j + 1)), BitVec.ofNat 32 (j + 2)) ∧ v * 2 ^ j < 2 ^ 32
  have hless : ∀ n, n < 2 ^ 63 → (lt (ofMagnitude false n) one = true ↔ n < 2 ^ 32) := by
    intro n hn
    have hone : one.toInt = 2 ^ 32 := by decide
    rw [lt_eq, toInt_units hn, decide_eq_true_eq, hone]
    omega
  have hstart : I (double (ofMagnitude false v, BitVec.ofNat 32 1)) :=
    ⟨0, by rw [double_units]; rfl, by simpa using hlt⟩
  have hstep : ∀ s, I s → lt s.1 one = true →
      I (double s) ∧ (2 ^ 33 - (double s).1.toInt).toNat < (2 ^ 33 - s.1.toInt).toNat := by
    rintro s ⟨j, rfl, hj⟩ hgo
    have hnext : v * 2 ^ (j + 1) = v * 2 ^ j * 2 := by rw [pow_succ, mul_assoc]
    have hpow : 0 < v * 2 ^ j := Nat.mul_pos hpos (Nat.two_pow_pos j)
    rw [hless _ (by omega)] at hgo
    rw [double_units]
    refine ⟨⟨j + 1, by rw [pow_succ _ (j + 1), mul_assoc], hgo⟩, ?_⟩
    rw [toInt_units (by omega), toInt_units (by omega)]
    omega
  obtain ⟨fuel, t, ht, ⟨j, rfl, hj⟩, hstop⟩ := @While.exists_loop (Fixed31_32 × BitVec 32)
    (fun s => lt s.1 one) double _ I (fun s => (2 ^ 33 - s.1.toInt).toNat) hstep hstart
  refine ⟨fuel, j, ht, hj, ?_⟩
  have hnext : v * 2 ^ (j + 1) = v * 2 ^ j * 2 := by rw [pow_succ, mul_assoc]
  have hge := mt (hless _ (by omega)).mpr (Bool.eq_false_iff.mp hstop)
  exact not_lt.mp hge

/-- **Halving** ends, at a number that is at most the largest mantissa. The number before the last
round was not less than it. -/
theorem halving_ends {v top : ℕ} (hle : top ≤ v) (hlt : v < 2 ^ 63) (htop : 0 < top) :
    ∃ fuel j, While.loop (fun s => lt (ofMagnitude false top) s.1) halve fuel
        (halve (ofMagnitude false v, BitVec.ofNat 32 1)) =
          some (ofMagnitude false (v / 2 ^ (j + 1)), BitVec.ofNat 32 (j + 2)) ∧
      top ≤ v / 2 ^ j ∧ v / 2 ^ (j + 1) ≤ top := by
  let I (s : Fixed31_32 × BitVec 32) : Prop := ∃ j,
    s = (ofMagnitude false (v / 2 ^ (j + 1)), BitVec.ofNat 32 (j + 2)) ∧ top ≤ v / 2 ^ j
  have hsmall : ∀ k, v / 2 ^ k < 2 ^ 63 := fun k => (Nat.div_le_self _ _).trans_lt hlt
  have hless : ∀ n, n < 2 ^ 63 → (lt (ofMagnitude false top) (ofMagnitude false n) = true ↔
      top < n) := by
    intro n hn
    rw [lt_eq, toInt_units hn, toInt_units (by omega), decide_eq_true_eq, Nat.cast_lt]
  have hstart : I (halve (ofMagnitude false v, BitVec.ofNat 32 1)) :=
    ⟨0, by rw [halve_units hlt]; rfl, by simpa using hle⟩
  have hstep : ∀ s, I s → lt (ofMagnitude false top) s.1 = true →
      I (halve s) ∧ (halve s).1.toInt.toNat < s.1.toInt.toNat := by
    rintro s ⟨j, rfl, hj⟩ hgo
    have hnext : v / 2 ^ (j + 1 + 1) = v / 2 ^ (j + 1) / 2 := by
      rw [pow_succ _ (j + 1), Nat.div_div_eq_div_mul]
    have hlt' := hsmall (j + 1)
    rw [hless _ hlt'] at hgo
    rw [halve_units hlt']
    refine ⟨⟨j + 1, by rw [hnext], hgo.le⟩, ?_⟩
    rw [toInt_units (by omega), toInt_units hlt']
    omega
  obtain ⟨fuel, t, ht, ⟨j, rfl, hj⟩, hstop⟩ := @While.exists_loop (Fixed31_32 × BitVec 32)
    (fun s => lt (ofMagnitude false top) s.1) halve _ I (fun s => s.1.toInt.toNat) hstep hstart
  refine ⟨fuel, j, ht, hj, ?_⟩
  exact not_lt.mp (mt (hless _ (hsmall _)).mpr (Bool.eq_false_iff.mp hstop))

/-! ## The fields -/

/-- The mantissa of a normalized number of units: what is cut off of the number without its first
bit, or zero if the number is below one. -/
theorem mantissaOf_units {w : ℕ} (h : w ≤ 2 ^ 33) :
    (mantissaOf format612 (ofMagnitude false w)).toNat = (w - 2 ^ 32) / 2 ^ 20 := by
  have hone : one.toInt = 2 ^ 32 := by decide
  have hzero : zero.toInt = 0 := rfl
  have hw := @toInt_units w (by omega)
  have hsub : (sub (ofMagnitude false w) one).toInt = w - 2 ^ 32 := by
    rw [toInt_sub, hw, hone]
    rw [hw, hone]
    constructor <;> omega
  rw [mantissaOf, lt_eq, lt_eq, hsub, hone, hzero]
  by_cases hlt : w < 2 ^ 32
  · rw [if_pos (by simp; omega), floor_eq, hzero]
    have hcut : w - 2 ^ 32 = 0 := by omega
    rw [hcut]
    rfl
  · have hunits : sub (ofMagnitude false w) one = ofMagnitude false (w - 2 ^ 32) := by
      apply ext_toInt
      rw [hsub, toInt_units (by omega)]
      omega
    have hshift : (⟨(ofMagnitude false (w - 2 ^ 32)).value <<< format612.mantissaBits⟩ :
        Fixed31_32) = ofMagnitude false ((w - 2 ^ 32) * 2 ^ 12) :=
      congrArg mk (shiftLeft_ofNat (w - 2 ^ 32) 12)
    rw [if_neg (by simp; omega), hunits, hshift, floor_eq, toInt_units (by omega),
      BitVec.toNat_ofInt, Int.tdiv_eq_ediv_of_nonneg (by omega)]
    omega

/-- The largest mantissa: all bits are set. -/
def topMantissa : ℕ := 2 ^ 33 - 2 ^ 20

/-- A number of units, its exponent and its mantissa in the register. The number that they stand for
is that number up to a relative error of 2^-12. -/
def Encodes (v e m : ℕ) : Prop :=
  0 < e ∧ e < 2 ^ 6 ∧ m < 2 ^ 12 ∧
    |(1 + (m : ℚ) / 2 ^ 12) * 2 ^ ((e : ℤ) - 31) - (v : ℚ) / 2 ^ 32| ≤
      1 / 2 ^ 12 * ((v : ℚ) / 2 ^ 32)

/-- A number that was doubled `j` times. -/
theorem encodes_of_doubled {v j m : ℕ} (hj : j < 31) (hm : m < 2 ^ 12)
    (hle : 2 ^ 32 + m * 2 ^ 20 ≤ v * 2 ^ j) (hlt : v * 2 ^ j < 2 ^ 32 + (m + 1) * 2 ^ 20) :
    Encodes v (31 - j) m := by
  refine ⟨by omega, by omega, hm, ?_⟩
  have hexp : (((31 - j : ℕ) : ℤ) - 31) = -(j : ℤ) := by omega
  have hpow : (0 : ℚ) < 2 ^ j := by positivity
  have hle' : (2 : ℚ) ^ 32 + m * 2 ^ 20 ≤ v * 2 ^ j := by exact_mod_cast hle
  have hlt' : (v : ℚ) * 2 ^ j < 2 ^ 32 + (m + 1) * 2 ^ 20 := by exact_mod_cast hlt
  rw [hexp, zpow_neg, zpow_natCast]
  -- everything is multiplied by the power of two
  have hscale : ∀ x y : ℚ, x * 2 ^ j ≤ y * 2 ^ j → x ≤ y :=
    fun x y h => le_of_mul_le_mul_right h hpow
  rw [abs_le]
  constructor <;> apply hscale <;> field_simp <;> nlinarith

/-- A number that was halved `j` times. -/
theorem encodes_of_halved {v j m : ℕ} (hj : j < 32) (hm : m < 2 ^ 12)
    (hle : 2 ^ 12 * ((2 ^ 32 + m * 2 ^ 20) * 2 ^ j) ≤ 2 ^ 12 * v + v)
    (hge : 2 ^ 12 * v ≤ 2 ^ 12 * ((2 ^ 32 + m * 2 ^ 20) * 2 ^ j) + v) :
    Encodes v (31 + j) m := by
  refine ⟨by omega, by omega, hm, ?_⟩
  have hexp : (((31 + j : ℕ) : ℤ) - 31) = (j : ℤ) := by omega
  have hle' : (2 : ℚ) ^ 12 * ((2 ^ 32 + m * 2 ^ 20) * 2 ^ j) ≤ 2 ^ 12 * v + v := by
    exact_mod_cast hle
  have hge' : (2 : ℚ) ^ 12 * v ≤ 2 ^ 12 * ((2 ^ 32 + m * 2 ^ 20) * 2 ^ j) + v := by
    exact_mod_cast hge
  rw [hexp, zpow_natCast, abs_le]
  constructor <;> field_simp <;> nlinarith

/-- The exponent that stands for numbers from one to two. -/
theorem expOffset_eq : 1#32 <<< (format612.exponentaBits - 1) - 1 = BitVec.ofNat 32 31 := by decide

/-- The fields of a number of units. It becomes zero if it is too small for the exponent. -/
def FieldsOf (v : ℕ) (fields : BitVec 32 × BitVec 32) : Prop :=
  if v < 4 then fields = (0, 0) else Encodes v fields.2.toNat fields.1.toNat

/-- A number below one. It is doubled at most 30 times, unless it is too small for the exponent. -/
theorem buildMagnitude_small {v : ℕ} (hpos : 0 < v) (hlt : v < 2 ^ 32) (top : Fixed31_32) :
    ∃ fuel fields, buildMagnitude fuel format612 top (ofMagnitude false v) = some fields ∧
      FieldsOf v fields := by
  obtain ⟨fuel, j, hloop, hj, hdone⟩ := doubling_ends hpos hlt
  have hless : lt (ofMagnitude false v) one = true := by
    have hone : one.toInt = 2 ^ 32 := by decide
    rw [lt_eq, toInt_units (by omega), hone, decide_eq_true_eq]
    exact_mod_cast hlt
  have hj32 : j < 32 := by
    refine (Nat.pow_lt_pow_iff_right Nat.one_lt_two).mp (lt_of_le_of_lt ?_ hj)
    exact Nat.le_mul_of_pos_left _ hpos
  have hi : BitVec.ofNat 32 (j + 2) - 1 = BitVec.ofNat 32 (j + 1) := by
    apply BitVec.eq_of_toNat_eq
    rw [BitVec.toNat_sub, BitVec.toNat_ofNat, BitVec.toNat_ofNat]
    change (2 ^ 32 - 1 + _) % 2 ^ 32 = _
    omega
  have hoffset : BitVec.ofNat 32 31 ≤ BitVec.ofNat 32 (j + 1) ↔ 31 ≤ j + 1 := by
    rw [BitVec.le_def, BitVec.toNat_ofNat, BitVec.toNat_ofNat]
    omega
  have hnext : v * 2 ^ (j + 1) = v * 2 ^ j * 2 := by rw [pow_succ, mul_assoc]
  have hloop' : While.loop (fun s => lt s.1 one) double fuel (double (ofMagnitude false v, 1)) =
      some (ofMagnitude false (v * 2 ^ (j + 1)), BitVec.ofNat 32 (j + 2)) := hloop
  have hrun : buildMagnitude fuel format612 top (ofMagnitude false v) =
      some (if BitVec.ofNat 32 31 ≤ BitVec.ofNat 32 (j + 1) then (0, 0)
        else (mantissaOf format612 (ofMagnitude false (v * 2 ^ (j + 1))),
          BitVec.ofNat 32 31 - BitVec.ofNat 32 (j + 1))) := by
    simp only [buildMagnitude, hless, if_true, hloop', Option.map_some, hi, expOffset_eq]
  refine ⟨fuel, _, hrun, ?_⟩
  rw [FieldsOf]
  by_cases hfew : 31 ≤ j + 1
  · have hsmall : v < 4 := by
      have hpow : 2 ^ 30 ≤ 2 ^ j := Nat.pow_le_pow_right Nat.two_pos (by omega)
      have hle := Nat.mul_le_mul_left v hpow
      omega
    rw [if_pos hsmall, if_pos (hoffset.mpr hfew)]
  · have hlarge : ¬ v < 4 := by
      have hpow : 2 ^ (j + 1) ≤ 2 ^ 30 := Nat.pow_le_pow_right Nat.two_pos (by omega)
      have hle := Nat.mul_le_mul_left v hpow
      omega
    have hexp : (BitVec.ofNat 32 31 - BitVec.ofNat 32 (j + 1)).toNat = 31 - (j + 1) := by
      rw [BitVec.toNat_sub, BitVec.toNat_ofNat, BitVec.toNat_ofNat]
      omega
    rw [if_neg hlarge, if_neg (mt hoffset.mp hfew), hexp, mantissaOf_units (by omega)]
    apply encodes_of_doubled <;> omega

/-- A number that is normalized by halving it `j` times, or that is normalized already. -/
theorem encodes_normalized {v j : ℕ} (hj : j < 32) (hle : v / 2 ^ j ≤ topMantissa)
    (hge : 2 ^ 32 - 2 ^ 19 ≤ v / 2 ^ j) :
    Encodes v (31 + j) (mantissaOf format612 (ofMagnitude false (v / 2 ^ j))).toNat := by
  rw [topMantissa] at hle
  rw [mantissaOf_units (by omega)]
  have hpow := Nat.two_pow_pos j
  have hmod := Nat.div_add_mod v (2 ^ j)
  have hrem := Nat.mod_lt v hpow
  generalize v / 2 ^ j = w at *
  generalize hg : 2 ^ 32 + (w - 2 ^ 32) / 2 ^ 20 * 2 ^ 20 = g
  -- the bounds without the power of two, which the division by it may change by one
  have habove : 2 ^ 12 * g ≤ (2 ^ 12 + 1) * w := by omega
  have hbelow : (2 ^ 12 - 1) * (w + 1) ≤ 2 ^ 12 * g := by omega
  apply encodes_of_halved hj (by omega)
  · calc 2 ^ 12 * ((2 ^ 32 + (w - 2 ^ 32) / 2 ^ 20 * 2 ^ 20) * 2 ^ j)
        = 2 ^ 12 * g * 2 ^ j := by rw [hg, mul_assoc]
      _ ≤ (2 ^ 12 + 1) * w * 2 ^ j := Nat.mul_le_mul_right _ habove
      _ = (2 ^ 12 + 1) * (2 ^ j * w) := by ring
      _ ≤ 2 ^ 12 * v + v := by omega
  · have hv : (2 ^ 12 - 1) * v ≤ 2 ^ 12 * (g * 2 ^ j) := by
      calc (2 ^ 12 - 1) * v ≤ (2 ^ 12 - 1) * (2 ^ j * (w + 1)) := by
            rw [mul_add]
            omega
        _ = (2 ^ 12 - 1) * (w + 1) * 2 ^ j := by ring
        _ ≤ 2 ^ 12 * g * 2 ^ j := Nat.mul_le_mul_right _ hbelow
        _ = 2 ^ 12 * (g * 2 ^ j) := mul_assoc _ _ _
    rw [hg]
    omega

/-- A number that is at least one. -/
theorem buildMagnitude_large {v : ℕ} (hge : 2 ^ 32 ≤ v) (hlt : v < 2 ^ 63) :
    ∃ fuel fields, buildMagnitude fuel format612 (ofMagnitude false topMantissa)
      (ofMagnitude false v) = some fields ∧ FieldsOf v fields := by
  have hone : one.toInt = 2 ^ 32 := by decide
  have hless : lt (ofMagnitude false v) one = false := by
    rw [lt_eq, toInt_units hlt, hone, decide_eq_false_iff_not]
    omega
  have htop : le (ofMagnitude false topMantissa) (ofMagnitude false v) =
      decide (topMantissa ≤ v) := by
    rw [le_eq, toInt_units hlt, toInt_units (by rw [topMantissa]; norm_num), decide_eq_decide,
      Nat.cast_le]
  have hlarge : ¬ v < 4 := by omega
  simp only [FieldsOf, if_neg hlarge]
  by_cases hle : topMantissa ≤ v
  · obtain ⟨fuel, j, hloop, hj, hdone⟩ := halving_ends hle hlt (by rw [topMantissa]; norm_num)
    have hloop' : While.loop (fun s => lt (ofMagnitude false topMantissa) s.1) halve fuel
        (halve (ofMagnitude false v, 1)) =
          some (ofMagnitude false (v / 2 ^ (j + 1)), BitVec.ofNat 32 (j + 2)) := hloop
    have hj31 : j < 31 := by
      rw [Nat.le_div_iff_mul_le (Nat.two_pow_pos j), topMantissa] at hj
      refine (Nat.pow_lt_pow_iff_right Nat.one_lt_two).mp ?_
      omega
    have hexp : (BitVec.ofNat 32 31 + BitVec.ofNat 32 (j + 2) - 1).toNat = 31 + (j + 1) := by
      rw [BitVec.toNat_sub, BitVec.toNat_add, BitVec.toNat_ofNat, BitVec.toNat_ofNat]
      change (2 ^ 32 - 1 + _) % 2 ^ 32 = _
      omega
    refine ⟨fuel, (mantissaOf format612 (ofMagnitude false (v / 2 ^ (j + 1))),
      BitVec.ofNat 32 31 + BitVec.ofNat 32 (j + 2) - 1), ?_, ?_⟩
    · simp only [buildMagnitude, hless, htop, hle, decide_true, if_true, hloop', Option.map_some,
        expOffset_eq]
      rfl
    · rw [hexp]
      apply encodes_normalized (by omega) hdone
      rw [topMantissa] at hj
      rw [pow_succ 2 j, ← Nat.div_div_eq_div_mul]
      omega
  · refine ⟨0, (mantissaOf format612 (ofMagnitude false v), BitVec.ofNat 32 31), ?_, ?_⟩
    · simp only [buildMagnitude, hless, htop, hle, decide_false, expOffset_eq]
      rfl
    · have h := @encodes_normalized v 0 (by norm_num)
      rw [pow_zero, Nat.div_one] at h
      exact h (by omega) (by omega)

/-- The fields of every number that is not zero. -/
theorem buildMagnitude_fields {v : ℕ} (hpos : 0 < v) (hlt : v < 2 ^ 63) :
    ∃ fuel fields, buildMagnitude fuel format612 (ofMagnitude false topMantissa)
      (ofMagnitude false v) = some fields ∧ FieldsOf v fields := by
  rcases lt_or_ge v (2 ^ 32) with h | h
  · exact buildMagnitude_small hpos h _
  · exact buildMagnitude_large h hlt

/-! ## The register value -/

/-- One bit of a field is copied to its place. -/
theorem getLsbD_copyBit (field value : BitVec 32) {shift n : ℕ} (h : shift + n < 32) (k : ℕ) :
    (if field &&& 1#32 <<< n ≠ 0 then value ||| (1#32 <<< n) <<< shift else value).getLsbD k =
      (value.getLsbD k || (decide (k = shift + n) && field.getLsbD n)) := by
  have hbit : ((1#32 <<< n) <<< shift).getLsbD k = decide (k = shift + n) := by
    rw [← BitVec.shiftLeft_add, ← BitVec.twoPow_eq, BitVec.getLsbD_twoPow,
      decide_eq_true (by omega : n + shift < 32), Bool.true_and, decide_eq_decide]
    omega
  have hne : BitVec.twoPow 32 n ≠ 0 := by
    intro hzero
    have hnat := BitVec.toNat_twoPow_of_lt (show n < 32 by omega)
    rw [hzero] at hnat
    exact absurd hnat.symm (Nat.two_pow_pos n).ne'
  rw [← BitVec.twoPow_eq, BitVec.and_twoPow, BitVec.twoPow_eq]
  cases hf : field.getLsbD n
  · simp
  · rw [if_pos rfl, if_pos (by rwa [← BitVec.twoPow_eq]), BitVec.getLsbD_or, hbit, Bool.and_true]

/-- The bits of a field are copied to their place, the other bits stay. -/
theorem getLsbD_copyBits (field value : BitVec 32) {shift n : ℕ} (h : shift + n ≤ 32) (k : ℕ) :
    (copyBits field shift n value).getLsbD k =
      (value.getLsbD k || (decide (shift ≤ k ∧ k < shift + n) && field.getLsbD (k - shift))) := by
  induction n with
  | zero =>
    have hno : ¬ (shift ≤ k ∧ k < shift + 0) := by omega
    rw [decide_eq_false hno, Bool.false_and, Bool.or_false]
    rfl
  | succ n ih =>
    have hstep : copyBits field shift (n + 1) value =
        if field &&& 1#32 <<< n ≠ 0 then copyBits field shift n value ||| (1#32 <<< n) <<< shift
        else copyBits field shift n value := by
      rw [copyBits, List.range_succ, List.foldl_append]
      rfl
    rw [hstep, getLsbD_copyBit field _ (by omega), ih (by omega)]
    by_cases hk : k = shift + n
    · subst hk
      simp
    · have hiff : (shift ≤ k ∧ k < shift + (n + 1)) ↔ (shift ≤ k ∧ k < shift + n) := by omega
      simp [hk, hiff]

/-- A field that is small enough passes the verification. -/
theorem and_not_mask {w : BitVec 32} {n : ℕ} (hw : w.toNat < 2 ^ n) (mask : BitVec 32)
    (hmask : ∀ i < n, mask.getLsbD i = true) : w &&& ~~~mask = 0 := by
  apply BitVec.eq_of_getLsbD_eq
  intro i _
  change (w &&& ~~~mask).getLsbD i = (0#32).getLsbD i
  rw [BitVec.getLsbD_and, BitVec.getLsbD_not, BitVec.getLsbD_zero]
  by_cases hi : i < n
  · simp [hmask i hi]
  · have hpow : 2 ^ n ≤ 2 ^ i := Nat.pow_le_pow_right Nat.two_pos (not_lt.mp hi)
    have hbit : w.getLsbD i = false := Nat.testBit_lt_two_pow (hw.trans_le hpow)
    rw [hbit, Bool.false_and]

/-- The bits of a register value. -/
theorem getLsbD_setupCustomFloat {mantissa exponenta : BitVec 32} (negative : Bool)
    (hm : mantissa.toNat < 2 ^ 12) (he : exponenta.toNat < 2 ^ 6) (k : ℕ) :
    (setupCustomFloat format612 negative mantissa exponenta).getLsbD k =
      (decide (k < 12) && mantissa.getLsbD k ||
        decide (12 ≤ k ∧ k < 18) && exponenta.getLsbD (k - 12) || decide (k = 18) && negative) := by
  have hmask : mantissa &&& ~~~(1#32 <<< (12 + 1) - 1) = 0 := and_not_mask hm _ (by decide)
  have hmask' : exponenta &&& ~~~(1#32 <<< (6 + 1) - 1) = 0 := and_not_mask he _ (by decide)
  have hsign : (1#32 <<< (12 + 6)).getLsbD k = decide (k = 18) := by
    rw [← BitVec.twoPow_eq, BitVec.getLsbD_twoPow]
    simp [eq_comm]
  have hvalue : (copyBits exponenta 12 6 (copyBits mantissa 0 12 0)).getLsbD k =
      (decide (k < 12) && mantissa.getLsbD k ||
        decide (12 ≤ k ∧ k < 18) && exponenta.getLsbD (k - 12)) := by
    rw [getLsbD_copyBits _ _ (by norm_num), getLsbD_copyBits _ _ (by norm_num)]
    simp
  simp only [setupCustomFloat, format612, hmask, hmask', ne_eq, not_true_eq_false, if_false,
    Bool.and_true]
  cases negative
  · rw [if_neg Bool.false_ne_true, hvalue, Bool.and_false, Bool.or_false]
  · rw [if_pos rfl, BitVec.getLsbD_or, hvalue, hsign, Bool.and_true]

/-- The fields of a register value. -/
theorem setupCustomFloat_fields {mantissa exponenta : BitVec 32} (negative : Bool)
    (hm : mantissa.toNat < 2 ^ 12) (he : exponenta.toNat < 2 ^ 6) :
    ((setupCustomFloat format612 negative mantissa exponenta).extractLsb' 0 12).toNat =
        mantissa.toNat ∧
      ((setupCustomFloat format612 negative mantissa exponenta).extractLsb' 12 6).toNat =
        exponenta.toNat ∧
      (setupCustomFloat format612 negative mantissa exponenta).getLsbD 18 = negative := by
  have hbits := getLsbD_setupCustomFloat negative hm he
  generalize setupCustomFloat format612 negative mantissa exponenta = w at hbits
  refine ⟨?_, ?_, by rw [hbits]; simp⟩
  · have hfield : w.extractLsb' 0 12 = mantissa.setWidth 12 := by
      apply BitVec.eq_of_getLsbD_eq
      intro i hi
      have hne : i ≠ 18 := by omega
      simp [hbits, hi, hne, not_le.mpr hi]
    rw [hfield, BitVec.toNat_setWidth, Nat.mod_eq_of_lt hm]
  · have hfield : w.extractLsb' 12 6 = exponenta.setWidth 6 := by
      apply BitVec.eq_of_getLsbD_eq
      intro i hi
      have hne : 12 + i ≠ 18 := by omega
      have hlt : 12 + i < 18 := by omega
      simp [hbits, hi, hne, hlt]
    rw [hfield, BitVec.toNat_setWidth, Nat.mod_eq_of_lt he]

/-- The number that the register value of the fields of a number stands for, by its magnitude. -/
theorem decode_fields {v : ℕ} {fields : BitVec 32 × BitVec 32} (h : FieldsOf v fields)
    (negative : Bool) :
    fields.2.toNat < 2 ^ 6 ∧ fields.1.toNat < 2 ^ 12 ∧ ∃ magnitude : ℚ,
      decodeCustomFloat (setupCustomFloat format612 negative fields.1 fields.2) =
          (if negative then -magnitude else magnitude) ∧
        (v < 4 → magnitude = 0) ∧
        (4 ≤ v → 0 < magnitude ∧
          |magnitude - (v : ℚ) / 2 ^ 32| ≤ 1 / 2 ^ 12 * ((v : ℚ) / 2 ^ 32)) := by
  have hbounds : fields.2.toNat < 2 ^ 6 ∧ fields.1.toNat < 2 ^ 12 := by
    rw [FieldsOf] at h
    split_ifs at h
    · rw [h]
      decide
    · exact ⟨h.2.1, h.2.2.1⟩
  obtain ⟨hmantissa, hexponenta, hsign⟩ :=
    setupCustomFloat_fields negative hbounds.2 hbounds.1
  refine ⟨hbounds.1, hbounds.2, if fields.2.toNat = 0 then 0
    else (1 + (fields.1.toNat : ℚ) / 2 ^ 12) * 2 ^ ((fields.2.toNat : ℤ) - 31), ?_, ?_, ?_⟩
  · simp only [decodeCustomFloat, hmantissa, hexponenta, hsign]
  · intro hv
    rw [FieldsOf, if_pos hv] at h
    rw [h]
    rfl
  · intro hv
    rw [FieldsOf, if_neg (by omega)] at h
    obtain ⟨hpos, -, -, herror⟩ := h
    rw [if_neg (by omega)]
    exact ⟨by positivity, herror⟩

/-- A number that is not zero is built from its sign and its magnitude. -/
theorem buildCustomFloat_eq {x : Fixed31_32} (h : x.toInt ≠ -2 ^ 63) (hne : x.toInt ≠ 0)
    (fuel : ℕ) : buildCustomFloat fuel x format612 =
      .ok ((buildMagnitude fuel format612 (ofMagnitude false topMantissa)
        (ofMagnitude false x.toInt.natAbs)).map fun m => (decide (x.toInt < 0), m)) := by
  have hbounds := x.toInt_bounds
  have htop : fromFraction (1#64 <<< (format612.mantissaBits + 1) - 1)
      (1#64 <<< format612.mantissaBits) = .ok (ofMagnitude false topMantissa) := by
    rw [fromFraction_eq _ (by decide)]
    decide
  have hzero : x ≠ zero := fun heq => hne (congrArg toInt heq)
  rw [buildCustomFloat, htop]
  by_cases hneg : x.toInt < 0
  · have hunits : neg x = ofMagnitude false x.toInt.natAbs := by
      apply ext_toInt
      rw [toInt_neg (by constructor <;> omega), toInt_units (by omega)]
      omega
    have hless : lt x zero = true := decide_eq_true hneg
    simp only [bind, Except.bind, if_neg hzero, hless, if_true, hunits, decide_eq_true hneg]
    rfl
  · have hunits : x = ofMagnitude false x.toInt.natAbs := by
      apply ext_toInt
      rw [toInt_units (by omega)]
      omega
    have hless : lt x zero = false := decide_eq_false hneg
    simp only [bind, Except.bind, if_neg hzero, hless, Bool.false_eq_true, if_false,
      decide_eq_false hneg]
    rw [← hunits]
    rfl

/-- The fields of every number but the most negative one, with its sign. -/
theorem buildCustomFloat_fields {x : Fixed31_32} (h : x.toInt ≠ -2 ^ 63) :
    ∃ fuel fields, buildCustomFloat fuel x format612 =
        .ok (some (decide (x.toInt < 0), fields)) ∧ FieldsOf x.toInt.natAbs fields := by
  have hbounds := x.toInt_bounds
  by_cases hne : x.toInt = 0
  · obtain rfl : x = zero := ext_toInt hne
    exact ⟨0, (0, 0), by decide +kernel, by rw [FieldsOf, if_pos (by decide)]⟩
  · obtain ⟨fuel, fields, hrun, hfields⟩ :=
      @buildMagnitude_fields x.toInt.natAbs (by omega) (by omega)
    refine ⟨fuel, fields, ?_, hfields⟩
    rw [buildCustomFloat_eq h hne, hrun]
    rfl

/-- **Custom floating-point numbers.** For every number but the most negative one, both loops end
and the exponent fits into its bits. The number that the register value stands for is the number up
to a relative error of 2^-12 and has its sign; a magnitude below 2^-30 becomes zero. -/
theorem customFloat_accurate (x : Fixed31_32) (h : x.toInt ≠ -2 ^ 63) :
    ∃ fuel c, convertToCustomFloatFormatEx fuel x format612 = .ok (some c) ∧
      c.exponenta.toNat < 2 ^ 6 ∧ c.mantissa.toNat < 2 ^ 12 ∧
      (|(x.toInt : ℚ) / 2 ^ 32| < 1 / 2 ^ 30 → decodeCustomFloat c.value = 0) ∧
      (1 / 2 ^ 30 ≤ |(x.toInt : ℚ) / 2 ^ 32| →
        |decodeCustomFloat c.value - (x.toInt : ℚ) / 2 ^ 32| ≤
            1 / 2 ^ 12 * |(x.toInt : ℚ) / 2 ^ 32| ∧
          (0 < decodeCustomFloat c.value ↔ 0 < x.toInt) ∧
          (decodeCustomFloat c.value < 0 ↔ x.toInt < 0)) := by
  obtain ⟨fuel, fields, hbuild, hfields⟩ := buildCustomFloat_fields h
  obtain ⟨hexponenta, hmantissa, magnitude, hdecode, hsmall, hlarge⟩ :=
    decode_fields hfields (decide (x.toInt < 0))
  have habs : |(x.toInt : ℚ) / 2 ^ 32| = (x.toInt.natAbs : ℚ) / 2 ^ 32 := by
    rw [abs_div, Nat.cast_natAbs, Int.cast_abs, abs_of_pos (show (0 : ℚ) < 2 ^ 32 by norm_num)]
  refine ⟨fuel, ⟨fields.1, fields.2, setupCustomFloat format612 (decide (x.toInt < 0)) fields.1
    fields.2, decide (x.toInt < 0)⟩, ?_, hexponenta, hmantissa, ?_, ?_⟩
  · rw [convertToCustomFloatFormatEx, hbuild]
    rfl
  · intro hlt
    rw [habs, div_lt_div_iff₀ (by norm_num) (by norm_num)] at hlt
    have hv : x.toInt.natAbs < 4 := by
      have hcast : (x.toInt.natAbs : ℚ) < 4 := by linarith
      exact_mod_cast hcast
    simp only [hdecode, hsmall hv, neg_zero, ite_self]
  · intro hle
    rw [habs, div_le_div_iff₀ (by norm_num) (by norm_num)] at hle
    have hv : 4 ≤ x.toInt.natAbs := by
      have hcast : (4 : ℚ) ≤ x.toInt.natAbs := by linarith
      exact_mod_cast hcast
    obtain ⟨hpos, herror⟩ := hlarge hv
    simp only [hdecode]
    by_cases hneg : x.toInt < 0
    · have hx : (x.toInt : ℚ) = -(x.toInt.natAbs : ℚ) := by
        rw [Nat.cast_natAbs, Int.cast_abs, abs_of_neg (Int.cast_lt_zero.mpr hneg), neg_neg]
      rw [decide_eq_true hneg, if_pos rfl, habs]
      refine ⟨?_, iff_of_false (by linarith) (by omega), iff_of_true (by linarith) hneg⟩
      rw [hx, ← abs_neg]
      convert herror using 2
      ring
    · have hx : (x.toInt : ℚ) = (x.toInt.natAbs : ℚ) := by
        rw [Nat.cast_natAbs, Int.cast_abs, abs_of_nonneg (Int.cast_nonneg (not_lt.mp hneg))]
      rw [decide_eq_false hneg, if_neg Bool.false_ne_true, habs, hx]
      exact ⟨herror, iff_of_true hpos (by omega), iff_of_false (by linarith) hneg⟩

/-- Minus one and a half. -/
theorem customFloat_accurate_example :
    ∃ fuel c, convertToCustomFloatFormatEx fuel ⟨-0x180000000⟩ format612 = .ok (some c) ∧
      c.exponenta.toNat < 2 ^ 6 ∧ c.mantissa.toNat < 2 ^ 12 := by
  obtain ⟨fuel, c, hrun, hexponenta, hmantissa, -⟩ :=
    customFloat_accurate ⟨-0x180000000⟩ (by decide)
  exact ⟨fuel, c, hrun, hexponenta, hmantissa⟩

end Dc
