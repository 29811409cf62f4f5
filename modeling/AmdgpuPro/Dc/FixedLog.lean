import AmdgpuPro.Dc.FixedExp
import AmdgpuPro.Lib.NewtonLog
import AmdgpuPro.Lib.While

set_option autoImplicit false

/-!
# The logarithm of fixed-point numbers

`dal_fixed31_32_log` is Newton's method for the zero of `exp res - arg`, from the estimate minus one
on. It stops when an estimate differs from the one before it by at most one hundred units.

After the first round, no estimate is much below the logarithm (`NewtonLog.le_exp_next`). An
estimate above it is followed by a smaller one. The loop can therefore only go on for ever if it
jumps up by more than one hundred units, from an estimate whose exponential is less than the
argument. One unit less is enough for that if the argument is less than the hundredth part of one;
more than one unit less it never is there. The loop ends if the jump leads to a number whose
exponential is the argument. If that is one unit more, the next round may lead back.

The other danger is the first round: it takes the estimate up by the argument times Euler's number,
and the exponential of that soon does not fit.

## Main definitions

* `Dc.Fixed31_32.logRound`, `log` — a round of the loop, and the logarithm.
* `Regime`, `Estimate` — the bounds that the loop keeps.
* `Overshoots`, `Alternates` — what happens after a jump.

## Main results

* `Dc.Fixed31_32.logInvariant_next`, `smallInvariant_next` — the invariants of the loop, for an
  argument that is not small and for a small one.
* `not_logEnds_of_alternates` — a loop that does not end.
* `log_safe` — where the logarithm ends without a fault.
* `log_accurate` — where it is accurate.
-/

namespace Dc

namespace Fixed31_32

/-- The body of the loop of `dal_fixed31_32_log`: the new `res` and `error`. -/
def logRound (arg res : Fixed31_32) : Except Fault (Fixed31_32 × Fixed31_32) := do
  let expRes ← exp res
  let quotient ← div arg expRes
  let res1 := add (sub res one) quotient
  pure (res1, sub res res1)

/-- The condition of the loop. A fault ends it. -/
def logAgain : Except Fault (Fixed31_32 × Fixed31_32) → Bool
  | .ok s => 100 < absI64 s.2.value
  | .error _ => false

/-- The next round of the loop. -/
def logNext (arg : Fixed31_32) (s : Except Fault (Fixed31_32 × Fixed31_32)) :
    Except Fault (Fixed31_32 × Fixed31_32) :=
  s >>= fun s => logRound arg s.1

/-- `dal_fixed31_32_log`, for at most so many rounds after the first one. -/
def log (fuel : ℕ) (arg : Fixed31_32) : Option (Except Fault Fixed31_32) :=
  (While.loop logAgain (logNext arg) fuel (logRound arg (neg one))).map fun s => s.map Prod.fst

/-- The loop calls the exponential function with this argument. -/
def CallsExp (arg x : Fixed31_32) : Prop :=
  x = neg one ∨ ∃ error, While.Visits logAgain (logNext arg) (logRound arg (neg one))
    (.ok (x, error)) ∧ logAgain (.ok (x, error)) = true

section Round

variable {arg x x' e : Fixed31_32}

/-- A round takes the estimate to the next one, with the exponential and the quotient rounded. -/
structure Next (arg x e x' : Fixed31_32) : Prop where
  exp_eq : exp x = .ok e
  pos : 0 < e.toInt
  round_eq : logRound arg x = .ok (x', sub x x')
  toInt_eq : x'.toInt =
    x.toInt - 2 ^ 32 + Rounding.divNat (arg.toInt.natAbs * 2 ^ 32) e.toInt.natAbs
  error_eq : (sub x x').toInt = x.toInt - x'.toInt

/-- A round without faults, if the quotient fits. -/
theorem exists_next (hexp : exp x = .ok e) (hpos : 0 < e.toInt) (harg : 0 < arg.toInt)
    (hx : -2 ^ 40 ≤ x.toInt ∧ x.toInt ≤ 2 ^ 40)
    (hquot : Rounding.divNat (arg.toInt.natAbs * 2 ^ 32) e.toInt.natAbs < 2 ^ 63)
    (hfits : x.toInt - 2 ^ 32 +
      Rounding.divNat (arg.toInt.natAbs * 2 ^ 32) e.toInt.natAbs < 2 ^ 63) :
    ∃ x', Next arg x e x' := by
  have hne : e.value ≠ 0 := by
    intro hzero
    rw [toInt, hzero] at hpos
    exact absurd hpos (by decide)
  have hsign : (arg.value.slt 0 ^^ e.value.slt 0) = false := by
    have harg' : arg.value.slt 0 = false := decide_eq_false (not_lt.mpr harg.le)
    have he : e.value.slt 0 = false := decide_eq_false (not_lt.mpr hpos.le)
    rw [harg', he]
    rfl
  have hdiv : div arg e = .ok (ofMagnitude false
      (Rounding.divNat (arg.toInt.natAbs * 2 ^ 32) e.toInt.natAbs)) := by
    rw [div, fromFraction_eq _ hne, hsign]
    rfl
  generalize hD : Rounding.divNat (arg.toInt.natAbs * 2 ^ 32) e.toInt.natAbs = D at *
  have hone : one.toInt = 2 ^ 32 := by decide
  have hsub : (sub x one).toInt = x.toInt - 2 ^ 32 := by
    rw [toInt_sub, hone]
    rw [hone]
    constructor <;> omega
  have hadd : (add (sub x one) (ofMagnitude false D)).toInt = x.toInt - 2 ^ 32 + D := by
    rw [toInt_add, hsub, toInt_units hquot]
    rw [hsub, toInt_units hquot]
    constructor <;> omega
  refine ⟨add (sub x one) (ofMagnitude false D), hexp, hpos, ?_, hD ▸ hadd, ?_⟩
  · rw [logRound, hexp]
    change (div arg e >>= _) = _
    rw [hdiv]
    rfl
  · rw [toInt_sub]
    rw [hadd]
    constructor <;> omega

namespace Next

/-- In real numbers, a round is a step of Newton's method up to half a unit. -/
theorem abs_sub_le (h : Next arg x e x') (harg : 0 < arg.toInt) :
    |(x'.toInt : ℝ) / 2 ^ 32 - ((x.toInt : ℝ) / 2 ^ 32 - 1 +
      (arg.toInt : ℝ) / 2 ^ 32 / ((e.toInt : ℝ) / 2 ^ 32))| ≤ 1 / 2 / 2 ^ 32 := by
  have hpos := h.pos
  have hround : |(Rounding.divNat (arg.toInt.natAbs * 2 ^ 32) e.toInt.natAbs : ℝ) -
      arg.toInt * 2 ^ 32 / e.toInt| ≤ 1 / 2 := by
    have hle := Rounding.abs_away_sub_le
      (((arg.toInt.natAbs * 2 ^ 32 : ℕ) : ℝ) / (e.toInt.natAbs : ℕ))
    rw [Rounding.away_natCast_div _ (by omega)] at hle
    have hcast {z : ℤ} (hz : 0 < z) : ((z.natAbs : ℕ) : ℝ) = z := by
      rw [Nat.cast_natAbs, abs_of_pos hz]
    rwa [Int.cast_natCast, Nat.cast_mul, hcast harg, hcast hpos, Nat.cast_pow,
      Nat.cast_ofNat] at hle
  have heq : (x'.toInt : ℝ) / 2 ^ 32 - ((x.toInt : ℝ) / 2 ^ 32 - 1 +
      (arg.toInt : ℝ) / 2 ^ 32 / ((e.toInt : ℝ) / 2 ^ 32)) =
      ((Rounding.divNat (arg.toInt.natAbs * 2 ^ 32) e.toInt.natAbs : ℝ) -
        arg.toInt * 2 ^ 32 / e.toInt) / 2 ^ 32 := by
    have hne : (e.toInt : ℝ) ≠ 0 := by exact_mod_cast hpos.ne'
    rw [h.toInt_eq]
    push_cast
    field_simp
    ring
  rw [heq, abs_div, abs_of_pos (show (0 : ℝ) < 2 ^ 32 by norm_num)]
  exact div_le_div_of_nonneg_right hround (by norm_num)

/-- What the exponential of the next estimate is at least, in units. -/
theorem le_exp (h : Next arg x e x') (harg : 0 < arg.toInt) {K : ℝ} (hK : 0 ≤ K) (hK' : K ≤ 47)
    (hone : 1 ≤ 2 ^ 32 * Real.exp ((x.toInt : ℝ) / 2 ^ 32))
    (hle : (e.toInt : ℝ) ≤ 2 ^ 32 * Real.exp ((x.toInt : ℝ) / 2 ^ 32) +
      (Real.exp ((x.toInt : ℝ) / 2 ^ 32) * K + 1 / 2)) :
    arg.toInt - (K + 1 / 2) * (arg.toInt / 2 ^ 32) -
        arg.toInt / (2 * (2 ^ 32 * Real.exp ((x.toInt : ℝ) / 2 ^ 32))) ≤
      2 ^ 32 * Real.exp ((x'.toInt : ℝ) / 2 ^ 32) := by
  have hnext := (abs_le.mp (h.abs_sub_le harg)).1
  have hpos : (0 : ℝ) < e.toInt := by exact_mod_cast h.pos
  have harg' : (0 : ℝ) < arg.toInt := by exact_mod_cast harg
  generalize (x.toInt : ℝ) / 2 ^ 32 = X at *
  generalize (x'.toInt : ℝ) / 2 ^ 32 = X' at *
  generalize (e.toInt : ℝ) = E at *
  generalize (arg.toInt : ℝ) = A at *
  have hX := Real.exp_pos X
  have hhalf : 1 / (2 * (2 ^ 32 * Real.exp X)) ≤ 1 / 2 := by
    rw [div_le_div_iff₀ (by positivity) (by norm_num)]
    linarith
  have hrelative : E / 2 ^ 32 ≤
      Real.exp X * (1 + (K / 2 ^ 32 + 1 / (2 * (2 ^ 32 * Real.exp X)))) := by
    have heq : Real.exp X * (1 + (K / 2 ^ 32 + 1 / (2 * (2 ^ 32 * Real.exp X)))) =
        (2 ^ 32 * Real.exp X + (Real.exp X * K + 1 / 2)) / 2 ^ 32 := by
      field_simp
    rw [heq]
    exact div_le_div_of_nonneg_right hle (by norm_num)
  have hnewton := NewtonLog.le_exp_next (a := A / 2 ^ 32) (by positivity) (by positivity)
    (by linarith) hrelative (show (1 / 2 / 2 ^ 32 : ℝ) ≤ 1 by norm_num)
    (show X - 1 + A / 2 ^ 32 / (E / 2 ^ 32) - 1 / 2 / 2 ^ 32 ≤ X' by linarith)
  have hsplit : A / (2 * (2 ^ 32 * Real.exp X)) = A * (1 / (2 * (2 ^ 32 * Real.exp X))) := by ring
  have hmixed : 0 ≤ A * (K / 2 ^ 32 + 1 / (2 * (2 ^ 32 * Real.exp X))) * (1 / 2 / 2 ^ 32) := by
    positivity
  rw [hsplit]
  linarith

end Next

end Round

/-! ## The estimates -/

/-- What is fixed while the loop runs: all estimates but the last one are at most `top`, the
exponential function has a relative error of at most `K` units there, and that is small enough for
the argument. -/
structure Regime (A top : ℤ) (K : ℝ) : Prop where
  low : 42735994 ≤ A
  high : A ≤ 37111057489
  top_le : top ≤ 92288378597
  le_error : 14 ≤ K
  error_le : K ≤ 47
  relative : ∀ x : ℤ, -(7 * 2 ^ 32) ≤ x → x ≤ top → 4 + 2 * |(x : ℝ) / 2 ^ 32| ≤ K
  first : (Rounding.divNat (A.natAbs * 2 ^ 32) 1580030169 : ℤ) ≤ top + 2 * 2 ^ 32
  /-- Either the exponential is at least the argument less one unit, or the argument is so large
  that the error is less than the quotient shows. -/
  budget : (2 * K + 1) * (A / 2 ^ 32) + 101 / 100 < 2 ∨
    (2 * K + 1) * (A / 2 ^ 32) + 101 / 100 ≤ 502 / 5 * ((A : ℝ) / 2 ^ 32)

/-- A bound in units. -/
theorem abs_cast_div_le {x : ℤ} {b : ℝ} (hlow : -b * 2 ^ 32 ≤ x) (hhigh : x ≤ b * 2 ^ 32) :
    |(x : ℝ) / 2 ^ 32| ≤ b := by
  rw [abs_div, abs_of_pos (show (0 : ℝ) < 2 ^ 32 by norm_num), div_le_iff₀ (by norm_num), abs_le]
  constructor <;> linarith

/-- The error of the exponential function of any estimate, by a common bound. -/
theorem exp_close_uniform {x : Fixed31_32} (hlow : -90799856365 ≤ x.toInt)
    (hhigh : x.toInt ≤ 92288378597) :
    ∃ e, exp x = .ok e ∧ |(e.toInt : ℝ) - 2 ^ 32 * Real.exp (x.toInt / 2 ^ 32)| ≤
      Real.exp (x.toInt / 2 ^ 32) * 47 + 1 / 2 := by
  obtain ⟨e, he, hclose⟩ := exp_close hlow hhigh
  refine ⟨e, he, hclose.trans
    (add_le_add (mul_le_mul_of_nonneg_left ?_ (Real.exp_pos _).le) le_rfl)⟩
  have hlow' : (-90799856365 : ℝ) ≤ x.toInt := by exact_mod_cast hlow
  have hhigh' : (x.toInt : ℝ) ≤ 92288378597 := by exact_mod_cast hhigh
  have := @abs_cast_div_le x.toInt (43 / 2) (by linarith) (by linarith)
  linarith

/-- There is such a bound for the estimates, and for the error, unless the argument is small. -/
theorem exists_regime {A : ℤ} (hlow : 42735994 ≤ A) (hhigh : A ≤ 37111057489) :
    ∃ top K, Regime A top K := by
  have hlow' : (42735994 : ℝ) ≤ A := by exact_mod_cast hlow
  by_cases hsmall : A ≤ 858993459
  · have hsmall' : (A : ℝ) ≤ 858993459 := by exact_mod_cast hsmall
    refine ⟨2 ^ 32, 18, hlow, hhigh, by norm_num, by norm_num, by norm_num, ?_, ?_, ?_⟩
    · intro x hx hx'
      have hx : (-(7 * 2 ^ 32) : ℝ) ≤ x := by exact_mod_cast hx
      have hx' : (x : ℝ) ≤ 2 ^ 32 := by exact_mod_cast hx'
      have := @abs_cast_div_le x 7 (by linarith) (by linarith)
      linarith
    · have hle : Rounding.divNat (A.natAbs * 2 ^ 32) 1580030169 ≤ 2 ^ 32 :=
        Rounding.divNat_le (by norm_num) (by omega)
      omega
    · by_cases hA : (A : ℝ) ≤ 100000000
      · exact Or.inl (by linarith)
      · exact Or.inr (by linarith)
  · have hlarge : (858993459 : ℝ) ≤ A := by exact_mod_cast (not_le.mp hsmall).le
    refine ⟨92288378597, 47, hlow, hhigh, le_rfl, by norm_num, le_rfl, ?_, ?_, ?_⟩
    · intro x hx hx'
      have hx : (-(7 * 2 ^ 32) : ℝ) ≤ x := by exact_mod_cast hx
      have hx' : (x : ℝ) ≤ 92288378597 := by exact_mod_cast hx'
      have := @abs_cast_div_le x (43 / 2) (by linarith) (by linarith)
      linarith
    · rw [Rounding.divNat]
      omega
    · exact Or.inr (by linarith)

/-- An estimate is at most `top` and not much less than the logarithm. -/
structure Estimate (A top : ℤ) (K : ℝ) (x : ℤ) : Prop where
  le_top : x ≤ top
  le_exp : A - (K + 1) * (A / 2 ^ 32) - 501 / 1000 ≤ 2 ^ 32 * Real.exp ((x : ℝ) / 2 ^ 32)

namespace Regime

variable {A top : ℤ} {K : ℝ} {x : ℤ}

/-- An estimate's exponential is almost the argument. -/
theorem le_exp (h : Regime A top K)
    (hx : A - (K + 1) * (A / 2 ^ 32) - 501 / 1000 ≤ 2 ^ 32 * Real.exp ((x : ℝ) / 2 ^ 32)) :
    999 / 1000 * (A : ℝ) ≤ 2 ^ 32 * Real.exp ((x : ℝ) / 2 ^ 32) := by
  have hlow : (42735994 : ℝ) ≤ A := by exact_mod_cast h.low
  have hmul : (K + 1) * ((A : ℝ) / 2 ^ 32) ≤ 48 * (A / 2 ^ 32) :=
    mul_le_mul_of_nonneg_right (by linarith [h.error_le]) (by positivity)
  linarith

/-- An estimate is not below minus seven. -/
theorem low_le (h : Regime A top K)
    (hx : A - (K + 1) * (A / 2 ^ 32) - 501 / 1000 ≤ 2 ^ 32 * Real.exp ((x : ℝ) / 2 ^ 32)) :
    -(7 * 2 ^ 32) ≤ x := by
  by_contra hlt
  have hle := h.le_exp hx
  have hlow : (42735994 : ℝ) ≤ A := by exact_mod_cast h.low
  have hx' : (x : ℝ) ≤ -(7 * 2 ^ 32) := by exact_mod_cast (not_le.mp hlt).le
  have hexp : Real.exp ((x : ℝ) / 2 ^ 32) ≤ Real.exp (-7) := by
    refine Real.exp_le_exp.mpr ?_
    rw [div_le_iff₀ (by norm_num)]
    linarith
  have hseven : Real.exp (-7) * 1090 ≤ 1 := by
    have hpow : (1090 : ℝ) ≤ Real.exp 7 := by
      have hone := Real.exp_one_gt_d9
      calc (1090 : ℝ) ≤ 2.7182818283 ^ 7 := by norm_num
        _ ≤ Real.exp 1 ^ 7 := pow_le_pow_left₀ (by norm_num) hone.le 7
        _ = Real.exp 7 := by rw [← Real.exp_nat_mul]; norm_num
    calc Real.exp (-7) * 1090 ≤ Real.exp (-7) * Real.exp 7 :=
          mul_le_mul_of_nonneg_left hpow (Real.exp_pos _).le
      _ = 1 := by rw [← Real.exp_add, neg_add_cancel, Real.exp_zero]
  linarith

variable {arg y e : Fixed31_32}

/-- The exponential function of an estimate. -/
theorem exists_exp (h : Regime A top K) (hlow : -(7 * 2 ^ 32) ≤ y.toInt) (htop : y.toInt ≤ top) :
    ∃ e, exp y = .ok e ∧ |(e.toInt : ℝ) - 2 ^ 32 * Real.exp (y.toInt / 2 ^ 32)| ≤
      Real.exp (y.toInt / 2 ^ 32) * K + 1 / 2 := by
  have htop_le := h.top_le
  obtain ⟨e, he, hclose⟩ := exp_close (x := y) (by omega) (by omega)
  refine ⟨e, he, hclose.trans (add_le_add ?_ le_rfl)⟩
  exact mul_le_mul_of_nonneg_left (h.relative _ hlow htop) (Real.exp_pos _).le

/-- The computed exponential of an estimate. -/
theorem le_of_close (h : Regime A top K) (hy : Estimate A top K y.toInt)
    (hclose : |(e.toInt : ℝ) - 2 ^ 32 * Real.exp (y.toInt / 2 ^ 32)| ≤
      Real.exp (y.toInt / 2 ^ 32) * K + 1 / 2) :
    A - (2 * K + 1) * ((A : ℝ) / 2 ^ 32) - 101 / 100 ≤ e.toInt := by
  have hlow : (42735994 : ℝ) ≤ A := by exact_mod_cast h.low
  have hK := h.error_le
  have hK' := h.le_error
  have hle := hy.le_exp
  have hge := (abs_le.mp hclose).1
  generalize Real.exp ((y.toInt : ℝ) / 2 ^ 32) = w at *
  -- The relative error takes the same from all that is above the lower bound.
  have hmul : (A - (K + 1) * (A / 2 ^ 32) - 501 / 1000) * (1 - K / 2 ^ 32) ≤
      2 ^ 32 * w * (1 - K / 2 ^ 32) := mul_le_mul_of_nonneg_right hle (by linarith)
  have hmixed : 0 ≤ ((K + 1) * ((A : ℝ) / 2 ^ 32) + 501 / 1000) * (K / 2 ^ 32) := by positivity
  linarith

/-- The quotient is more than one by at most one hundred units. -/
theorem quotient_le (h : Regime A top K) (hpos : 0 < e.toInt)
    (hle : A - (2 * K + 1) * ((A : ℝ) / 2 ^ 32) - 101 / 100 ≤ e.toInt) :
    Rounding.divNat (A.natAbs * 2 ^ 32) e.toInt.natAbs ≤ 2 ^ 32 + 100 := by
  have hlow := h.low
  by_contra hlt
  have hdiv : 2 ^ 32 + 101 ≤ (2 * (A.natAbs * 2 ^ 32) + e.toInt.natAbs) / (2 * e.toInt.natAbs) := by
    rw [← Rounding.divNat]
    omega
  rw [Nat.le_div_iff_mul_le (by omega)] at hdiv
  rcases h.budget with hbudget | hbudget
  · have hge : (A : ℝ) - 2 < e.toInt := by linarith
    have hge' : A - 2 < e.toInt := by exact_mod_cast hge
    omega
  · have hge : (A : ℝ) * (5 * 2 ^ 32 - 502) ≤ e.toInt * (5 * 2 ^ 32) := by linarith
    have hge' : A * (5 * 2 ^ 32 - 502) ≤ e.toInt * (5 * 2 ^ 32) := by exact_mod_cast hge
    omega

/-- **One round** takes an estimate to a number that is not much larger, and not much less than the
logarithm. -/
theorem step (h : Regime A top K) (harg : arg.toInt = A) (hy : Estimate A top K y.toInt) :
    ∃ e y', Next arg y e y' ∧
      A - (K + 1) * (A / 2 ^ 32) - 501 / 1000 ≤ 2 ^ 32 * Real.exp ((y'.toInt : ℝ) / 2 ^ 32) ∧
      y'.toInt ≤ y.toInt + 100 := by
  have hA := h.low
  have hA' : (42735994 : ℝ) ≤ A := by exact_mod_cast h.low
  have hlow := h.low_le hy.le_exp
  have htop := hy.le_top
  have htop_le := h.top_le
  have hexp := h.le_exp hy.le_exp
  obtain ⟨e, he, hclose⟩ := h.exists_exp hlow htop
  have hge := h.le_of_close hy hclose
  have hpos : 0 < e.toInt := by
    have hmul : (2 * K + 1) * ((A : ℝ) / 2 ^ 32) ≤ 95 * (A / 2 ^ 32) :=
      mul_le_mul_of_nonneg_right (by linarith [h.error_le]) (by positivity)
    have : (0 : ℝ) < e.toInt := by linarith
    exact_mod_cast this
  have hquot := h.quotient_le hpos hge
  rw [← harg] at hquot
  obtain ⟨y', hnext⟩ := exists_next he hpos (show 0 < arg.toInt by omega) (by omega) (by omega)
    (by omega)
  have heq := hnext.toInt_eq
  refine ⟨e, y', hnext, ?_, by omega⟩
  · have hle := hnext.le_exp (by omega) (by linarith [h.le_error]) h.error_le (by linarith)
      (by linarith [(abs_le.mp hclose).2])
    rw [harg] at hle
    have hhalf : (A : ℝ) / (2 * (2 ^ 32 * Real.exp ((y.toInt : ℝ) / 2 ^ 32))) ≤ 501 / 1000 := by
      rw [div_le_iff₀ (by positivity)]
      linarith
    have : (0 : ℝ) ≤ A / 2 ^ 32 := by positivity
    linarith

end Regime

/-- The exponential of the first estimate. -/
theorem exp_neg_one : exp (neg one) = .ok ⟨1580030169⟩ := by
  decide +kernel

/-- The first estimate, in units. -/
theorem neg_one_toInt : (neg one).toInt = -2 ^ 32 := by decide

/-- **The first round.** -/
theorem exists_first {arg : Fixed31_32} (hpos : 0 < arg.toInt)
    (hlt : arg.toInt < 1580030169 * 2 ^ 31) :
    ∃ x, Next arg (neg one) ⟨1580030169⟩ x ∧
      x.toInt = Rounding.divNat (arg.toInt.natAbs * 2 ^ 32) 1580030169 - 2 * 2 ^ 32 := by
  have hquot : Rounding.divNat (arg.toInt.natAbs * 2 ^ 32) 1580030169 < 2 ^ 63 := by
    rw [Rounding.divNat]
    omega
  have htoInt : (mk 1580030169).toInt.natAbs = 1580030169 := by decide
  have hone := neg_one_toInt
  obtain ⟨x, hnext⟩ := exists_next exp_neg_one (by decide) hpos (by omega)
    (by rw [htoInt]; exact hquot) (by rw [htoInt]; omega)
  refine ⟨x, hnext, ?_⟩
  have heq := hnext.toInt_eq
  rw [htoInt, hone] at heq
  omega

namespace Regime

variable {A top : ℤ} {K : ℝ} {arg : Fixed31_32}

/-- The first round leads to an estimate. -/
theorem first_step (h : Regime A top K) (harg : arg.toInt = A) :
    ∃ x, Next arg (neg one) ⟨1580030169⟩ x ∧ Estimate A top K x.toInt := by
  have hlow := h.low
  have hhigh := h.high
  have hfirst := h.first
  obtain ⟨x, hnext, heq⟩ := @exists_first arg (by omega) (by omega)
  refine ⟨x, hnext, ?_, ?_⟩
  · rw [harg] at heq
    omega
  · have hA : (42735994 : ℝ) ≤ A := by exact_mod_cast hlow
    have hone : ((neg one).toInt : ℝ) / 2 ^ 32 = -1 := by
      rw [neg_one_toInt]
      norm_num
    obtain ⟨e, he, hclose⟩ := exp_close (x := neg one) (by decide) (by decide)
    obtain rfl : ⟨1580030169⟩ = e := Except.ok.inj (exp_neg_one.symm.trans he)
    have hthree : 1 ≤ 3 * Real.exp (-1) := by
      have hlt := Real.exp_one_lt_d9
      calc 1 = Real.exp 1 * Real.exp (-1) := by rw [← Real.exp_add, add_neg_cancel, Real.exp_zero]
        _ ≤ 3 * Real.exp (-1) :=
          mul_le_mul_of_nonneg_right (by linarith) (Real.exp_pos _).le
    rw [hone] at hclose
    have hle := hnext.le_exp (by omega) (show (0 : ℝ) ≤ 6 by norm_num) (by norm_num)
      (by rw [hone]; linarith) (by
        rw [hone]
        have := (abs_le.mp hclose).2
        norm_num at this ⊢
        linarith)
    rw [hone, harg] at hle
    have hhalf : (A : ℝ) / (2 * (2 ^ 32 * Real.exp (-1))) ≤ 3 / 2 * (A / 2 ^ 32) := by
      rw [div_le_iff₀ (by positivity)]
      have := mul_le_mul_of_nonneg_left hthree (show (0 : ℝ) ≤ A by linarith)
      linarith
    have hmul : 14 * ((A : ℝ) / 2 ^ 32) ≤ K * (A / 2 ^ 32) :=
      mul_le_mul_of_nonneg_right h.le_error (by positivity)
    have : (0 : ℝ) ≤ A / 2 ^ 32 := by positivity
    linarith

end Regime

/-! ## The loop -/

/-- The state after a round from one number to another, for both of which the exponential function
is accurate. -/
structure Rounded (arg : Fixed31_32) (s : Fixed31_32 × Fixed31_32) : Prop where
  low : -90799856365 ≤ s.1.toInt
  next : ∃ x e, -90799856365 ≤ x.toInt ∧ x.toInt ≤ 92288378597 ∧ Next arg x e s.1 ∧
    s.2 = sub x s.1

/-- The state after a round, with an estimate if the loop goes on. -/
structure Reached (arg : Fixed31_32) (top : ℤ) (K : ℝ) (s : Fixed31_32 × Fixed31_32) : Prop
    extends Rounded arg s where
  le_exp : arg.toInt - (K + 1) * (arg.toInt / 2 ^ 32) - 501 / 1000 ≤
    2 ^ 32 * Real.exp ((s.1.toInt : ℝ) / 2 ^ 32)
  le_top : logAgain (.ok s) = true → s.1.toInt ≤ top

/-- The loop has not come to a fault. -/
def LogInvariant (arg : Fixed31_32) (top : ℤ) (K : ℝ)
    (s : Except Fault (Fixed31_32 × Fixed31_32)) : Prop :=
  ∃ t, s = .ok t ∧ Reached arg top K t

/-- How far the estimate is above its lower bound, if the loop goes on. -/
def logMeasure (s : Except Fault (Fixed31_32 × Fixed31_32)) : ℕ :=
  match s with
  | .ok s => if logAgain (.ok s) then (s.1.toInt + 2 ^ 37).toNat else 0
  | .error _ => 0

/-- Another round follows if the estimate has changed by more than one hundred units. -/
theorem logAgain_iff {arg x e x' : Fixed31_32} (h : Next arg x e x') :
    logAgain (.ok (x', sub x x')) = true ↔ 100 < (x.toInt - x'.toInt).natAbs := by
  have hlt : 100 < absI64 (sub x x').value ↔ 100 < (absI64 (sub x x').value).toNat := BitVec.lt_def
  rw [logAgain, decide_eq_true_eq, hlt, absI64_toNat, ← h.error_eq]
  rfl

section Loop

variable {arg : Fixed31_32} {top : ℤ} {K : ℝ}

/-- The first round establishes the invariant. -/
theorem logInvariant_first (hregime : Regime arg.toInt top K) :
    LogInvariant arg top K (logRound arg (neg one)) := by
  obtain ⟨x, hnext, hestimate⟩ := hregime.first_step (Eq.refl arg.toInt)
  have hone := neg_one_toInt
  have hlow := hregime.low_le hestimate.le_exp
  exact ⟨_, hnext.round_eq, ⟨show _ ≤ x.toInt by omega,
    neg one, ⟨1580030169⟩, by omega, by omega, hnext, rfl⟩, hestimate.le_exp,
    fun _ => hestimate.le_top⟩

/-- **A round keeps the invariant**, and then the loop ends or the estimate is smaller. -/
theorem logInvariant_next (hregime : Regime arg.toInt top K)
    {s : Except Fault (Fixed31_32 × Fixed31_32)} (h : LogInvariant arg top K s)
    (hagain : logAgain s = true) :
    LogInvariant arg top K (logNext arg s) ∧ logMeasure (logNext arg s) < logMeasure s := by
  obtain ⟨t, rfl, ht⟩ := h
  have htop := ht.le_top hagain
  have htop_le := hregime.top_le
  have hlow := hregime.low_le ht.le_exp
  obtain ⟨e, x', hnext, hle, hgrow⟩ := hregime.step (Eq.refl arg.toInt) ⟨htop, ht.le_exp⟩
  have hlow' := hregime.low_le hle
  have hstep : logNext arg (.ok t) = .ok (x', sub t.1 x') := hnext.round_eq
  have hiff := logAgain_iff hnext
  rw [hstep]
  refine ⟨⟨_, rfl, ⟨show _ ≤ x'.toInt by omega, t.1, e, by omega, by omega, hnext, rfl⟩, hle,
    fun hagain' => ?_⟩, ?_⟩
  · rw [hiff] at hagain'
    change x'.toInt ≤ top
    omega
  · rw [logMeasure, logMeasure, if_pos hagain]
    split_ifs with hagain'
    · rw [hiff] at hagain'
      change (x'.toInt + 2 ^ 37).toNat < _
      omega
    · omega

/-- The loop ends. -/
def LogEnds (arg : Fixed31_32) : Prop :=
  While.Ends logAgain (logNext arg) (logRound arg (neg one))

end Loop

/-! ## Small arguments -/

/-- How far a round takes up an estimate whose exponential is one unit less than the argument. -/
def jump (arg : Fixed31_32) : ℤ :=
  Rounding.divNat (arg.toInt.natAbs * 2 ^ 32) (arg.toInt - 1).natAbs - 2 ^ 32

/-- The exponential of an estimate is one unit less than the argument, and that of the number the
round leads to is not the argument. -/
def Overshoots (arg x : Fixed31_32) : Prop :=
  (∃ e, exp x = .ok e ∧ e.toInt = arg.toInt - 1) ∧
    ∀ x', x'.toInt = x.toInt + jump arg → exp x' ≠ .ok arg

/-- No round on the way does that. -/
def NeverOvershoots (arg : Fixed31_32) : Prop := ∀ x, CallsExp arg x → ¬ Overshoots arg x

/-- The round leads to a number whose exponential is one unit more than the argument, and the next
round back. -/
structure Alternates (arg x : Fixed31_32) : Prop where
  low : -90799856365 ≤ x.toInt
  high : x.toInt ≤ -2 ^ 32
  less : ∃ e, exp x = .ok e ∧ e.toInt = arg.toInt - 1
  more : ∃ x' e', x'.toInt = x.toInt + jump arg ∧ exp x' = .ok e' ∧ e'.toInt = arg.toInt + 1
  back : Rounding.divNat (arg.toInt.natAbs * 2 ^ 32) (arg.toInt + 1).natAbs = 2 ^ 32 - jump arg

section Small

variable {arg x e : Fixed31_32}

/-- Above three units, the exponential is still rounded as it should be. -/
theorem low_le_of_three_le {z : ℤ} (h : 3 ≤ 2 ^ 32 * Real.exp ((z : ℝ) / 2 ^ 32)) :
    -90799856365 ≤ z := by
  by_contra hlt
  have hz : (z : ℝ) ≤ -90799856365 := by exact_mod_cast (not_le.mp hlt).le
  have hexp : Real.exp ((z : ℝ) / 2 ^ 32) ≤ Real.exp (-(2114 / 100)) := by
    refine Real.exp_le_exp.mpr ?_
    rw [div_le_iff₀ (by norm_num)]
    linarith
  have hlarge : (2 ^ 32 : ℝ) < 3 * Real.exp (2114 / 100) := by
    have hone := Real.exp_one_gt_d9
    have hrest := Real.add_one_le_exp (14 / 100 : ℝ)
    calc (2 ^ 32 : ℝ) < 3 * (2.7182818283 ^ 21 * (14 / 100 + 1)) := by norm_num
      _ ≤ 3 * (Real.exp 1 ^ 21 * Real.exp (14 / 100)) := by gcongr
      _ = 3 * Real.exp (2114 / 100) := by
        rw [← Real.exp_nat_mul, ← Real.exp_add]
        norm_num
  have hinv : Real.exp (-(2114 / 100)) * Real.exp (2114 / 100) = 1 := by
    rw [← Real.exp_add, neg_add_cancel, Real.exp_zero]
  have hpos := Real.exp_pos (2114 / 100)
  nlinarith

/-- **One round for a small argument**, from an estimate whose exponential is not too small: the
next estimate is not larger, and its exponential is too small by one unit at most.

**Proof sketch.** In units, Newton's method loses half a unit for the rounding of the exponential
and of the quotient each, and a little for the relative error of the exponential, which is less the
smaller the argument is. -/
theorem small_round (hlow : 4 ≤ arg.toInt) (hhigh : arg.toInt < 42735994)
    (hx : -90799856365 ≤ x.toInt) (hx' : x.toInt ≤ -2 ^ 32) (he : exp x = .ok e)
    (hge : arg.toInt ≤ e.toInt) :
    ∃ x', Next arg x e x' ∧ x'.toInt ≤ x.toInt ∧ -90799856365 ≤ x'.toInt ∧
      ∃ e', exp x' = .ok e' ∧ arg.toInt - 1 ≤ e'.toInt := by
  have hquot : Rounding.divNat (arg.toInt.natAbs * 2 ^ 32) e.toInt.natAbs ≤ 2 ^ 32 :=
    Rounding.divNat_le (by omega) (by rw [mul_comm]; exact Nat.mul_le_mul_left _ (by omega))
  obtain ⟨x', hnext⟩ := exists_next he (by omega) (show 0 < arg.toInt by omega) (by omega)
    (by omega) (by omega)
  have heq := hnext.toInt_eq
  obtain ⟨e₁, he₁, hclose⟩ := exp_close_uniform hx (by omega)
  obtain rfl : e = e₁ := Except.ok.inj (he.symm.trans he₁)
  have hA : (4 : ℝ) ≤ arg.toInt := by exact_mod_cast hlow
  have hA' : (arg.toInt : ℝ) < 42735994 := by exact_mod_cast hhigh
  have hge' : (arg.toInt : ℝ) ≤ e.toInt := by exact_mod_cast hge
  obtain ⟨-, hupper⟩ := abs_le.mp hclose
  have hw := Real.exp_pos ((x.toInt : ℝ) / 2 ^ 32)
  -- what is lost by rounding the quotient: half a unit, and a little more for a few units
  obtain ⟨half, hhalf, hlarge, hbudget⟩ : ∃ half : ℝ,
      arg.toInt / (2 * (2 ^ 32 * Real.exp ((x.toInt : ℝ) / 2 ^ 32))) ≤ half ∧ half ≤ 58 / 100 ∧
        189 / 2 * ((arg.toInt : ℝ) / 2 ^ 32) + half < 149 / 100 := by
    by_cases hmany : (1000000 : ℝ) ≤ arg.toInt
    · refine ⟨501 / 1000, ?_, by norm_num, by linarith⟩
      rw [div_le_iff₀ (by positivity)]
      linarith
    · refine ⟨58 / 100, ?_, le_rfl, by linarith⟩
      rw [div_le_iff₀ (by positivity)]
      linarith
  have hle := hnext.le_exp (by omega) (show (0 : ℝ) ≤ 47 by norm_num) le_rfl (by linarith)
    (by linarith)
  have hbottom := low_le_of_three_le (z := x'.toInt) (by linarith)
  obtain ⟨e', he', hclose'⟩ := exp_close_uniform hbottom (by omega)
  refine ⟨x', hnext, by omega, hbottom, e', he', ?_⟩
  obtain ⟨hlower, -⟩ := abs_le.mp hclose'
  have hcast : (arg.toInt : ℝ) - 2 < e'.toInt := by linarith
  have hcast' : arg.toInt - 2 < e'.toInt := by exact_mod_cast hcast
  omega

/-- The jump is more than one hundred units and at most one. -/
theorem jump_bounds (hlow : 3 ≤ arg.toInt) (hhigh : arg.toInt < 42735994) :
    100 < jump arg ∧ jump arg ≤ 2 ^ 32 := by
  obtain ⟨n, hn, hn'⟩ : ∃ n, (arg.toInt - 1).natAbs = n ∧ arg.toInt.natAbs = n + 1 :=
    ⟨_, rfl, by omega⟩
  rw [jump, hn, hn']
  have hge : 2 ^ 32 + 101 ≤ Rounding.divNat ((n + 1) * 2 ^ 32) n := by
    rw [Rounding.divNat, Nat.le_div_iff_mul_le (by omega)]
    omega
  have hle : Rounding.divNat ((n + 1) * 2 ^ 32) n ≤ 2 ^ 33 :=
    Rounding.divNat_le (by omega) (by omega)
  omega

/-- The round from an estimate whose exponential is one unit less than the argument. -/
theorem exists_next_of_less (hlow : 3 ≤ arg.toInt) (hhigh : arg.toInt < 42735994)
    (hx : -90799856365 ≤ x.toInt) (hx' : x.toInt ≤ -2 ^ 32) (he : exp x = .ok e)
    (hless : e.toInt = arg.toInt - 1) : ∃ x', Next arg x e x' ∧ x'.toInt = x.toInt + jump arg := by
  have hjump := jump_bounds hlow hhigh
  rw [jump, ← hless] at hjump
  obtain ⟨x', hnext⟩ := exists_next he (by omega) (show 0 < arg.toInt by omega) (by omega)
    (by omega) (by omega)
  refine ⟨x', hnext, ?_⟩
  rw [hnext.toInt_eq, jump, ← hless]
  omega

/-- A round from an estimate whose exponential is the argument stays there. -/
theorem next_of_exact (hpos : 0 < arg.toInt) (hx : -2 ^ 40 ≤ x.toInt ∧ x.toInt ≤ 2 ^ 40)
    (he : exp x = .ok arg) : Next arg x arg x := by
  have hquot : Rounding.divNat (arg.toInt.natAbs * 2 ^ 32) arg.toInt.natAbs = 2 ^ 32 := by
    rw [Rounding.divNat, Nat.div_eq_iff (by omega)]
    omega
  obtain ⟨x', hnext⟩ := exists_next he hpos hpos hx (by omega) (by omega)
  have heq := hnext.toInt_eq
  obtain rfl : x' = x := ext_toInt (by omega)
  exact hnext

/-- The state after a round for a small argument. The estimates go down until the exponential is
that of the argument, perhaps after it was one unit less. -/
def SmallInvariant (arg : Fixed31_32) (s : Except Fault (Fixed31_32 × Fixed31_32)) : Prop :=
  While.Visits logAgain (logNext arg) (logRound arg (neg one)) s ∧
    ∃ t, s = .ok t ∧ Rounded arg t ∧ (t.1.toInt ≤ -2 ^ 32 ∨ exp t.1 = .ok arg ∧ t.1.toInt ≤ 0) ∧
      ∃ e, exp t.1 = .ok e ∧ arg.toInt - 1 ≤ e.toInt

/-- How far the loop is from its end, for a small argument. -/
def smallMeasure (arg : Fixed31_32) (s : Except Fault (Fixed31_32 × Fixed31_32)) : ℕ :=
  match s with
  | .ok t =>
    if logAgain (.ok t) then if exp t.1 = .ok arg then 1 else (t.1.toInt + 2 ^ 37).toNat else 0
  | .error _ => 0

/-- The first round establishes the invariant. -/
theorem smallInvariant_first (hlow : 4 ≤ arg.toInt) (hhigh : arg.toInt < 42735994) :
    SmallInvariant arg (logRound arg (neg one)) := by
  have hone := neg_one_toInt
  have hvalue : (mk 1580030169).toInt = 1580030169 := by decide
  obtain ⟨x', hnext, hle, hbottom, hexp⟩ := @small_round arg (neg one) ⟨1580030169⟩ hlow hhigh
    (by omega) (by omega) exp_neg_one (by omega)
  exact ⟨.start, _, hnext.round_eq,
    ⟨hbottom, neg one, ⟨1580030169⟩, by omega, by omega, hnext, rfl⟩, .inl (hle.trans hone.le),
    hexp⟩

/-- **A round keeps the invariant**, and takes the loop nearer to its end.

**Proof sketch.** If the exponential is that of the argument, the estimate stays and the loop ends.
If it is one unit less, the round leads there. Otherwise the estimate gets smaller. -/
theorem smallInvariant_next (hlow : 4 ≤ arg.toInt) (hhigh : arg.toInt < 42735994)
    (hnever : NeverOvershoots arg) {s : Except Fault (Fixed31_32 × Fixed31_32)}
    (h : SmallInvariant arg s) (hagain : logAgain s = true) :
    SmallInvariant arg (logNext arg s) ∧ smallMeasure arg (logNext arg s) < smallMeasure arg s := by
  obtain ⟨hvisits, t, rfl, hrounded, hhalt, e, he, hge⟩ := h
  have hbottom := hrounded.low
  have hnextVisits := hvisits.round hagain
  have hstep : ∀ {e x'}, Next arg t.1 e x' → logNext arg (.ok t) = .ok (x', sub t.1 x') :=
    fun hnext => hnext.round_eq
  by_cases hexact : exp t.1 = .ok arg
  · have hnext := next_of_exact (by omega) (by omega) hexact
    have hiff := logAgain_iff hnext
    rw [hstep hnext] at hnextVisits ⊢
    refine ⟨⟨hnextVisits, _, rfl, ⟨hbottom, t.1, arg, hbottom, by omega, hnext, rfl⟩, hhalt, e, he,
      hge⟩, ?_⟩
    rw [smallMeasure, smallMeasure, if_pos hagain, if_pos hexact, if_neg (by rw [hiff]; omega)]
    exact Nat.one_pos
  have hx : t.1.toInt ≤ -2 ^ 32 := hhalt.resolve_right fun h => hexact h.1
  have hmeasure : smallMeasure arg (.ok t) = (t.1.toInt + 2 ^ 37).toNat := by
    rw [smallMeasure, if_pos hagain, if_neg hexact]
  rw [hmeasure]
  by_cases hless : e.toInt = arg.toInt - 1
  · obtain ⟨x', hnext, hjump⟩ := exists_next_of_less (by omega) hhigh hbottom hx he hless
    have hbounds := @jump_bounds arg (by omega) hhigh
    have hexp : exp x' = .ok arg := by
      by_contra hne
      refine hnever t.1 (.inr ⟨t.2, hvisits, hagain⟩) ⟨⟨e, he, hless⟩, fun x'' hx'' => ?_⟩
      rwa [ext_toInt (hx''.trans hjump.symm)]
    rw [hstep hnext] at hnextVisits ⊢
    refine ⟨⟨hnextVisits, _, rfl, ⟨show _ ≤ x'.toInt by omega, t.1, e, hbottom, by omega, hnext,
      rfl⟩, .inr ⟨hexp, show x'.toInt ≤ 0 by omega⟩, arg, hexp, by omega⟩, ?_⟩
    rw [smallMeasure]
    split_ifs <;> omega
  · have hne : e.toInt ≠ arg.toInt := fun h => hexact (ext_toInt h ▸ he)
    obtain ⟨x', hnext, hle, hbottom', hexp⟩ := small_round hlow hhigh hbottom hx he (by omega)
    have hiff := logAgain_iff hnext
    rw [hstep hnext] at hnextVisits ⊢
    refine ⟨⟨hnextVisits, _, rfl, ⟨hbottom', t.1, e, hbottom, by omega, hnext, rfl⟩,
      .inl (hle.trans hx), hexp⟩, ?_⟩
    rw [smallMeasure]
    split_ifs with hagain'
    · omega
    · rw [hiff] at hagain'
      change (x'.toInt + 2 ^ 37).toNat < _
      omega
    · omega

/-- **The loop does not end** if a round leads to and fro between two estimates. -/
theorem not_logEnds_of_alternates (hlow : 3 ≤ arg.toInt) (hhigh : arg.toInt < 42735994)
    (hcalls : CallsExp arg x) (h : Alternates arg x) : ¬ LogEnds arg := by
  obtain ⟨hx, hx', ⟨e, he, hless⟩, ⟨x₁, e₁, hx₁, he₁, hmore⟩, hback⟩ := h
  obtain ⟨x', hnext, heq⟩ := exists_next_of_less hlow hhigh hx hx' he hless
  obtain rfl : x₁ = x' := ext_toInt (hx₁.trans heq.symm)
  have hjump := jump_bounds hlow hhigh
  rw [← hmore] at hback
  obtain ⟨x'', hnext'⟩ := exists_next he₁ (by omega) (show 0 < arg.toInt by omega) (by omega)
    (by omega) (by omega)
  have heq' := hnext'.toInt_eq
  obtain rfl : x'' = x := ext_toInt (by omega)
  have hup : logAgain (.ok (x₁, sub x'' x₁)) = true := by
    rw [logAgain_iff hnext]
    omega
  have hdown : logAgain (.ok (x'', sub x₁ x'')) = true := by
    rw [logAgain_iff hnext']
    omega
  rcases hcalls with rfl | ⟨error, hvisits, hagain⟩
  · obtain rfl := Except.ok.inj (exp_neg_one.symm.trans he)
    exact absurd hless (by rw [show (mk 1580030169).toInt = 1580030169 by decide]; omega)
  · intro hends
    refine While.not_ends (fun s => ∃ x err, s = .ok (x, err) ∧ logAgain s = true ∧
      (x = x'' ∨ x = x₁)) ?_ ⟨x'', error, rfl, hagain, .inl rfl⟩ (hvisits.ends hends)
    rintro _ ⟨y, err, rfl, hagain', rfl | rfl⟩
    · exact ⟨hagain', _, _, hnext.round_eq, (congrArg logAgain hnext.round_eq).trans hup, .inr rfl⟩
    · exact ⟨hagain', _, _, hnext'.round_eq, (congrArg logAgain hnext'.round_eq).trans hdown,
        .inl rfl⟩

/-- The loop stays in a list of states that is closed under its rounds. -/
theorem mem_of_visits {l : List (Fixed31_32 × Fixed31_32)}
    (hclosed : logRound arg (neg one) ∈ l.map Except.ok ∧
      ∀ s ∈ l.map Except.ok, logAgain s = true → logNext arg s ∈ l.map Except.ok)
    {t : Fixed31_32 × Fixed31_32}
    (h : While.Visits logAgain (logNext arg) (logRound arg (neg one)) (.ok t)) : t ∈ l := by
  obtain ⟨t', ht, heq⟩ := List.mem_map.mp
    (h.invariant (fun s => s ∈ l.map Except.ok) hclosed.2 hclosed.1)
  exact Except.ok.inj heq ▸ ht

/-- No round overshoots if in a list of all states no exponential is one unit less than the
argument. -/
theorem neverOvershoots_of_list {l : List (Fixed31_32 × Fixed31_32)} (less : Fixed31_32)
    (hless : less.toInt = arg.toInt - 1)
    (hclosed : logRound arg (neg one) ∈ l.map Except.ok ∧
      ∀ s ∈ l.map Except.ok, logAgain s = true → logNext arg s ∈ l.map Except.ok)
    (hne : exp (neg one) ≠ .ok less ∧ ∀ t ∈ l, exp t.1 ≠ .ok less) : NeverOvershoots arg := by
  rintro x hcalls ⟨⟨e, hexp, hone⟩, -⟩
  obtain rfl : e = less := ext_toInt (hone.trans hless.symm)
  rcases hcalls with rfl | ⟨error, hvisits, -⟩
  · exact hne.1 hexp
  · exact hne.2 _ (mem_of_visits hclosed hvisits) hexp

end Small

/-! ## Safety -/

section Safety

variable {arg x : Fixed31_32}

/-- An invariant of the loop, with a measure, that keeps the estimates where the exponential
function is accurate. -/
structure LogRule (arg : Fixed31_32) (I : Except Fault (Fixed31_32 × Fixed31_32) → Prop)
    (m : Except Fault (Fixed31_32 × Fixed31_32) → ℕ) : Prop where
  first : I (logRound arg (neg one))
  next : ∀ s, I s → logAgain s = true → I (logNext arg s) ∧ m (logNext arg s) < m s
  rounded : ∀ s, I s → ∃ t, s = .ok t ∧ Rounded arg t ∧
    (logAgain s = true → t.1.toInt ≤ 92288378597)

namespace LogRule

variable {I : Except Fault (Fixed31_32 × Fixed31_32) → Prop}
  {m : Except Fault (Fixed31_32 × Fixed31_32) → ℕ}

/-- The loop comes to a result. -/
theorem exists_log (h : LogRule arg I m) :
    ∃ fuel t, log fuel arg = some (.ok t.1) ∧ Rounded arg t ∧ logAgain (.ok t) = false := by
  obtain ⟨fuel, s, hloop, hs, hstop⟩ := While.exists_loop I m h.next h.first
  obtain ⟨t, rfl, hrounded, -⟩ := h.rounded s hs
  exact ⟨fuel, t, by rw [log, hloop]; rfl, hrounded, hstop⟩

end LogRule

/-- The rule for arguments that are not small. -/
theorem Regime.logRule {top : ℤ} {K : ℝ} (h : Regime arg.toInt top K) :
    LogRule arg (LogInvariant arg top K) logMeasure where
  first := logInvariant_first h
  next _ hs hagain := logInvariant_next h hs hagain
  rounded := by
    rintro _ ⟨t, rfl, ht⟩
    exact ⟨t, rfl, ht.toRounded, fun hagain => (ht.le_top hagain).trans h.top_le⟩

/-- The rule for small arguments. -/
theorem logRule_of_small (hlow : 4 ≤ arg.toInt) (hhigh : arg.toInt < 42735994)
    (hnever : NeverOvershoots arg) : LogRule arg (SmallInvariant arg) (smallMeasure arg) where
  first := smallInvariant_first hlow hhigh
  next _ hs hagain := smallInvariant_next hlow hhigh hnever hs hagain
  rounded := by
    rintro _ ⟨-, t, rfl, hrounded, hle, -⟩
    exact ⟨t, rfl, hrounded, fun _ => by omega⟩

/-- The loop ends where the logarithm comes to a result. -/
theorem logEnds_of_log {fuel : ℕ} {res : Except Fault Fixed31_32} (h : log fuel arg = some res) :
    LogEnds arg := by
  obtain ⟨s, hs, -⟩ := Option.map_eq_some_iff.mp h
  exact ⟨fuel, s, hs⟩

end Safety

/-! ## Accuracy -/

/-- The logarithm comes to a result, and the exponential of that is the argument up to one thousand
units. -/
def LogAccurate (arg : Fixed31_32) : Prop :=
  ∃ fuel x e, log fuel arg = some (.ok x) ∧ exp x = .ok e ∧ |e.toInt - arg.toInt| ≤ 1000

section Accuracy

variable {arg x e x' : Fixed31_32}

/-- A round that changes the estimate by at most one hundred units. -/
theorem Next.accurate (h : Next arg x e x') (hpos : 0 < arg.toInt) (hle : arg.toInt ≤ 2 ^ 32)
    (hlow : -90799856365 ≤ x.toInt) (hhigh : x.toInt ≤ 92288378597)
    (hlow' : -90799856365 ≤ x'.toInt)
    (hstop : (x.toInt - x'.toInt).natAbs ≤ 100) :
    ∃ e', exp x' = .ok e' ∧ |e'.toInt - arg.toInt| ≤ 1000 := by
  have hnext := h.abs_sub_le hpos
  have hA : (arg.toInt : ℝ) ≤ 2 ^ 32 := by exact_mod_cast hle
  have hE : (0 : ℝ) < e.toInt := by exact_mod_cast h.pos
  have hmove : |(x'.toInt : ℝ) / 2 ^ 32 - x.toInt / 2 ^ 32| ≤ 100 / 2 ^ 32 := by
    have habs : |x'.toInt - x.toInt| ≤ 100 := by
      rw [abs_le]
      omega
    have habs' : |(x'.toInt : ℝ) - x.toInt| ≤ 100 := by exact_mod_cast habs
    rw [← sub_div, abs_div, abs_of_pos (show (0 : ℝ) < 2 ^ 32 by norm_num)]
    exact div_le_div_of_nonneg_right habs' (by norm_num)
  -- The exponential of the last estimate but one is close to the argument.
  have hclose := NewtonLog.abs_sub_le_of_stop (by positivity) hnext hmove
  obtain ⟨e₁, he₁, hexp⟩ := exp_close_uniform hlow hhigh
  obtain rfl : e = e₁ := Except.ok.inj (h.exp_eq.symm.trans he₁)
  have hvalue : (e.toInt : ℝ) ≤ 1001 / 1000 * 2 ^ 32 := by
    have := (abs_le.mp hclose).2
    norm_num at this ⊢
    linarith
  have hfactor : Real.exp ((x.toInt : ℝ) / 2 ^ 32) ≤ 1002 / 1000 := by
    have := (abs_le.mp hexp).1
    linarith
  -- The next estimate is close to that one.
  have hlast := NewtonLog.abs_exp_sub_exp_le (by norm_num) hmove
  have hx' : x'.toInt ≤ 92288378597 := by
    have hbelow := Real.add_one_le_exp ((x.toInt : ℝ) / 2 ^ 32)
    have hcast : (x.toInt : ℝ) ≤ 2 ^ 32 := by
      have : (x.toInt : ℝ) / 2 ^ 32 ≤ 1 := by linarith
      rwa [div_le_one (by norm_num)] at this
    have hcast' : x.toInt ≤ 2 ^ 32 := by exact_mod_cast hcast
    omega
  obtain ⟨e', he', hexp'⟩ := exp_close_uniform hlow' hx'
  refine ⟨e', he', ?_⟩
  have hfinal : |(e'.toInt : ℝ) - arg.toInt| ≤ 1000 := by
    generalize Real.exp ((x.toInt : ℝ) / 2 ^ 32) = w at *
    generalize Real.exp ((x'.toInt : ℝ) / 2 ^ 32) = w' at *
    rw [abs_le] at *
    norm_num at *
    constructor <;> linarith
  exact_mod_cast hfinal

/-- Where the rule applies, the logarithm is accurate. -/
theorem LogRule.accurate {I : Except Fault (Fixed31_32 × Fixed31_32) → Prop}
    {m : Except Fault (Fixed31_32 × Fixed31_32) → ℕ} (h : LogRule arg I m) (hpos : 0 < arg.toInt)
    (hle : arg.toInt ≤ 2 ^ 32) : LogAccurate arg := by
  obtain ⟨fuel, ⟨x', error⟩, hlog, ⟨hlow', x, e, hx, hx', hnext, herror⟩, hstop⟩ := h.exists_log
  obtain rfl : error = sub x x' := herror
  have hstop' : (x.toInt - x'.toInt).natAbs ≤ 100 := by
    rw [← not_lt, ← logAgain_iff hnext, hstop]
    exact Bool.false_ne_true
  obtain ⟨e', he', haccurate⟩ := hnext.accurate hpos hle hx hx' hlow' hstop'
  exact ⟨fuel, x', e', hlog, he', haccurate⟩

/-- **Accuracy.** Between two to the minus ten and one, the logarithm is accurate if no round
overshoots, or the argument is at least about 0.00995. It is not if the loop alternates between two
estimates. -/
theorem log_accurate (arg : Fixed31_32) (hlow : 2 ^ 22 ≤ arg.toInt) (hhigh : arg.toInt ≤ 2 ^ 32) :
    ((arg.toInt < 42735994 → NeverOvershoots arg) → LogAccurate arg) ∧
      (LogAccurate arg → arg.toInt < 42735994 → ∀ x, CallsExp arg x → ¬ Alternates arg x) := by
  constructor
  · intro hnever
    by_cases hsmall : arg.toInt < 42735994
    · exact (logRule_of_small (by omega) hsmall (hnever hsmall)).accurate (by omega) hhigh
    · obtain ⟨top, K, hregime⟩ := exists_regime (not_lt.mp hsmall) (by omega)
      exact hregime.logRule.accurate (by omega) hhigh
  · rintro ⟨fuel, res, -, hlog, -⟩ hsmall x hcalls halternates
    exact not_logEnds_of_alternates (by omega) hsmall hcalls halternates (logEnds_of_log hlog)

/-- The states of the loop for an argument of about 0.00116. -/
def fiveMillion : List (Fixed31_32 × Fixed31_32) :=
  [(⟨-8576343183⟩, ⟨4281375887⟩), (⟨-12834481927⟩, ⟨4258138744⟩), (⟨-17030193597⟩, ⟨4195711670⟩),
    (⟨-21061519754⟩, ⟨4031326157⟩), (⟨-24682503905⟩, ⟨3620984151⟩), (⟨-27411469165⟩, ⟨2728965260⟩),
    (⟨-28750212791⟩, ⟨1338743626⟩), (⟨-29007730226⟩, ⟨257517435⟩), (⟨-29015766507⟩, ⟨8036281⟩),
    (⟨-29015774238⟩, ⟨7731⟩), (⟨-29015774238⟩, ⟨0⟩)]

/-- This argument has a logarithm that is accurate. -/
theorem log_accurate_fiveMillion : LogAccurate ⟨5000000⟩ := by
  have hclosed : logRound ⟨5000000⟩ (neg one) ∈ fiveMillion.map Except.ok ∧
      ∀ s ∈ fiveMillion.map Except.ok, logAgain s = true →
        logNext ⟨5000000⟩ s ∈ fiveMillion.map Except.ok := by decide +kernel
  exact (log_accurate ⟨5000000⟩ (by decide) (by decide)).1 fun _ =>
    neverOvershoots_of_list ⟨4999999⟩ (by decide) hclosed (by decide +kernel)

/-- The states of the loop for an argument of about 0.000978: the last two follow each other for
ever, one estimate too small and the other too large, with an exponential that is off by one
unit. -/
def restless : List (Except Fault (Fixed31_32 × Fixed31_32)) :=
  [.ok (⟨-8578517039⟩, ⟨4283549743⟩),
   .ok (⟨-12842530604⟩, ⟨4264013565⟩),
   .ok (⟨-17053961157⟩, ⟨4211430553⟩),
   .ok (⟨-21126225984⟩, ⟨4072264827⟩),
   .ok (⟨-24846414809⟩, ⟨3720188825⟩),
   .ok (⟨-27774676181⟩, ⟨2928261372⟩),
   .ok (⟨-29367102767⟩, ⟨1592426586⟩),
   .ok (⟨-29746511598⟩, ⟨379408831⟩),
   .ok (⟨-29764289252⟩, ⟨17777654⟩),
   .ok (⟨-29764327086⟩, ⟨37834⟩),
   .ok (⟨-29764326063⟩, ⟨-1023⟩),
   .ok (⟨-29764327086⟩, ⟨1023⟩)]

/-- The loop does not end for this argument. -/
theorem log_never_ends : 2 ^ 22 ≤ (mk 4200283).toInt ∧ (mk 4200283).toInt ≤ 2 ^ 32 ∧
    ¬LogAccurate ⟨4200283⟩ := by
  refine ⟨by decide, by decide, fun ⟨_, _, _, hlog, _⟩ => ?_⟩
  have hstep : ∀ s ∈ restless, logAgain s = true ∧ logNext ⟨4200283⟩ s ∈ restless := by
    decide +kernel
  have hfirst : logRound ⟨4200283⟩ (neg one) ∈ restless := by
    decide +kernel
  exact While.not_ends (fun s => s ∈ restless) hstep hfirst (logEnds_of_log hlog)

end Accuracy

end Fixed31_32

end Dc
