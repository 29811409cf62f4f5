import AmdgpuPro.Dc.FixedPoint

set_option autoImplicit false

/-!
# The exponential function of fixed-point numbers

`dal_fixed31_32_exp` splits its argument into a multiple of the logarithm of two and a rest. The
exponential of the rest is a Taylor series, and the multiple becomes a power of two that the series
is shifted by, or divided by if the argument is negative. The divisor is a fixed-point number
itself: a power of two from the 31st on does not fit into it.

The error of the function is bounded in two parts: the series is Horner's scheme for the polynomial
of degree nine, with an error of at most two units (`Close`), and the constant for the logarithm of
two is off by less than five quarters of a unit for each power of two.

## Main definitions

* `Dc.Fixed31_32.ExpInUnit` — the function returns a number between zero and one.

## Main results

* `Dc.Fixed31_32.exp_nonpos` — for which arguments up to zero the result is between zero and one.
* `exp_close` — the error of the exponential function.
-/

namespace Dc

namespace Fixed31_32

/-- The body of the loop of `fixed31_32_exp_from_taylor_series`. -/
def taylorStep (arg res : Fixed31_32) (n : BitVec 64) : Except Fault Fixed31_32 := do
  let quotient ← divInt (mul arg res) n
  pure (add one quotient)

/-- `fixed31_32_exp_from_taylor_series` -/
def expFromTaylorSeries (arg : Fixed31_32) : Except Fault Fixed31_32 := do
  let res ← fromFraction (9 + 2) (9 + 1)
  let res ← [9, 8, 7, 6, 5, 4, 3, 2].foldlM (taylorStep arg) res
  pure (add one (mul arg res))

/-- `dal_fixed31_32_exp` -/
def exp (arg : Fixed31_32) : Except Fault Fixed31_32 := do
  if le ln2Div2 (abs arg) then
    let quotient ← div arg ln2
    let m := round quotient
    let r := sub arg (mulInt ln2 m)
    let series ← expFromTaylorSeries r
    if (0#32).slt m then shl series (m.setWidth 8)
    else if 64 ≤ (-m).toNat then throw .shiftOutOfRange
    else divInt series (1#64 <<< (-m).toNat)
  else if arg.value ≠ 0 then expFromTaylorSeries arg
  else pure one

/-- A step that succeeds. -/
theorem ok_bind (y : Fixed31_32) (f : Fixed31_32 → Except Fault Fixed31_32) :
    (Except.ok y >>= f) = f y := rfl

/-- A step that fails. -/
theorem error_bind (fault : Fault) (f : Fixed31_32 → Except Fault Fixed31_32) :
    (Except.error fault >>= f) = Except.error fault := rfl

/-! ## The series -/

/-- A quotient by a small integer. -/
theorem divInt_small (x : Fixed31_32) {n : ℕ} (hpos : 0 < n) (hn : n < 2 ^ 31) :
    divInt x (BitVec.ofNat 64 n) =
      .ok (ofMagnitude (x.value.slt 0) (Rounding.divNat x.toInt.natAbs n)) := by
  have hint : (fromInt (BitVec.ofNat 64 n)).value = BitVec.ofNat 64 (n * 2 ^ 32) :=
    shiftLeft_ofNat n 32
  have htoInt : (BitVec.ofNat 64 (n * 2 ^ 32)).toInt = (n * 2 ^ 32 : ℕ) :=
    toInt_units (by omega)
  have hne : BitVec.ofNat 64 (n * 2 ^ 32) ≠ 0 := by
    intro hzero
    rw [hzero] at htoInt
    have := Int.natCast_eq_zero.mp htoInt.symm
    omega
  rw [divInt, hint, fromFraction_eq _ hne, slt_zero (BitVec.ofNat 64 (n * 2 ^ 32)), htoInt,
    Int.natAbs_natCast, Rounding.divNat_mul_mul_right _ _ (by norm_num),
    decide_eq_false (by omega), Bool.xor_false]
  rfl

/-- The error of a quotient by a small integer. -/
theorem divInt_error (x : Fixed31_32) (hx : |x.toInt| < 2 ^ 62) {n : ℕ} (hpos : 0 < n)
    (hn : n < 2 ^ 31) :
    ∃ q, divInt x (BitVec.ofNat 64 n) = .ok q ∧ |(q.toInt : ℝ) - x.toInt / n| ≤ 1 / 2 := by
  refine ⟨_, divInt_small x hpos hn, ?_⟩
  have hle : Rounding.divNat x.toInt.natAbs n ≤ x.toInt.natAbs :=
    Rounding.divNat_le hpos (Nat.le_mul_of_pos_right _ hpos)
  rw [abs_lt] at hx
  have haway := @Rounding.away_ite_div ℝ _ _ _ _ (x.value.slt 0) x.toInt.natAbs n hpos
  have hcast : (x.toInt : ℝ) = _ := cast_toInt x.value
  change Rounding.away ((if x.value.slt 0 then -((x.value.toInt.natAbs : ℕ) : ℝ)
    else (x.value.toInt.natAbs : ℕ)) / n) = _ at haway
  rw [← hcast] at haway
  rw [toInt_ofMagnitude_of_fits, ← haway]
  · exact Rounding.abs_away_sub_le _
  · constructor <;> split_ifs <;> omega

/-- The error of a product is at most one unit. -/
theorem mulMagnitude_error (a b : ℕ) :
    mulMagnitude a b * 2 ^ 32 ≤ a * b + 2 ^ 32 ∧ a * b ≤ mulMagnitude a b * 2 ^ 32 + 2 ^ 32 := by
  have hmod := Nat.mul_mod a b (2 ^ 32)
  rw [mulMagnitude]
  generalize a % 2 ^ 32 * (b % 2 ^ 32) = p at *
  generalize a * b = m at *
  split_ifs <;> omega

/-- A product is off by one unit at most. -/
theorem mul_error (a b : Fixed31_32) (h : a.toInt.natAbs * b.toInt.natAbs < 2 ^ 94) :
    |((mul a b).toInt : ℝ) - a.toInt * b.toInt / 2 ^ 32| ≤ 1 := by
  obtain ⟨hle, hge⟩ := mulMagnitude_error a.toInt.natAbs b.toInt.natAbs
  have hprod : (a.toInt : ℝ) * b.toInt = if a.value.slt 0 ^^ b.value.slt 0 then
      -((a.toInt.natAbs * b.toInt.natAbs : ℕ) : ℝ) else (a.toInt.natAbs * b.toInt.natAbs : ℕ) := by
    rw [← Int.cast_mul, ← sign_mul]
    change ((if a.value.slt 0 ^^ b.value.slt 0 then _ else _ : ℤ) : ℝ) = _
    split_ifs <;> simp only [Int.cast_neg, Int.cast_natCast]
  have hle' : (mulMagnitude a.toInt.natAbs b.toInt.natAbs : ℝ) * 2 ^ 32 ≤
      ((a.toInt.natAbs * b.toInt.natAbs : ℕ) : ℝ) + 2 ^ 32 := by exact_mod_cast hle
  have hge' : ((a.toInt.natAbs * b.toInt.natAbs : ℕ) : ℝ) ≤
      (mulMagnitude a.toInt.natAbs b.toInt.natAbs : ℝ) * 2 ^ 32 + 2 ^ 32 := by exact_mod_cast hge
  rw [mul_eq, hprod]
  generalize a.toInt.natAbs * b.toInt.natAbs = p at *
  generalize mulMagnitude a.toInt.natAbs b.toInt.natAbs = m at *
  rw [toInt_ofMagnitude_of_fits (by constructor <;> split_ifs <;> omega), abs_le]
  split_ifs <;> push_cast <;> constructor <;> linarith

/-- Its sign. -/
theorem mul_nonpos_of_nonpos {a b : Fixed31_32} (ha : a.toInt ≤ 0) (hb : 0 ≤ b.toInt)
    (h : a.toInt.natAbs * b.toInt.natAbs < 2 ^ 94) : (mul a b).toInt ≤ 0 := by
  obtain ⟨hle, -⟩ := mulMagnitude_error a.toInt.natAbs b.toInt.natAbs
  have hpos : b.value.slt 0 = false := decide_eq_false (not_lt.mpr hb)
  rw [mul_eq, toInt_ofMagnitude_of_fits (by constructor <;> split_ifs <;> omega), hpos,
    Bool.xor_false]
  rcases ha.lt_or_eq with hneg | hzero
  · have hsign : a.value.slt 0 = true := decide_eq_true hneg
    rw [if_pos hsign]
    omega
  · have hmagnitude : mulMagnitude a.toInt.natAbs b.toInt.natAbs = 0 := by
      rw [hzero]
      simp [mulMagnitude]
    rw [hmagnitude]
    split_ifs <;> rfl

/-- The number is the real number, up to two units, and that is near one. -/
structure Close (y : ℝ) (x : Fixed31_32) : Prop where
  error : |(x.toInt : ℝ) - 2 ^ 32 * y| ≤ 2
  near_one : |y - 1| ≤ 1 / 2

/-- The rest of an argument: at most one half of the logarithm of two. -/
def Small (r : Fixed31_32) : Prop := r.toInt.natAbs ≤ 1488522236

section Series

variable {r res : Fixed31_32} {y : ℝ}

/-- A small argument, in the reals. -/
theorem Small.abs_le (h : Small r) : |(r.toInt : ℝ)| ≤ 1488522236 := by
  rw [← Int.cast_abs, ← Int.natCast_natAbs]
  exact_mod_cast h

/-- As a number. -/
theorem Small.cast_le (h : Small r) : |(r.toInt : ℝ) / 2 ^ 32| ≤ 7 / 20 := by
  have hle := h.abs_le
  rw [abs_div, abs_of_pos (show (0 : ℝ) < 2 ^ 32 by norm_num), div_le_iff₀ (by norm_num)]
  linarith

/-- Close results are between a quarter and two. -/
theorem Close.bounds (h : Close y res) : 2 ^ 30 ≤ res.toInt ∧ res.toInt ≤ 2 ^ 33 := by
  obtain ⟨herror, hy⟩ := h
  rw [abs_le] at herror hy
  constructor
  · have : (2 ^ 30 : ℝ) ≤ res.toInt := by linarith
    exact_mod_cast this
  · have : (res.toInt : ℝ) ≤ 2 ^ 33 := by linarith
    exact_mod_cast this

/-- The product in a step is not too large. -/
theorem natAbs_mul_lt (hr : Small r) (h : Close y res) :
    r.toInt.natAbs * res.toInt.natAbs < 2 ^ 94 := by
  have hbounds := h.bounds
  calc r.toInt.natAbs * res.toInt.natAbs ≤ 1488522236 * 2 ^ 33 :=
        Nat.mul_le_mul hr (by omega)
    _ < 2 ^ 94 := by norm_num

/-- The product of the rest and a number near one. -/
theorem mul_close (hr : Small r) (h : Close y res) :
    |((mul r res).toInt : ℝ) - r.toInt * y| ≤ 17 / 10 := by
  have hmul := mul_error r res (natAbs_mul_lt hr h)
  have hrest : |(r.toInt : ℝ) * res.toInt / 2 ^ 32 - r.toInt * y| ≤ 7 / 20 * 2 := by
    have heq : (r.toInt : ℝ) * res.toInt / 2 ^ 32 - r.toInt * y =
        r.toInt / 2 ^ 32 * (res.toInt - 2 ^ 32 * y) := by ring
    rw [heq, abs_mul]
    exact mul_le_mul hr.cast_le h.1 (abs_nonneg _) (by norm_num)
  calc |((mul r res).toInt : ℝ) - r.toInt * y|
      ≤ |((mul r res).toInt : ℝ) - r.toInt * res.toInt / 2 ^ 32| +
        |(r.toInt : ℝ) * res.toInt / 2 ^ 32 - r.toInt * y| := abs_sub_le _ _ _
    _ ≤ 1 + 7 / 20 * 2 := add_le_add hmul hrest
    _ = 17 / 10 := by norm_num

/-- The size of that product. -/
theorem mul_close_lt (hr : Small r) (h : Close y res) : |(mul r res).toInt| ≤ 2 ^ 32 := by
  have hmul := abs_le.mp (mul_close hr h)
  have hy := abs_le.mp h.2
  have hprod : |(r.toInt : ℝ) * y| ≤ 1488522236 * (3 / 2) := by
    rw [abs_mul]
    refine mul_le_mul hr.abs_le ?_ (abs_nonneg _) (by norm_num)
    rw [abs_le]
    constructor <;> linarith
  have hle : |((mul r res).toInt : ℝ)| ≤ 2 ^ 32 := by
    rw [abs_le] at hprod ⊢
    constructor <;> linarith
  exact_mod_cast hle

/-- The real number behind a step of the series. -/
noncomputable def realStep (ρ y : ℝ) (n : ℕ) : ℝ := 1 + ρ * y / n

/-- **A step of the series** keeps the result close. -/
theorem taylorStep_close (hr : Small r) (h : Close y res) {n : ℕ} (hn : 2 ≤ n) (hmax : n < 2 ^ 31) :
    ∃ res', taylorStep r res (BitVec.ofNat 64 n) = .ok res' ∧
      Close (realStep (r.toInt / 2 ^ 32) y n) res' := by
  have hlt := mul_close_lt hr h
  obtain ⟨q, hq, hdiv⟩ := divInt_error (mul r res) (by omega) (show 0 < n by omega) hmax
  have hpos : (2 : ℝ) ≤ n := by exact_mod_cast hn
  have hmul := mul_close hr h
  -- A quotient by at least two halves the error of the product.
  have hquot : |((mul r res).toInt : ℝ) / n - r.toInt * y / n| ≤ 17 / 20 := by
    rw [← sub_div, abs_div, abs_of_pos (show (0 : ℝ) < n by linarith), div_le_iff₀ (by linarith)]
    linarith
  have hsum : |(q.toInt : ℝ) - r.toInt * y / n| ≤ 27 / 20 :=
    (abs_sub_le _ _ _).trans ((add_le_add hdiv hquot).trans (by norm_num))
  have hrest : |(r.toInt : ℝ) / 2 ^ 32 * y / n| ≤ 1 / 2 := by
    have hy := abs_le.mp h.2
    have hy' : |y| ≤ 3 / 2 := abs_le.mpr ⟨by linarith, by linarith⟩
    rw [abs_div, abs_of_pos (show (0 : ℝ) < n by linarith), div_le_iff₀ (by linarith), abs_mul]
    have := mul_le_mul hr.cast_le hy' (abs_nonneg _) (by norm_num)
    linarith
  have hone : one.toInt = 2 ^ 32 := by decide
  have hadd : (add one q).toInt = 2 ^ 32 + q.toInt := by
    have hqle : |(q.toInt : ℝ)| ≤ 2 ^ 33 := by
      have heq : (r.toInt : ℝ) * y / n = 2 ^ 32 * (r.toInt / 2 ^ 32 * y / n) := by ring
      rw [heq] at hsum
      rw [abs_le] at hsum hrest ⊢
      constructor <;> linarith
    have hqle' : |q.toInt| ≤ 2 ^ 33 := by exact_mod_cast hqle
    rw [abs_le] at hqle'
    rw [toInt_add, hone]
    constructor <;> omega
  refine ⟨add one q, ?_, ?_, ?_⟩
  · rw [taylorStep, hq]
    rfl
  · rw [hadd, realStep]
    have heq : ((2 ^ 32 + q.toInt : ℤ) : ℝ) - 2 ^ 32 * (1 + r.toInt / 2 ^ 32 * y / n) =
        q.toInt - r.toInt * y / n := by
      push_cast
      ring
    rw [heq]
    linarith
  · rw [realStep, add_sub_cancel_left]
    exact hrest

/-- The loop of the series. -/
theorem foldlM_taylorStep (hr : Small r) (l : List ℕ) (hl : ∀ n ∈ l, 2 ≤ n ∧ n < 2 ^ 31)
    (h : Close y res) :
    ∃ res', (l.map (BitVec.ofNat 64)).foldlM (taylorStep r) res = .ok res' ∧
      Close (l.foldl (realStep (r.toInt / 2 ^ 32)) y) res' := by
  induction l generalizing res y with
  | nil => exact ⟨res, rfl, h⟩
  | cons n l ih =>
    obtain ⟨hn, hmax⟩ := hl n List.mem_cons_self
    obtain ⟨res₁, hstep, hclose⟩ := taylorStep_close hr h hn hmax
    obtain ⟨res₂, hloop, hfinal⟩ := ih (fun k hk => hl k (List.mem_cons_of_mem _ hk)) hclose
    refine ⟨res₂, ?_, hfinal⟩
    rw [List.map_cons, List.foldlM_cons, hstep]
    exact hloop

/-- The real series that the loop follows, from its first value on, is the exponential function up
to a fraction of a unit. -/
theorem abs_realSeries_sub_exp {ρ : ℝ} (hρ : |ρ| ≤ 7 / 20) :
    |1 + ρ * [9, 8, 7, 6, 5, 4, 3, 2].foldl (realStep ρ) (11 / 10) - Real.exp ρ| ≤
      1 / 5 / 2 ^ 32 := by
  have hbound := @Real.exp_bound ρ (by linarith) 10 (by norm_num)
  have hseries : 1 + ρ * [9, 8, 7, 6, 5, 4, 3, 2].foldl (realStep ρ) (11 / 10) =
      ∑ m ∈ Finset.range 10, ρ ^ m / m.factorial + ρ ^ 9 / 3628800 := by
    simp only [List.foldl_cons, List.foldl_nil, realStep, Finset.sum_range_succ,
      Finset.sum_range_zero, Nat.factorial]
    push_cast
    ring
  have hpow (k : ℕ) : |ρ| ^ k ≤ (7 / 20) ^ k := pow_le_pow_left₀ (abs_nonneg _) hρ k
  have hlast : |ρ ^ 9 / 3628800| ≤ (7 / 20) ^ 9 / 3628800 := by
    rw [abs_div, abs_pow, abs_of_pos (show (0 : ℝ) < 3628800 by norm_num)]
    exact div_le_div_of_nonneg_right (hpow 9) (by norm_num)
  have htail : |Real.exp ρ - ∑ m ∈ Finset.range 10, ρ ^ m / m.factorial| ≤
      (7 / 20) ^ 10 * (11 / 36288000) := by
    refine hbound.trans (mul_le_mul (hpow 10) ?_ (by positivity) (by positivity))
    norm_num [Nat.factorial]
  rw [hseries, abs_le]
  rw [abs_le] at hlast htail
  norm_num at hlast htail ⊢
  constructor <;> linarith

/-- The first value of the series is eleven tenths. -/
theorem fromFraction_first :
    fromFraction (9 + 2) (9 + 1) = .ok (ofMagnitude false 4724464026) := by
  rw [fromFraction_eq _ (by decide)]
  decide

/-- The series, as a fold over its divisors. -/
theorem expFromTaylorSeries_eq {first : Fixed31_32} (h : fromFraction (9 + 2) (9 + 1) = .ok first) :
    expFromTaylorSeries r =
      (([9, 8, 7, 6, 5, 4, 3, 2].map (BitVec.ofNat 64)).foldlM (taylorStep r) first >>=
        fun res => pure (add one (mul r res))) := by
  have hlist : ([9, 8, 7, 6, 5, 4, 3, 2] : List (BitVec 64)) =
      [9, 8, 7, 6, 5, 4, 3, 2].map (BitVec.ofNat 64) := rfl
  rw [expFromTaylorSeries, h, ok_bind, hlist]

/-- The series of a small rest is the exponential function, up to two units. -/
theorem expFromTaylorSeries_close (hr : Small r) :
    ∃ t, expFromTaylorSeries r = .ok t ∧
      |(t.toInt : ℝ) - 2 ^ 32 * Real.exp (r.toInt / 2 ^ 32)| ≤ 2 ∧
      (r.toInt ≤ 0 → t.toInt ≤ 2 ^ 32) := by
  have hstart : Close (11 / 10) (ofMagnitude false 4724464026) := by
    constructor
    · rw [toInt_units (by norm_num)]
      norm_num [abs_le]
    · norm_num [abs_le]
  obtain ⟨res, hloop, hclose⟩ := foldlM_taylorStep hr [9, 8, 7, 6, 5, 4, 3, 2] (by decide) hstart
  have hlt := mul_close_lt hr hclose
  have hmul := mul_close hr hclose
  have hexp := abs_realSeries_sub_exp hr.cast_le
  generalize [9, 8, 7, 6, 5, 4, 3, 2].foldl (realStep (r.toInt / 2 ^ 32)) (11 / 10) = y at *
  have hadd : (add one (mul r res)).toInt = 2 ^ 32 + (mul r res).toInt := by
    rw [abs_le] at hlt
    have hone : one.toInt = 2 ^ 32 := by decide
    rw [toInt_add, hone]
    constructor <;> omega
  refine ⟨add one (mul r res), ?_, ?_, fun hnonpos => ?_⟩
  · rw [expFromTaylorSeries_eq fromFraction_first, hloop]
    rfl
  · rw [hadd]
    push_cast
    rw [abs_le] at *
    constructor <;> linarith
  · have hres := hclose.bounds
    have hmul_nonpos : (mul r res).toInt ≤ 0 :=
      mul_nonpos_of_nonpos hnonpos (by omega) (natAbs_mul_lt hr hclose)
    omega

/-- The series of a small rest is between one half and two. -/
theorem series_bounds {t : Fixed31_32} (hr : Small r)
    (h : |(t.toInt : ℝ) - 2 ^ 32 * Real.exp (r.toInt / 2 ^ 32)| ≤ 2) :
    2 ^ 31 ≤ t.toInt ∧ t.toInt < 2 ^ 33 := by
  obtain ⟨hlow, hhigh⟩ := abs_le.mp hr.cast_le
  have hexp := Real.add_one_le_exp ((r.toInt : ℝ) / 2 ^ 32)
  have hexp_neg := Real.add_one_le_exp (-((r.toInt : ℝ) / 2 ^ 32))
  have hinv : Real.exp ((r.toInt : ℝ) / 2 ^ 32) * Real.exp (-((r.toInt : ℝ) / 2 ^ 32)) = 1 := by
    rw [← Real.exp_add, add_neg_cancel, Real.exp_zero]
  rw [abs_le] at h
  generalize (r.toInt : ℝ) / 2 ^ 32 = ρ at *
  have hupper : Real.exp ρ * (13 / 20) ≤ 1 := by
    rw [← hinv]
    exact mul_le_mul_of_nonneg_left (by linarith) (Real.exp_pos ρ).le
  constructor
  · have : (2 ^ 31 : ℝ) ≤ t.toInt := by linarith
    exact_mod_cast this
  · have : (t.toInt : ℝ) < 2 ^ 33 := by linarith
    exact_mod_cast this

end Series

/-! ## The argument -/

/-- The multiple of the logarithm of two that is nearest to a number of units, as
`dal_fixed31_32_round` rounds the rounded quotient. -/
def lnTwoMultiple (n : ℕ) : ℕ := (Rounding.divNat (n * 2 ^ 32) 2977044471 + 2 ^ 31) / 2 ^ 32

/-- It is the nearest multiple. -/
theorem lnTwoMultiple_spec (n : ℕ) :
    lnTwoMultiple n * 2977044471 ≤ n + 1488522236 ∧
      n ≤ lnTwoMultiple n * 2977044471 + 1488522236 := by
  rw [lnTwoMultiple, Rounding.divNat]
  omega

/-- Which numbers have a larger one. -/
theorem lt_lnTwoMultiple_iff (n k : ℕ) :
    k < lnTwoMultiple n ↔ 2977044471 * (2 * k + 1) ≤ 2 * n := by
  rw [lnTwoMultiple, Rounding.divNat]
  omega

section Argument

variable {x : Fixed31_32}

/-- The constant for `ln 2`. -/
theorem ln2_toInt : ln2.toInt = 2977044471 := by decide

/-- The quotient by `ln 2`. -/
theorem div_ln2 (x : Fixed31_32) :
    div x ln2 = .ok (ofMagnitude (decide (x.toInt < 0))
      (Rounding.divNat (x.toInt.natAbs * 2 ^ 32) 2977044471)) := by
  rw [div, fromFraction_eq _ (by decide)]
  have hsign : ln2.value.slt 0 = false := by decide
  have habs : ln2.value.toInt.natAbs = 2977044471 := by decide
  rw [hsign, habs, Bool.xor_false]
  rfl

/-- Rounding a number with a sign. -/
theorem round_ofMagnitude {negative : Bool} {n : ℕ} (h : n < 2 ^ 63) :
    round (ofMagnitude negative n) = BitVec.ofInt 32
      (if negative then -(((n + 2 ^ 31) / 2 ^ 32 : ℕ) : ℤ) else ((n + 2 ^ 31) / 2 ^ 32 : ℕ)) := by
  have hfits : Fits (if negative then -(n : ℤ) else n) := by constructor <;> split_ifs <;> omega
  rw [round_eq, toInt_ofMagnitude_of_fits hfits]
  cases negative with
  | false =>
    have hnonneg : ¬((n : ℤ) < 0) := by omega
    rw [if_neg Bool.false_ne_true, if_neg Bool.false_ne_true, if_neg hnonneg, Int.natAbs_natCast,
      BitVec.ofInt_natCast]
  | true =>
    rw [if_pos rfl, if_pos rfl, Int.natAbs_neg, Int.natAbs_natCast, BitVec.ofInt_neg,
      BitVec.ofInt_natCast]
    rcases Nat.eq_zero_or_pos n with hzero | hpos
    · have hquot : (n + 2 ^ 31) / 2 ^ 32 = 0 := by omega
      rw [hquot, BitVec.neg_zero, ite_self]
    · rw [if_pos (by omega)]

/-- The multiple of the logarithm of two, with its sign. -/
def multiple (x : Fixed31_32) : ℤ :=
  if x.toInt < 0 then -(lnTwoMultiple x.toInt.natAbs : ℤ) else lnTwoMultiple x.toInt.natAbs

/-- What is left of the argument. -/
def rest (x : Fixed31_32) : Fixed31_32 := sub x (mulInt ln2 (BitVec.ofInt 32 (multiple x)))

/-- The multiple fits into an `int`. -/
theorem toInt_multiple (h : lnTwoMultiple x.toInt.natAbs < 2 ^ 31) :
    (BitVec.ofInt 32 (multiple x)).toInt = multiple x := by
  rw [BitVec.toInt_ofInt, multiple]
  split_ifs
  · exact Int.bmod_eq_of_le (by omega) (by omega)
  · exact Int.bmod_eq_of_le (by omega) (by omega)

/-- What the rest is. -/
theorem toInt_rest (h : lnTwoMultiple x.toInt.natAbs < 2 ^ 31) :
    (rest x).toInt = x.toInt - 2977044471 * multiple x := by
  have hspec := lnTwoMultiple_spec x.toInt.natAbs
  have hbounds := x.toInt_bounds
  have hmul : (mulInt ln2 (BitVec.ofInt 32 (multiple x))).toInt = 2977044471 * multiple x := by
    rw [toInt_mulInt, toInt_multiple h, ln2_toInt]
    rw [toInt_multiple h, ln2_toInt, multiple]
    constructor <;> split_ifs <;> omega
  rw [rest, toInt_sub, hmul]
  rw [hmul, multiple]
  constructor <;> split_ifs <;> omega

/-- The rest is small. -/
theorem small_rest (h : lnTwoMultiple x.toInt.natAbs < 2 ^ 31) : Small (rest x) := by
  have hspec := lnTwoMultiple_spec x.toInt.natAbs
  rw [Small, toInt_rest h, multiple]
  split_ifs <;> omega

/-- The test of the argument's size fails for small arguments only, and for the most negative one,
that has no absolute value. -/
theorem le_ln2Div2_abs (x : Fixed31_32) :
    le ln2Div2 (abs x) = decide (1488522236 ≤ x.toInt.natAbs ∧ x.toInt ≠ -2 ^ 63) := by
  have hln : ln2Div2.toInt = 1488522236 := by decide
  by_cases hmin : x.toInt = -2 ^ 63
  · have hx : x = ⟨BitVec.intMin 64⟩ := ext_toInt (by rw [hmin]; decide)
    rw [hx]
    decide
  · rw [le_eq, hln, toInt_abs hmin, Int.abs_eq_natAbs, decide_eq_decide, and_iff_left hmin]
    omega

/-- The exponential function of an argument that is not small. -/
theorem exp_of_large (hlarge : 1488522236 ≤ x.toInt.natAbs) (hmin : x.toInt ≠ -2 ^ 63)
    (hq : Rounding.divNat (x.toInt.natAbs * 2 ^ 32) 2977044471 < 2 ^ 63) :
    exp x = (do
      let series ← expFromTaylorSeries (rest x)
      if (0#32).slt (BitVec.ofInt 32 (multiple x)) then
        shl series ((BitVec.ofInt 32 (multiple x)).setWidth 8)
      else if 64 ≤ (-BitVec.ofInt 32 (multiple x)).toNat then throw .shiftOutOfRange
      else divInt series (1#64 <<< (-BitVec.ofInt 32 (multiple x)).toNat)) := by
  have hround := @round_ofMagnitude (decide (x.toInt < 0)) _ hq
  have hmultiple : (if decide (x.toInt < 0) = true then
      -(((Rounding.divNat (x.toInt.natAbs * 2 ^ 32) 2977044471 + 2 ^ 31) / 2 ^ 32 : ℕ) : ℤ)
      else ((Rounding.divNat (x.toInt.natAbs * 2 ^ 32) 2977044471 + 2 ^ 31) / 2 ^ 32 : ℕ)) =
      multiple x := by
    simp only [decide_eq_true_eq]
    rfl
  rw [hmultiple] at hround
  have hle : le ln2Div2 (abs x) = true := by
    rw [le_ln2Div2_abs]
    exact decide_eq_true ⟨hlarge, hmin⟩
  rw [exp, if_pos hle, div_ln2, ok_bind, hround, rest]

/-- A negative argument that is not small. -/
theorem exp_of_neg (hneg : x.toInt < 0) (hlarge : 1488522236 ≤ x.toInt.natAbs)
    (hmin : x.toInt ≠ -2 ^ 63)
    (hq : Rounding.divNat (x.toInt.natAbs * 2 ^ 32) 2977044471 < 2 ^ 63) :
    exp x = (do
      let series ← expFromTaylorSeries (rest x)
      if 64 ≤ lnTwoMultiple x.toInt.natAbs then throw .shiftOutOfRange
      else divInt series (1#64 <<< lnTwoMultiple x.toInt.natAbs)) := by
  have hle : lnTwoMultiple x.toInt.natAbs ≤ 2 ^ 31 := by
    rw [lnTwoMultiple]
    omega
  have hmultiple : multiple x = -(lnTwoMultiple x.toInt.natAbs : ℤ) := if_pos hneg
  rw [exp_of_large hlarge hmin hq, hmultiple]
  generalize lnTwoMultiple x.toInt.natAbs = M at hle
  have hslt : (0#32).slt (BitVec.ofInt 32 (-(M : ℤ))) = false := by
    rw [BitVec.slt_eq_decide, BitVec.toInt_ofInt, Int.bmod_eq_of_le (by omega) (by omega)]
    exact decide_eq_false (by rw [BitVec.toInt_zero]; omega)
  have htoNat : (-BitVec.ofInt 32 (-(M : ℤ))).toNat = M := by
    rw [BitVec.ofInt_neg, BitVec.neg_neg, BitVec.ofInt_natCast, BitVec.toNat_ofNat]
    exact Nat.mod_eq_of_lt (by omega)
  simp only [hslt, htoNat, Bool.false_eq_true, if_false]

/-- The divisor. -/
theorem two_pow_eq (k : ℕ) : 1#64 <<< k = BitVec.ofNat 64 (2 ^ k) := by
  rw [shiftLeft_ofNat 1 k, one_mul]

/-- The divisor is the most negative number. -/
theorem divInt_two_pow_31 (t : Fixed31_32) :
    divInt t (1#64 <<< 31) =
      .ok (ofMagnitude (!t.value.slt 0) (Rounding.divNat t.toInt.natAbs (2 ^ 31))) := by
  have hvalue : (fromInt (1#64 <<< 31)).value = BitVec.intMin 64 := by decide
  have hsign : (BitVec.intMin 64).slt 0 = true := by decide
  have habs : (BitVec.intMin 64).toInt.natAbs = 2 ^ 31 * 2 ^ 32 := by decide
  rw [divInt, hvalue, fromFraction_eq _ (by decide), hsign, habs,
    Rounding.divNat_mul_mul_right _ _ (by norm_num), Bool.xor_true]
  rfl

/-- The divisor is zero. -/
theorem divInt_two_pow_large (t : Fixed31_32) {k : ℕ} (h : 32 ≤ k) :
    divInt t (1#64 <<< k) = .error .divideByZero := by
  have hvalue : (fromInt (1#64 <<< k)).value = 0 := by
    rw [fromInt, ← BitVec.shiftLeft_add]
    exact BitVec.shiftLeft_eq_zero (by rw [bitsPerFractionalPart]; omega)
  rw [divInt, hvalue]
  rfl

/-- The exponential function returns, and the result is between zero and one. -/
def ExpInUnit (x : Fixed31_32) : Prop :=
  ∃ res, exp x = .ok res ∧ 0 ≤ res.toInt ∧ res.toInt ≤ 2 ^ 32

/-- Only the series is used for a small argument, and for `-2 ^ 63`. -/
theorem exp_of_small (hne : x.toInt ≠ 0) (h : x.toInt.natAbs < 1488522236 ∨ x.toInt = -2 ^ 63) :
    exp x = expFromTaylorSeries x := by
  have hle : le ln2Div2 (abs x) = false := by
    rw [le_ln2Div2_abs]
    exact decide_eq_false (by omega)
  have hvalue : x.value ≠ 0 := by
    intro hzero
    rw [toInt, hzero] at hne
    exact hne rfl
  rw [exp, hle, if_neg Bool.false_ne_true, if_pos hvalue]

/-- The exponential of zero. -/
theorem exp_zero (h : x.toInt = 0) : exp x = .ok one := by
  have hx : x = zero := ext_toInt h
  rw [hx]
  rfl

/-- Small arguments. -/
theorem expInUnit_of_small (hnonpos : x.toInt ≤ 0) (hsmall : x.toInt.natAbs < 1488522236) :
    ExpInUnit x := by
  by_cases hzero : x.toInt = 0
  · exact ⟨one, exp_zero hzero, by decide, by decide⟩
  · obtain ⟨t, ht, hclose, hle⟩ := expFromTaylorSeries_close (r := x) hsmall.le
    refine ⟨t, ?_, ?_, hle hnonpos⟩
    · rw [exp_of_small hzero (Or.inl hsmall), ht]
    · exact (series_bounds hsmall.le hclose).1.trans' (by norm_num)

/-- The quotient fits. -/
theorem divNat_lt_of_multiple {n : ℕ} (h : lnTwoMultiple n < 2 ^ 31) :
    Rounding.divNat (n * 2 ^ 32) 2977044471 < 2 ^ 63 := by
  rw [lnTwoMultiple] at h
  omega

/-- The series of the rest of the argument returns a number that is not negative. -/
theorem exists_series_rest (h : lnTwoMultiple x.toInt.natAbs < 2 ^ 31) :
    ∃ t, expFromTaylorSeries (rest x) = .ok t ∧ t.value.slt 0 = false ∧
      2 ^ 31 ≤ t.toInt ∧ t.toInt < 2 ^ 33 := by
  have hsmall := small_rest h
  obtain ⟨t, ht, hclose, -⟩ := expFromTaylorSeries_close hsmall
  obtain ⟨hlow, hhigh⟩ := series_bounds hsmall hclose
  have hnonneg : 0 ≤ t.toInt := by omega
  exact ⟨t, ht, decide_eq_false (not_lt.mpr hnonneg), by omega, by omega⟩

/-- Larger arguments, up to 30 times `ln 2`. -/
theorem expInUnit_of_multiple (hneg : x.toInt < 0) (hlarge : 1488522236 ≤ x.toInt.natAbs)
    (hle : lnTwoMultiple x.toInt.natAbs ≤ 30) : ExpInUnit x := by
  have hspec := lnTwoMultiple_spec x.toInt.natAbs
  have hpow : 2 ^ lnTwoMultiple x.toInt.natAbs < 2 ^ 31 :=
    Nat.pow_lt_pow_right (by norm_num) (by omega)
  -- The multiple is not zero.
  have hpos : 0 < lnTwoMultiple x.toInt.natAbs := by
    rw [lt_lnTwoMultiple_iff]
    omega
  obtain ⟨t, ht, hsign, hlow, hhigh⟩ := exists_series_rest (x := x) (by omega)
  have hquot : Rounding.divNat t.toInt.natAbs (2 ^ lnTwoMultiple x.toInt.natAbs) ≤ 2 ^ 32 := by
    refine Rounding.divNat_le (by positivity) ?_
    calc t.toInt.natAbs ≤ 2 ^ 32 * 2 ^ 1 := by omega
      _ ≤ 2 ^ 32 * 2 ^ lnTwoMultiple x.toInt.natAbs :=
        Nat.mul_le_mul_left _ (Nat.pow_le_pow_right (by norm_num) hpos)
  refine ⟨ofMagnitude false (Rounding.divNat t.toInt.natAbs (2 ^ lnTwoMultiple x.toInt.natAbs)),
    ?_, ?_⟩
  · rw [exp_of_neg hneg hlarge (by omega) (divNat_lt_of_multiple (by omega)), ht, ok_bind,
      if_neg (by omega), two_pow_eq, divInt_small t (by positivity) hpow, hsign]
  · rw [toInt_units (by omega)]
    omega

/-- From the multiple 32 on, the shift is out of range or the divisor is zero. -/
theorem exp_error_of_multiple (hneg : x.toInt < 0) (hlarge : 1488522236 ≤ x.toInt.natAbs)
    (hmin : x.toInt ≠ -2 ^ 63)
    (hq : Rounding.divNat (x.toInt.natAbs * 2 ^ 32) 2977044471 < 2 ^ 63)
    (hge : 32 ≤ lnTwoMultiple x.toInt.natAbs) : ∃ fault, exp x = .error fault := by
  rw [exp_of_neg hneg hlarge hmin hq]
  cases expFromTaylorSeries (rest x) with
  | error fault => exact ⟨fault, error_bind fault _⟩
  | ok t =>
    rw [ok_bind]
    split_ifs
    · exact ⟨.shiftOutOfRange, rfl⟩
    · exact ⟨.divideByZero, divInt_two_pow_large t hge⟩

/-- From the multiple 31 on, the function does not return a number between zero and one. -/
theorem not_expInUnit_of_multiple (hneg : x.toInt < 0) (hmin : x.toInt ≠ -2 ^ 63)
    (hq : Rounding.divNat (x.toInt.natAbs * 2 ^ 32) 2977044471 < 2 ^ 63)
    (hge : 31 ≤ lnTwoMultiple x.toInt.natAbs) : ¬ExpInUnit x := by
  rintro ⟨res, hres, hnonneg, -⟩
  have hspec := lnTwoMultiple_spec x.toInt.natAbs
  rcases hge.lt_or_eq with hlt | heq
  · obtain ⟨fault, hfault⟩ := exp_error_of_multiple hneg (by omega) hmin hq hlt
    rw [hfault] at hres
    cases hres
  · -- The divisor is negative, and the quotient does not round to zero.
    obtain ⟨t, ht, hsign, hlow, hhigh⟩ := exists_series_rest (x := x) (by omega)
    rw [exp_of_neg hneg (by omega) hmin hq, ht, ok_bind, ← heq, if_neg (by norm_num),
      divInt_two_pow_31, hsign] at hres
    have hquot : 0 < Rounding.divNat t.toInt.natAbs (2 ^ 31) ∧
        Rounding.divNat t.toInt.natAbs (2 ^ 31) ≤ 2 ^ 32 := by
      rw [Rounding.divNat]
      omega
    have hfits : Fits (if !false then -(Rounding.divNat t.toInt.natAbs (2 ^ 31) : ℤ)
        else Rounding.divNat t.toInt.natAbs (2 ^ 31)) := by
      constructor <;> split_ifs <;> omega
    rw [← Except.ok.inj hres, toInt_ofMagnitude_of_fits hfits, Bool.not_false,
      if_pos rfl] at hnonneg
    omega

/-- The least argument. -/
theorem exp_intMin : exp ⟨BitVec.intMin 64⟩ = .ok ⟨2305843013508661248⟩ := by
  decide +kernel

/-- For an argument that is not positive, the function returns a number between zero and one exactly
down to about -21.14, apart from arguments whose quotient by the logarithm of two does not fit:
there the quotient wraps around to a positive number, and the result is the series of a rest that is
far from small, shifted to the left. -/
theorem exp_nonpos (x : Fixed31_32) (h : x.toInt ≤ 0) :
    (-90799856365 ≤ x.toInt → ExpInUnit x) ∧
      (ExpInUnit x → -90799856365 ≤ x.toInt ∨
        (-2 ^ 63 < x.toInt ∧ x.toInt ≤ -(2977044471 * 2 ^ 31))) := by
  have hiff := lt_lnTwoMultiple_iff x.toInt.natAbs 30
  constructor
  · intro hge
    by_cases hlarge : 1488522236 ≤ x.toInt.natAbs
    · exact expInUnit_of_multiple (by omega) hlarge (by omega)
    · exact expInUnit_of_small h (by omega)
  · intro hunit
    by_contra hout
    push Not at hout
    obtain ⟨hlt, hwrap⟩ := hout
    by_cases hmin : x.toInt = -2 ^ 63
    · have hx : x = ⟨BitVec.intMin 64⟩ := ext_toInt (by rw [hmin]; decide)
      obtain ⟨res, hres, -, hle⟩ := hunit
      rw [hx, exp_intMin] at hres
      rw [← Except.ok.inj hres] at hle
      exact absurd hle (by decide)
    · have hbounds := x.toInt_bounds
      have hgt := hwrap (by omega)
      have hq : Rounding.divNat (x.toInt.natAbs * 2 ^ 32) 2977044471 < 2 ^ 63 := by
        rw [Rounding.divNat]
        omega
      exact not_expInUnit_of_multiple (by omega) hmin hq (by omega) hunit

/-- The exponential of minus one is between zero and one. -/
theorem exp_nonpos_one : ExpInUnit ⟨-4294967296⟩ :=
  (exp_nonpos ⟨-4294967296⟩ (by decide)).1 (by decide)

/-- The exponential of minus 32 is a division by zero, that of minus 21.5 a negative number. -/
theorem exp_nonpos_wrong :
    exp ⟨-137438953472⟩ = .error .divideByZero ∧
      exp ⟨-92341796864⟩ = .ok ⟨-2⟩ := by
  decide +kernel

end Argument

/-! ## The error -/

/-- The logarithm of two, in units, is the constant up to five quarters of a unit. -/
theorem abs_log_two_sub_le : |Real.log 2 - 2977044471 / 2 ^ 32| ≤ 5 / 4 / 2 ^ 32 := by
  have h := Real.log_two_near_10
  rw [abs_le] at h ⊢
  norm_num at h ⊢
  constructor <;> linarith

section Scaling

variable {x r m : ℤ} {t : ℝ}

/-- How far the exponentials differ if a multiple of the constant stands for one of the
logarithm. -/
theorem exp_scaled (hx : x = r + 2977044471 * m) :
    Real.exp ((r : ℝ) / 2 ^ 32) * 2 ^ m =
      Real.exp ((x : ℝ) / 2 ^ 32) * Real.exp (m * (Real.log 2 - 2977044471 / 2 ^ 32)) := by
  have hpow : (2 : ℝ) ^ m = Real.exp (m * Real.log 2) := by
    rw [← Real.rpow_intCast, Real.rpow_def_of_pos two_pos, mul_comm]
  rw [hpow, ← Real.exp_add, ← Real.exp_add, hx]
  congr 1
  push_cast
  ring

/-- What the error of `ln2` adds up to. -/
theorem abs_drift_le (hm : |m| ≤ 31) :
    2 ^ 32 * |Real.exp (m * (Real.log 2 - 2977044471 / 2 ^ 32)) - 1| ≤ 63 / 50 * |(m : ℝ)| ∧
      |(m : ℝ) * (Real.log 2 - 2977044471 / 2 ^ 32)| ≤ 1 / 1000 := by
  have hm' : |(m : ℝ)| ≤ 31 := by exact_mod_cast hm
  have hle : |(m : ℝ) * (Real.log 2 - 2977044471 / 2 ^ 32)| ≤ |(m : ℝ)| * (5 / 4 / 2 ^ 32) := by
    rw [abs_mul]
    exact mul_le_mul_of_nonneg_left abs_log_two_sub_le (abs_nonneg _)
  generalize (m : ℝ) * (Real.log 2 - 2977044471 / 2 ^ 32) = y at *
  have hsmall : |y| ≤ 1 / 1000 := hle.trans (by linarith)
  refine ⟨?_, hsmall⟩
  have htaylor := Real.abs_exp_sub_one_sub_id_le (hsmall.trans (by norm_num))
  have hsq : y ^ 2 ≤ |y| * (1 / 1000) := by
    rw [← sq_abs, sq]
    exact mul_le_mul_of_nonneg_left hsmall (abs_nonneg _)
  have htriangle : |Real.exp y - 1| ≤ |Real.exp y - 1 - y| + |y| := by
    simpa using abs_add_le (Real.exp y - 1 - y) y
  have hnonneg := abs_nonneg (m : ℝ)
  linarith

/-- The size of the multiple. -/
theorem abs_multiple_le (hr : |r| ≤ 1488522236) (hx : x = r + 2977044471 * m) :
    |(m : ℝ)| ≤ 29 / 20 * |(x : ℝ) / 2 ^ 32| + 51 / 100 := by
  have hr' : |(r : ℝ)| ≤ 1488522236 := by exact_mod_cast hr
  have heq : (m : ℝ) = (x - r) / 2977044471 := by
    rw [hx]
    push_cast
    ring
  have htriangle := abs_sub (x : ℝ) r
  rw [heq, abs_div, abs_div, abs_of_pos (show (0 : ℝ) < 2977044471 by norm_num),
    abs_of_pos (show (0 : ℝ) < 2 ^ 32 by norm_num), div_le_iff₀ (by norm_num)]
  have hnonneg := abs_nonneg (x : ℝ)
  linarith

/-- The error of a series that is scaled by a power of two. -/
theorem abs_scaled_sub_le (hr : |r| ≤ 1488522236) (hx : x = r + 2977044471 * m) (hm : |m| ≤ 31)
    (ht : |t - 2 ^ 32 * Real.exp ((r : ℝ) / 2 ^ 32)| ≤ 2) :
    |t * 2 ^ m - 2 ^ 32 * Real.exp ((x : ℝ) / 2 ^ 32)| ≤
      Real.exp ((x : ℝ) / 2 ^ 32) * (4 + 2 * |(x : ℝ) / 2 ^ 32|) := by
  have hscaled := exp_scaled hx
  obtain ⟨hdrift, hsmall⟩ := abs_drift_le hm
  have hmultiple := abs_multiple_le hr hx
  have hρ : |(r : ℝ) / 2 ^ 32| ≤ 7 / 20 := by
    have hr' : |(r : ℝ)| ≤ 1488522236 := by exact_mod_cast hr
    rw [abs_div, abs_of_pos (show (0 : ℝ) < 2 ^ 32 by norm_num), div_le_iff₀ (by norm_num)]
    linarith
  have hpos := Real.exp_pos ((x : ℝ) / 2 ^ 32)
  generalize (m : ℝ) * (Real.log 2 - 2977044471 / 2 ^ 32) = y at *
  generalize (x : ℝ) / 2 ^ 32 = X at *
  generalize (r : ℝ) / 2 ^ 32 = ρ at *
  have hpow : (0 : ℝ) < 2 ^ m := by positivity
  -- The power of two, by the exponential of the argument.
  have hpow_le : (2 : ℝ) ^ m ≤ Real.exp X * (31 / 20) := by
    have hone : Real.exp (y - ρ) * Real.exp (ρ - y) = 1 := by
      rw [← Real.exp_add, sub_add_sub_cancel, sub_self, Real.exp_zero]
    have hge := Real.add_one_le_exp (ρ - y)
    rw [abs_le] at hρ hsmall
    have hle : Real.exp (y - ρ) * (20 / 31) ≤ 1 := by
      rw [← hone]
      exact mul_le_mul_of_nonneg_left (by linarith) (Real.exp_pos _).le
    have heq : (2 : ℝ) ^ m = Real.exp X * Real.exp (y - ρ) := by
      rw [Real.exp_sub, ← mul_div_assoc, ← hscaled, mul_div_cancel_left₀ _ (Real.exp_ne_zero ρ)]
    rw [heq]
    exact mul_le_mul_of_nonneg_left (by linarith) hpos.le
  have hfirst : |(t - 2 ^ 32 * Real.exp ρ) * 2 ^ m| ≤ 2 * 2 ^ m := by
    rw [abs_mul, abs_of_pos hpow]
    exact mul_le_mul_of_nonneg_right ht hpow.le
  have hsecond : |2 ^ 32 * (Real.exp X * (Real.exp y - 1))| ≤
      Real.exp X * (63 / 50 * |(m : ℝ)|) := by
    rw [abs_mul, abs_mul, abs_of_pos hpos, abs_of_pos (show (0 : ℝ) < 2 ^ 32 by norm_num),
      mul_left_comm]
    exact mul_le_mul_of_nonneg_left hdrift hpos.le
  have hsum : t * 2 ^ m - 2 ^ 32 * Real.exp X =
      (t - 2 ^ 32 * Real.exp ρ) * 2 ^ m + 2 ^ 32 * (Real.exp X * (Real.exp y - 1)) := by
    linear_combination 2 ^ 32 * hscaled
  rw [hsum]
  calc _ ≤ 2 * 2 ^ m + Real.exp X * (63 / 50 * |(m : ℝ)|) :=
        (abs_add_le _ _).trans (add_le_add hfirst hsecond)
    _ ≤ Real.exp X * (31 / 10) + Real.exp X * (63 / 50 * (29 / 20 * |X| + 51 / 100)) := by
        refine add_le_add (by linarith) (mul_le_mul_of_nonneg_left ?_ hpos.le)
        linarith
    _ ≤ Real.exp X * (4 + 2 * |X|) := by
        rw [← mul_add]
        refine mul_le_mul_of_nonneg_left ?_ hpos.le
        have := abs_nonneg X
        linarith

end Scaling
section Error

variable {x : Fixed31_32}

/-- A shift without an overflow. -/
theorem shl_units {t : Fixed31_32} {k : ℕ} (hnonneg : 0 ≤ t.toInt) (hk : k < 64)
    (h : t.toInt * 2 ^ k < 2 ^ 63) :
    ∃ res, shl t (BitVec.ofNat 8 k) = .ok res ∧ res.toInt = t.toInt * 2 ^ k := by
  obtain ⟨n, hn⟩ := Int.eq_ofNat_of_zero_le hnonneg
  have hle : n ≤ n * 2 ^ k := Nat.le_mul_of_pos_right _ (by positivity)
  have hlt : n * 2 ^ k < 2 ^ 63 := by
    rw [hn] at h
    exact_mod_cast h
  have ht : t = ofMagnitude false n := ext_toInt (by rw [toInt_units (by omega), hn])
  have htoNat : (BitVec.ofNat 8 k).toNat = k := by
    rw [BitVec.toNat_ofNat]
    omega
  refine ⟨ofMagnitude false (n * 2 ^ k), ?_, ?_⟩
  · rw [shl, htoNat, if_neg (by omega), ht]
    exact congrArg (fun w => Except.ok (mk w)) (shiftLeft_ofNat n k)
  · rw [toInt_units hlt, hn]
    push_cast
    rfl

/-- A positive argument that is not small. -/
theorem exp_of_pos (hlarge : 1488522236 ≤ x.toInt)
    (hle : lnTwoMultiple x.toInt.natAbs < 64) :
    exp x = (expFromTaylorSeries (rest x) >>= fun series =>
      shl series (BitVec.ofNat 8 (lnTwoMultiple x.toInt.natAbs))) := by
  have hspec := lnTwoMultiple_spec x.toInt.natAbs
  have hpos : 0 < lnTwoMultiple x.toInt.natAbs := by
    rw [lt_lnTwoMultiple_iff]
    omega
  have hmultiple : multiple x = (lnTwoMultiple x.toInt.natAbs : ℤ) := if_neg (by omega)
  rw [exp_of_large (by omega) (by omega) (divNat_lt_of_multiple (by omega)), hmultiple]
  generalize lnTwoMultiple x.toInt.natAbs = M at hpos hle
  have hslt : (0#32).slt (BitVec.ofInt 32 (M : ℤ)) = true := by
    rw [BitVec.slt_eq_decide, BitVec.toInt_ofInt, Int.bmod_eq_of_le (by omega) (by omega)]
    exact decide_eq_true (by rw [BitVec.toInt_zero]; omega)
  have hwidth : (BitVec.ofInt 32 (M : ℤ)).setWidth 8 = BitVec.ofNat 8 M := by
    apply BitVec.eq_of_toNat_eq
    rw [BitVec.ofInt_natCast, BitVec.toNat_setWidth, BitVec.toNat_ofNat, BitVec.toNat_ofNat]
    omega
  simp only [hslt, hwidth, if_true]

/-- The series of a negative rest is less than one. -/
theorem series_lt_one {r t : Fixed31_32} (hr : r.toInt ≤ -4)
    (h : |(t.toInt : ℝ) - 2 ^ 32 * Real.exp (r.toInt / 2 ^ 32)| ≤ 2) : t.toInt < 2 ^ 32 := by
  have hr' : (r.toInt : ℝ) ≤ -4 := by exact_mod_cast hr
  have hge := Real.add_one_le_exp (-((r.toInt : ℝ) / 2 ^ 32))
  have hone : Real.exp ((r.toInt : ℝ) / 2 ^ 32) * Real.exp (-((r.toInt : ℝ) / 2 ^ 32)) = 1 := by
    rw [← Real.exp_add, add_neg_cancel, Real.exp_zero]
  have hle : Real.exp ((r.toInt : ℝ) / 2 ^ 32) * (1 + 4 / 2 ^ 32) ≤ 1 := by
    rw [← hone]
    exact mul_le_mul_of_nonneg_left (by linarith) (Real.exp_pos _).le
  have hlt : (t.toInt : ℝ) < 2 ^ 32 := by
    rw [abs_le] at h
    linarith
  exact_mod_cast hlt

/-- The division rounds once. -/
theorem exp_rounds_of_neg {t : Fixed31_32} (hneg : x.toInt < 0)
    (hlarge : 1488522236 ≤ x.toInt.natAbs) (hle : lnTwoMultiple x.toInt.natAbs ≤ 30)
    (ht : expFromTaylorSeries (rest x) = .ok t) (hnonneg : 0 ≤ t.toInt) (hlt : t.toInt < 2 ^ 33) :
    ∃ res, exp x = .ok res ∧ |(res.toInt : ℝ) - t.toInt * 2 ^ multiple x| ≤ 1 / 2 := by
  have hspec := lnTwoMultiple_spec x.toInt.natAbs
  have hpow : 2 ^ lnTwoMultiple x.toInt.natAbs < 2 ^ 31 :=
    Nat.pow_lt_pow_right (by norm_num) (by omega)
  have hmultiple : multiple x = -(lnTwoMultiple x.toInt.natAbs : ℤ) := if_pos hneg
  obtain ⟨q, hq, herror⟩ := divInt_error t (by rw [abs_of_nonneg hnonneg]; omega)
    (show 0 < 2 ^ lnTwoMultiple x.toInt.natAbs by positivity) hpow
  refine ⟨q, ?_, ?_⟩
  · rw [exp_of_neg hneg hlarge (by omega) (divNat_lt_of_multiple (by omega)), ht, ok_bind,
      if_neg (by omega), two_pow_eq, hq]
  · rw [hmultiple, zpow_neg, zpow_natCast, ← div_eq_mul_inv]
    rwa [Nat.cast_pow, Nat.cast_ofNat] at herror

/-- The shift does not round. -/
theorem exp_shifts_of_pos {t : Fixed31_32} (hlarge : 1488522236 ≤ x.toInt)
    (hhigh : x.toInt ≤ 92288378597) (hle : lnTwoMultiple x.toInt.natAbs ≤ 31)
    (ht : expFromTaylorSeries (rest x) = .ok t) (hnonneg : 0 ≤ t.toInt) (hlt : t.toInt < 2 ^ 33)
    (hclose : |(t.toInt : ℝ) - 2 ^ 32 * Real.exp ((rest x).toInt / 2 ^ 32)| ≤ 2) :
    ∃ res, exp x = .ok res ∧ |(res.toInt : ℝ) - t.toInt * 2 ^ multiple x| ≤ 1 / 2 := by
  have hmultiple : multiple x = (lnTwoMultiple x.toInt.natAbs : ℤ) := if_neg (by omega)
  have hfits : t.toInt * 2 ^ lnTwoMultiple x.toInt.natAbs < 2 ^ 63 := by
    rcases hle.lt_or_eq with hlt31 | heq
    · calc t.toInt * 2 ^ lnTwoMultiple x.toInt.natAbs ≤ t.toInt * 2 ^ 30 :=
          mul_le_mul_of_nonneg_left (pow_le_pow_right₀ (by norm_num) (by omega)) hnonneg
        _ < 2 ^ 63 := by omega
    · -- The rest is negative, as the argument is below the multiple.
      have hrest := toInt_rest (x := x) (by omega)
      rw [hmultiple, heq] at hrest
      have := series_lt_one (by omega) hclose
      rw [heq]
      omega
  obtain ⟨res, hres, htoInt⟩ := shl_units hnonneg (show lnTwoMultiple x.toInt.natAbs < 64 by omega)
    hfits
  refine ⟨res, ?_, ?_⟩
  · rw [exp_of_pos hlarge (by omega), ht, ok_bind, hres]
  · rw [htoInt, hmultiple, zpow_natCast]
    push_cast
    rw [sub_self, abs_zero]
    norm_num

/-- **The error of the exponential function**, in units, as far as its result fits. -/
theorem exp_close (hlow : -90799856365 ≤ x.toInt) (hhigh : x.toInt ≤ 92288378597) :
    ∃ res, exp x = .ok res ∧ |(res.toInt : ℝ) - 2 ^ 32 * Real.exp (x.toInt / 2 ^ 32)| ≤
      Real.exp (x.toInt / 2 ^ 32) * (4 + 2 * |(x.toInt : ℝ) / 2 ^ 32|) + 1 / 2 := by
  have hspec := lnTwoMultiple_spec x.toInt.natAbs
  by_cases hsmall : x.toInt.natAbs < 1488522236
  · by_cases hzero : x.toInt = 0
    · refine ⟨one, exp_zero hzero, ?_⟩
      have hone : one.toInt = 2 ^ 32 := by decide
      rw [hzero, hone]
      norm_num
    · obtain ⟨t, ht, hclose, -⟩ := expFromTaylorSeries_close (r := x) hsmall.le
      refine ⟨t, by rw [exp_of_small hzero (Or.inl hsmall), ht], ?_⟩
      have herror := abs_scaled_sub_le (show |x.toInt| ≤ 1488522236 by
        rw [Int.abs_eq_natAbs]; omega) (show x.toInt = x.toInt + 2977044471 * 0 by omega)
        (by norm_num) hclose
      rw [zpow_zero, mul_one] at herror
      linarith
  · have hM : lnTwoMultiple x.toInt.natAbs ≤ 31 := by
      have hiff := lt_lnTwoMultiple_iff x.toInt.natAbs 31
      omega
    have hr : Small (rest x) := small_rest (by omega)
    have hrest : (rest x).toInt = x.toInt - 2977044471 * multiple x := toInt_rest (by omega)
    obtain ⟨t, ht, hclose, -⟩ := expFromTaylorSeries_close hr
    obtain ⟨hge, hlt⟩ := series_bounds hr hclose
    have hmultiple : |multiple x| ≤ 31 := by
      rw [abs_le, multiple]
      constructor <;> split_ifs <;> omega
    have herror := abs_scaled_sub_le (show |(rest x).toInt| ≤ 1488522236 by
        rw [Int.abs_eq_natAbs]; exact_mod_cast hr)
      (show x.toInt = (rest x).toInt + 2977044471 * multiple x by omega) hmultiple hclose
    have hres : ∃ res, exp x = .ok res ∧
        |(res.toInt : ℝ) - t.toInt * 2 ^ multiple x| ≤ 1 / 2 := by
      by_cases hneg : x.toInt < 0
      · have hiff := lt_lnTwoMultiple_iff x.toInt.natAbs 30
        exact exp_rounds_of_neg hneg (by omega) (by omega) ht (by omega) hlt
      · exact exp_shifts_of_pos (by omega) hhigh hM ht (by omega) hlt hclose
    obtain ⟨res, hres, hround⟩ := hres
    refine ⟨res, hres, (abs_sub_le _ _ _).trans ((add_le_add hround herror).trans ?_)⟩
    rw [add_comm]

end Error

end Fixed31_32

end Dc
