import Mathlib.Tactic

set_option autoImplicit false

/-!
# Ranges marked in a bitmap

An allocator that hands out ranges of equal chunks keeps a bit for each chunk, which is set while
the chunk is handed out. It looks for clear bits from some chunk on, sets the bits of a range when
it hands the range out, and clears them when it gets the range back.

## Main definitions

* `RangeMap.nextClear` — the first clear bit from a bit on.
* `Marks` — the bits that are set are those of the ranges handed out, which are disjoint.

## Main results

* `RangeMap.nextClear_spec` — what `nextClear` finds, and what it skips.
* `fill_apply` — the bits after `fill`.
* `clearCount_set`, `clearCount_clear` — a bit is set or cleared.
* `Marks.insert`, `Marks.remove` — a range is handed out, or comes back.
-/

namespace RangeMap

variable {bits bits' : ℕ → Bool} {n : ℕ}

/-! ## The bits -/

/-- The first clear bit of the bits below `n` from `start` on, or `n` if there is none. -/
def nextClear (bits : ℕ → Bool) (n start : ℕ) : ℕ :=
  ((List.range' start (n - start)).find? fun i => !bits i).getD n

/-- The bits `first`, …, `last` are given a value, one after the other. -/
def fill (bits : ℕ → Bool) (first last : ℕ) (value : Bool) : ℕ → Bool :=
  (List.range' first (last + 1 - first)).foldl (fun b i => Function.update b i value) bits

/-- **The search**: every bit it skips is set, and a bit it finds is clear. -/
theorem nextClear_spec (bits : ℕ → Bool) {start : ℕ} (h : start ≤ n) :
    start ≤ nextClear bits n start ∧ nextClear bits n start ≤ n ∧
      (∀ i, start ≤ i → i < nextClear bits n start → bits i = true) ∧
      (nextClear bits n start < n → bits (nextClear bits n start) = false) := by
  unfold nextClear
  cases hfind : (List.range' start (n - start)).find? fun i => !bits i with
  | none =>
    rw [List.find?_eq_none] at hfind
    refine ⟨h, le_rfl, fun i hle hlt => ?_, fun hlt => absurd hlt (lt_irrefl n)⟩
    have hset := hfind i (List.mem_range'_1.mpr ⟨hle, by simpa [h] using hlt⟩)
    simpa using hset
  | some r =>
    obtain ⟨hclear, before, after, hsplit, hbefore⟩ := List.find?_eq_some_iff_append.mp hfind
    have hr := List.mem_range'_1.mp (List.mem_of_find?_eq_some hfind)
    refine ⟨hr.1, by simp; omega, fun i hle hlt => ?_, fun _ => by simpa using hclear⟩
    -- what stands before `r` in the list are the bits from `start` to `r`
    have hmem : i ∈ before := by
      have hi : i ∈ List.range' start (n - start) :=
        List.mem_range'_1.mpr ⟨hle, by simp at hlt; omega⟩
      have hsorted : (List.range' start (n - start)).Pairwise (· < ·) := List.pairwise_lt_range'
      rw [hsplit] at hi hsorted
      rcases List.mem_append.mp hi with hi | hi
      · exact hi
      · have hrest := (List.pairwise_append.mp hsorted).2.1
        rcases List.mem_cons.mp hi with rfl | hi
        · simp at hlt
        · have := (List.pairwise_cons.mp hrest).1 i hi
          simp at hlt
          omega
    simpa using hbefore i hmem

/-- A clear bit is found at once. -/
theorem nextClear_eq_self {start : ℕ} (h : start < n) (hclear : bits start = false) :
    nextClear bits n start = start := by
  obtain ⟨hge, -, hskip, -⟩ := nextClear_spec bits h.le
  by_contra hne
  simp [hskip start le_rfl (by omega)] at hclear

/-- A clear bit is found if there is one. -/
theorem nextClear_lt {start i : ℕ} (hstart : start ≤ i) (hi : i < n) (hclear : bits i = false) :
    nextClear bits n start < n := by
  obtain ⟨-, hle, hskip, -⟩ := nextClear_spec bits (hstart.trans hi.le)
  refine lt_of_le_of_ne hle fun heq => ?_
  have hset : bits i = true := hskip i hstart (by omega)
  simp [hset] at hclear

/-- How many of the bits below `n` are clear. -/
def clearCount (bits : ℕ → Bool) (n : ℕ) : ℕ :=
  ((Finset.range n).filter fun i => bits i = false).card

theorem exists_clear (h : 0 < clearCount bits n) : ∃ i < n, bits i = false := by
  obtain ⟨i, hi⟩ := Finset.card_pos.mp h
  simpa using ⟨i, by simpa using hi⟩

/-- A clear bit is set. -/
theorem clearCount_set {i : ℕ} (hi : i < n) (hclear : bits i = false) :
    clearCount (Function.update bits i true) n + 1 = clearCount bits n := by
  have herase : ((Finset.range n).filter fun j => Function.update bits i true j = false) =
      ((Finset.range n).filter fun j => bits j = false).erase i := by
    ext j
    by_cases hj : j = i <;> simp [hj]
  rw [clearCount, herase]
  exact Finset.card_erase_add_one (by simp [hi, hclear])

/-- A set bit is cleared. -/
theorem clearCount_clear {i : ℕ} (hi : i < n) (hset : bits i = true) :
    clearCount (Function.update bits i false) n = clearCount bits n + 1 := by
  rw [← clearCount_set hi (Function.update_self i false bits), Function.update_idem, ← hset,
    Function.update_eq_self]

/-- The bits after `fill`. -/
theorem fill_apply {first last : ℕ} {value : Bool} (i : ℕ) :
    fill bits first last value i = if first ≤ i ∧ i ≤ last then value else bits i := by
  have hloop : ∀ (is : List ℕ) (b : ℕ → Bool),
      is.foldl (fun b i => Function.update b i value) b i = if i ∈ is then value else b i := by
    intro is
    induction is with
    | nil => simp
    | cons j is ih =>
      intro b
      rw [List.foldl_cons, ih]
      by_cases hmem : i ∈ is
      · simp [hmem]
      · by_cases hij : i = j
        · simp [hij]
        · simp [hmem, hij]
  rw [fill, hloop]
  refine if_congr ?_ rfl rfl
  rw [List.mem_range'_1]
  omega

/-! ## The ranges handed out -/

variable {α : Type*} {first last : α → ℕ} {xs : List α}

/-- The ranges `first x`, …, `last x` of the `xs` lie below `n` and are disjoint, and the bits below
`n` that are set are those that belong to them. -/
structure Marks (bits : ℕ → Bool) (n : ℕ) (first last : α → ℕ) (xs : List α) : Prop where
  inside : ∀ x ∈ xs, first x ≤ last x ∧ last x < n
  disjoint : xs.Pairwise fun x y => last x < first y ∨ last y < first x
  marked : ∀ i < n, bits i = true ↔ ∃ x ∈ xs, first x ≤ i ∧ i ≤ last x

namespace Marks

/-- No range, and no bit. -/
theorem nil (h : ∀ i < n, bits i = false) : Marks bits n first last [] where
  inside := by simp
  disjoint := List.Pairwise.nil
  marked i hi := by simp [h i hi]

/-- Only the bits below `n` matter. -/
theorem congr (h : Marks bits n first last xs) (heq : ∀ i < n, bits' i = bits i) :
    Marks bits' n first last xs where
  inside := h.inside
  disjoint := h.disjoint
  marked i hi := by rw [heq i hi, h.marked i hi]

/-- **A range whose bits are clear is handed out.** -/
theorem insert (h : Marks bits n first last xs) {x : α} (hle : first x ≤ last x)
    (hlt : last x < n) (hclear : ∀ i, first x ≤ i → i ≤ last x → bits i = false) :
    Marks (fill bits (first x) (last x) true) n first last (x :: xs) where
  inside := by
    intro y hy
    rcases List.mem_cons.mp hy with rfl | hy
    · exact ⟨hle, hlt⟩
    · exact h.inside y hy
  disjoint := by
    refine List.pairwise_cons.mpr ⟨fun y hy => ?_, h.disjoint⟩
    -- a common chunk would be both clear and marked
    by_contra hmeet
    push Not at hmeet
    obtain ⟨hyle, hylt⟩ := h.inside y hy
    have hclear' := hclear (max (first x) (first y)) (le_max_left _ _) (by omega)
    have hset := (h.marked (max (first x) (first y)) (by omega)).mpr
      ⟨y, hy, le_max_right _ _, by omega⟩
    simp [hset] at hclear'
  marked i hi := by
    rw [fill_apply]
    by_cases hin : first x ≤ i ∧ i ≤ last x
    · simp [hin]
    · rw [if_neg hin, h.marked i hi]
      simp [hin]

/-- **A range comes back.** -/
theorem remove (h : Marks bits n first last xs) {x : α} {before after : List α}
    (hxs : xs = before ++ x :: after) :
    Marks (fill bits (first x) (last x) false) n first last (before ++ after) := by
  have hsub : List.Sublist (before ++ after) xs := by
    rw [hxs]
    exact List.Sublist.append_left (List.sublist_cons_self x after) before
  have hdisj := h.disjoint
  rw [hxs, List.pairwise_append, List.pairwise_cons] at hdisj
  refine ⟨fun y hy => h.inside y (hsub.subset hy), h.disjoint.sublist hsub, fun i hi => ?_⟩
  rw [fill_apply]
  by_cases hin : first x ≤ i ∧ i ≤ last x
  · rw [if_pos hin]
    refine iff_of_false (by simp) ?_
    rintro ⟨y, hy, hyi⟩
    have hapart : last y < first x ∨ last x < first y := by
      rcases List.mem_append.mp hy with hy | hy
      · exact hdisj.2.2 y hy x (by simp)
      · exact (hdisj.2.1.1 y hy).symm
    omega
  · rw [if_neg hin, h.marked i hi, hxs]
    constructor
    · rintro ⟨y, hy, hyi⟩
      rcases List.mem_append.mp hy with hy | hy
      · exact ⟨y, by simp [hy], hyi⟩
      · rcases List.mem_cons.mp hy with rfl | hy
        · exact absurd hyi hin
        · exact ⟨y, by simp [hy], hyi⟩
    · rintro ⟨y, hy, hyi⟩
      refine ⟨y, ?_, hyi⟩
      rcases List.mem_append.mp hy with hy | hy <;> simp [hy]

end Marks

end RangeMap
