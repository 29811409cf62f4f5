import Mathlib.Data.List.Induction

set_option autoImplicit false

/-!
# While loops

`while (cond s) s = body s` on a state `s`. The loop is run for a number of rounds that is given
from outside; it ends if there is a number that is enough.

## Main definitions

* `While.loop` — the loop, for at most so many rounds.
* `Visits` — the states that the loop comes to.

## Main results

* `While.loop_of_le` — more rounds do no harm.
* `ends_of_body` — a loop ends if it ends after its next round.
* `ends_of_measure` — a loop ends if every round makes a measure smaller.
* `exists_loop` — what a loop has computed when it ends.
* `not_ends` — a loop does not end if its condition is kept by its body.
* `foldl_rank` — a loop that gets an answer in every round has only so many rounds.
-/

namespace While

variable {S : Type*}

/-- `while (cond s) s = body s`, for at most `fuel` rounds; `none` if it goes on after them. -/
def loop (cond : S → Bool) (body : S → S) : ℕ → S → Option S
  | 0, s => if cond s then none else some s
  | fuel + 1, s => if cond s then loop cond body fuel (body s) else some s

/-- The loop ends. -/
def Ends (cond : S → Bool) (body : S → S) (s : S) : Prop :=
  ∃ fuel t, loop cond body fuel s = some t

variable {cond : S → Bool} {body : S → S} {s : S}

/-- A loop that does not begin has ended. -/
theorem ends_of_not (h : cond s = false) : Ends cond body s := by
  refine ⟨0, s, ?_⟩
  rw [loop, h]
  rfl

/-- More rounds do no harm. -/
theorem loop_of_le {fuel fuel' : ℕ} {t : S} (h : loop cond body fuel s = some t)
    (hle : fuel ≤ fuel') : loop cond body fuel' s = some t := by
  induction fuel generalizing fuel' s with
  | zero =>
    rw [loop] at h
    split at h
    · cases h
    · cases fuel' with
      | zero => rwa [loop, if_neg ‹_›]
      | succ fuel' => rwa [loop, if_neg ‹_›]
  | succ fuel ih =>
    obtain ⟨n, rfl⟩ : ∃ n, fuel' = n + 1 := ⟨fuel' - 1, by omega⟩
    rw [loop] at h ⊢
    split at h
    · rw [if_pos ‹_›]
      exact ih h (by omega)
    · rwa [if_neg ‹_›]

/-- A loop ends if it ends after its next round. -/
theorem ends_of_body (h : Ends cond body (body s)) : Ends cond body s := by
  obtain ⟨fuel, t, ht⟩ := h
  by_cases hc : cond s = true
  · exact ⟨fuel + 1, t, by rw [loop, if_pos hc, ht]⟩
  · exact ends_of_not (Bool.eq_false_iff.mpr hc)

/-- **A loop ends** if every round makes a measure smaller, as long as an invariant is kept. -/
theorem ends_of_measure (I : S → Prop) (m : S → ℕ)
    (h : ∀ s, I s → cond s = true → I (body s) ∧ m (body s) < m s) (hs : I s) :
    Ends cond body s := by
  -- induction on a bound of the measure
  have hbound : ∀ n s, I s → m s ≤ n → Ends cond body s := by
    intro n
    induction n with
    | zero =>
      intro s hs hle
      by_cases hc : cond s = true
      · have := (h s hs hc).2
        omega
      · exact ends_of_not (Bool.eq_false_iff.mpr hc)
    | succ n ih =>
      intro s hs hle
      by_cases hc : cond s = true
      · obtain ⟨hs', hlt⟩ := h s hs hc
        exact ends_of_body (ih _ hs' (by omega))
      · exact ends_of_not (Bool.eq_false_iff.mpr hc)
  exact hbound _ s hs (Nat.le_refl _)

/-- **A loop does not end** if an invariant of its body implies its condition. -/
theorem not_ends (I : S → Prop) (h : ∀ s, I s → cond s = true ∧ I (body s)) (hs : I s) :
    ¬ Ends cond body s := by
  rintro ⟨fuel, t, ht⟩
  induction fuel generalizing s with
  | zero =>
    rw [loop, if_pos (h s hs).1] at ht
    cases ht
  | succ fuel ih =>
    rw [loop, if_pos (h s hs).1] at ht
    exact ih (h s hs).2 ht

/-- The loop comes to a state, where it goes on or ends. -/
inductive Visits (cond : S → Bool) (body : S → S) (s : S) : S → Prop
  | start : Visits cond body s s
  | round {t : S} : Visits cond body s t → cond t = true → Visits cond body s (body t)

/-- What a loop comes to after its next round, it comes to. -/
theorem Visits.of_body {t : S} (hcond : cond s = true) (h : Visits cond body (body s) t) :
    Visits cond body s t := by
  induction h with
  | start => exact .round .start hcond
  | round _ hcond' ih => exact ih.round hcond'

/-- A loop that ends does so from every state that it comes to. -/
theorem Visits.ends {t : S} (hvisits : Visits cond body s t) (h : Ends cond body s) :
    Ends cond body t := by
  induction hvisits with
  | start => exact h
  | round _ hcond ih =>
    obtain ⟨fuel, u, hu⟩ := ih
    cases fuel with
    | zero =>
      rw [loop, if_pos hcond] at hu
      cases hu
    | succ fuel =>
      rw [loop, if_pos hcond] at hu
      exact ⟨fuel, u, hu⟩

/-- A loop ends in a state that it comes to and where it does not go on. -/
theorem visits_of_loop {fuel : ℕ} {t : S} (h : loop cond body fuel s = some t) :
    Visits cond body s t ∧ cond t = false := by
  have hstop : ∀ {s : S}, ¬ cond s = true → some s = some t →
      Visits cond body s t ∧ cond t = false := by
    intro s hcond heq
    obtain rfl := Option.some.inj heq
    exact ⟨.start, Bool.eq_false_iff.mpr hcond⟩
  induction fuel generalizing s with
  | zero =>
    rw [loop] at h
    split at h
    · cases h
    · exact hstop ‹_› h
  | succ fuel ih =>
    rw [loop] at h
    split at h
    · exact ⟨(ih h).1.of_body ‹_›, (ih h).2⟩
    · exact hstop ‹_› h

/-- An invariant of the body holds in every state that the loop comes to. -/
theorem Visits.invariant {t : S} (I : S → Prop) (h : ∀ s, I s → cond s = true → I (body s))
    (hs : I s) (hvisits : Visits cond body s t) : I t := by
  induction hvisits with
  | start => exact hs
  | round _ hcond ih => exact h _ ih hcond

/-- **What a loop has computed** when it ends: an invariant holds and its condition does not. -/
theorem exists_loop (I : S → Prop) (m : S → ℕ)
    (h : ∀ s, I s → cond s = true → I (body s) ∧ m (body s) < m s) (hs : I s) :
    ∃ fuel t, loop cond body fuel s = some t ∧ I t ∧ cond t = false := by
  obtain ⟨fuel, t, ht⟩ := ends_of_measure I m h hs
  obtain ⟨hvisits, hcond⟩ := visits_of_loop ht
  exact ⟨fuel, t, ht, hvisits.invariant I (fun s hs hcond => (h s hs hcond).1) hs, hcond⟩

/-- **A loop that gets an answer in every round**, and that stops by itself. If every round that it
goes on after makes a rank smaller, the number of its rounds is bounded by its first rank. -/
theorem foldl_rank {R : Type*} {round : S → R → S} {going : S → Bool} {count rank : S → ℕ}
    (Within : S → Prop) (hstop : ∀ s r, going s = false → round s r = s)
    (hround : ∀ s r, going s = true → Within s → count (round s r) = count s + 1 ∧
      (going (round s r) = true → Within (round s r) ∧ rank (round s r) < rank s))
    (hs : going s = true → Within s) (hcount : count s = 0) (answers : List R) :
    count (answers.foldl round s) ≤ rank s + 1 ∧
      (going (answers.foldl round s) = true → Within (answers.foldl round s) ∧
        count (answers.foldl round s) = answers.length ∧
        answers.length + rank (answers.foldl round s) ≤ rank s) := by
  induction answers using List.reverseRecOn with
  | nil => exact ⟨by simp [hcount], fun h => ⟨hs h, hcount, by simp⟩⟩
  | append_singleton answers r ih =>
    rw [List.foldl_append, List.foldl_cons, List.foldl_nil]
    generalize answers.foldl round s = t at ih ⊢
    by_cases ht : going t = true
    · obtain ⟨hwithin, hlen, hrank⟩ := ih.2 ht
      obtain ⟨hone, hgo⟩ := hround t r ht hwithin
      refine ⟨by omega, fun h => ?_⟩
      obtain ⟨hwithin', hlt⟩ := hgo h
      refine ⟨hwithin', ?_, ?_⟩ <;> rw [List.length_append, List.length_singleton] <;> omega
    · rw [hstop t r (Bool.eq_false_iff.mpr ht)]
      exact ⟨ih.1, fun h => absurd h ht⟩

end While
