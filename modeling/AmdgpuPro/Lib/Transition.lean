import Mathlib.Data.Nat.Notation
import Mathlib.Logic.Relation
import Mathlib.Order.Defs.PartialOrder

set_option autoImplicit false

/-!
# Labelled transition systems and their runs

A system is a step relation `step s l t` between states, labelled by the event that moves `s`
to `t`. A run is a finite sequence of steps, recorded by the list of its labels, oldest first.
Everything that is proved about *every execution* of a component is an instance of one rule:
a property that holds at the start and that every step keeps holds at the end of every run.

## Main definitions

* `Transition.Run` — `Run step s ls t`: the labels `ls` lead from `s` to `t`.
* `Guarded` — the step relation restricted to the steps that meet a condition.

## Main results

* `Transition.Run.invariant` — the invariant rule.
* `Run.append`, `Run.mono` — runs compose, and more steps allow more runs.
* `Run.guard` — a run all of whose labels meet a condition.
* `Run.of_eval`, `Run.of_foldlM` — the runs of a step function can be computed.
* `Run.forall_states_iff` — a property of all states on the way is a condition on all steps.
* `Run.measure_eq_iff` — a quantity that never grows is kept by the runs all of whose steps keep it.
-/

namespace Transition

variable {S L : Type*}

/-- `Run step s ls t`: performing the labels `ls` in order leads from `s` to `t`. -/
inductive Run (step : S → L → S → Prop) : S → List L → S → Prop
  | nil (s : S) : Run step s [] s
  | cons {s t u : S} {l : L} {ls : List L} (h : step s l t) (hs : Run step t ls u) :
      Run step s (l :: ls) u

/-- The steps of `step` that meet the condition `cond`, a condition on the state before the
step and on the label. -/
def Guarded (step : S → L → S → Prop) (cond : S → L → Prop) (s : S) (l : L) (t : S) : Prop :=
  step s l t ∧ cond s l

namespace Run

variable {step step' : S → L → S → Prop} {s t u : S} {l : L} {ls ls' : List L}

/-- **The invariant rule**: what every step keeps, every run keeps. -/
theorem invariant (I : S → Prop) (hstep : ∀ s l t, I s → step s l t → I t)
    (h : Run step s ls t) (hs : I s) : I t := by
  induction h with
  | nil => exact hs
  | cons h _ ih => exact ih (hstep _ _ _ hs h)

/-- A run of one step. -/
theorem single (h : step s l t) : Run step s [l] t :=
  .cons h (.nil t)

/-- **A run has only so many steps of a kind**, if each of them makes a measure smaller and no other
step makes it larger. -/
theorem countP_add_le {p : L → Bool} (I : S → Prop) (m : S → ℕ)
    (hstep : ∀ s l t, I s → step s l t → I t ∧ m t + (if p l then 1 else 0) ≤ m s)
    (h : Run step s ls t) (hs : I s) : ls.countP p + m t ≤ m s := by
  induction h with
  | nil => simp
  | cons h _ ih =>
    obtain ⟨ht, hle⟩ := hstep _ _ _ hs h
    have hrest := ih ht
    rw [List.countP_cons]
    omega

/-- Runs compose. -/
theorem append (h : Run step s ls t) (h' : Run step t ls' u) : Run step s (ls ++ ls') u := by
  induction h with
  | nil => exact h'
  | cons h _ ih => exact .cons h (ih h')

/-- A run of a system is a run of every system with more steps. -/
theorem mono (hmono : ∀ s l t, step s l t → step' s l t) (h : Run step s ls t) :
    Run step' s ls t := by
  induction h with
  | nil => exact .nil _
  | cons h _ ih => exact .cons (hmono _ _ _ h) ih

/-- A run whose labels meet a condition in every state. -/
theorem guard {cond : S → L → Prop} (h : Run step s ls t) (hcond : ∀ l ∈ ls, ∀ s, cond s l) :
    Run (Guarded step cond) s ls t := by
  induction h with
  | nil => exact .nil _
  | cons h _ ih =>
    exact .cons ⟨h, hcond _ (by simp) _⟩ (ih fun l hl => hcond l (by simp [hl]))

/-- A computed run: labels whose condition holds in every state, performed by a step function. -/
theorem of_foldlM {f : S → L → Option S} {cond : S → L → Prop} (hcond : ∀ l ∈ ls, ∀ s, cond s l)
    (h : ls.foldlM f s = some t) : Run (Guarded (fun s l t => f s l = some t) cond) s ls t := by
  induction ls generalizing s with
  | nil => obtain rfl : s = t := Option.some.inj h; exact .nil s
  | cons l ls ih =>
    rw [List.foldlM_cons] at h
    obtain ⟨u, hu, hrest⟩ := Option.bind_eq_some_iff.mp h
    exact .cons ⟨hu, hcond l (by simp) s⟩ (ih (fun l' hl' => hcond l' (by simp [hl'])) hrest)

/-- A computed run. -/
theorem of_eval {f : S → L → Option S} (h : ls.foldlM f s = some t) :
    Run (fun s l t => f s l = some t) s ls t := by
  have hrun := @of_foldlM S L s t ls f (fun _ _ => True) (fun _ _ _ => trivial) h
  exact hrun.mono fun _ _ _ hstep => hstep.1

/-- The end of a computed run, by what is seen of it. -/
theorem exists_of_eval {f : S → L → Option S} {β : Type*} {g : S → β} {v : β}
    (h : (ls.foldlM f s).map g = some v) :
    ∃ t, Run (fun s l t => f s l = some t) s ls t ∧ g t = v := by
  obtain ⟨t, ht, hv⟩ := Option.map_eq_some_iff.mp h
  exact ⟨t, of_eval ht, hv⟩

/-- **The state rule**: if the steps from good states that meet a condition lead to good states, and
the others to states without a property that good states have, then all states on the way have the
property if and only if all steps meet the condition. -/
theorem forall_states_iff {f : S → L → Option S} {cond : S → L → Prop} (I P : S → Prop)
    (hIP : ∀ s, I s → P s)
    (hstep : ∀ s l t, I s → f s l = some t → (cond s l → I t) ∧ (P t → cond s l))
    (h : Run (fun s l t => f s l = some t) s ls t) (hs : I s) :
    (∀ ls₁ ls₂ u, ls = ls₁ ++ ls₂ → Run (fun s l t => f s l = some t) s ls₁ u → P u) ↔
      Run (Guarded (fun s l t => f s l = some t) cond) s ls t := by
  induction h with
  | nil s =>
    refine iff_of_true (fun ls₁ ls₂ u hls hrun => ?_) (.nil s)
    obtain ⟨rfl, -⟩ := List.append_eq_nil_iff.mp hls.symm
    cases hrun
    exact hIP s hs
  | @cons s v t l ls hl hrun ih =>
    obtain ⟨hgood, hcond⟩ := hstep s l v hs hl
    constructor
    · intro hall
      have hmet := hcond (hall [l] ls v rfl (.single hl))
      refine .cons ⟨hl, hmet⟩ ((ih (hgood hmet)).mp fun ls₁ ls₂ u hls hrun₁ => ?_)
      exact hall (l :: ls₁) ls₂ u (by rw [hls, List.cons_append]) (.cons hl hrun₁)
    · rintro (_ | ⟨⟨hl', hmet⟩, hrest⟩) ls₁ ls₂ u hls hrun₁
      obtain rfl := Option.some.inj (hl.symm.trans hl')
      cases hrun₁ with
      | nil => exact hIP s hs
      | @cons _ w _ l₁ ls₁ hl₁ hrun₁ =>
        obtain ⟨rfl, hrest₁⟩ := List.cons.inj hls
        obtain rfl := Option.some.inj (hl.symm.trans hl₁)
        exact (ih (hgood hmet)).mpr hrest ls₁ ls₂ u hrest₁ hrun₁

/-- **The measure rule**: if no step of a step function makes a quantity larger, and the steps that
keep it are those that meet a condition, then the runs that keep it are those all of whose steps
meet the condition. -/
theorem measure_eq_iff {M : Type*} [PartialOrder M] {f : S → L → Option S} {cond : S → L → Prop}
    (I : S → Prop) (m : S → M)
    (hstep : ∀ s l t, I s → f s l = some t → I t ∧ m t ≤ m s ∧ (m t = m s ↔ cond s l))
    (h : Run (fun s l t => f s l = some t) s ls t) (hs : I s) :
    I t ∧ m t ≤ m s ∧
      (m t = m s ↔ Run (Guarded (fun s l t => f s l = some t) cond) s ls t) := by
  induction h with
  | nil s => exact ⟨hs, le_rfl, iff_of_true rfl (.nil s)⟩
  | @cons s u t l ls hl _ ih =>
    obtain ⟨hu, hle, hcond⟩ := hstep s l u hs hl
    obtain ⟨ht, hle', hcond'⟩ := ih hu
    refine ⟨ht, le_trans hle' hle, ?_, ?_⟩
    · intro heq
      have hus : m u = m s := le_antisymm hle (heq ▸ hle')
      exact .cons ⟨hl, hcond.mp hus⟩ (hcond'.mp (heq.trans hus.symm))
    · rintro (_ | ⟨⟨hl', hmet⟩, hrest⟩)
      obtain rfl := Option.some.inj (hl.symm.trans hl')
      exact (hcond'.mpr hrest).trans (hcond.mpr hmet)

end Run

end Transition
