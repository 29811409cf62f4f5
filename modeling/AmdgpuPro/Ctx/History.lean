import AmdgpuPro.Ctx
import AmdgpuPro.Lib.Transition
import Mathlib.Tactic

set_option autoImplicit false

/-!
# The fences of a context over all submissions

A context numbers its submissions to a ring from `1` on, and keeps the fences of the last
`amdgpu_sched_jobs` of them. Before a slot is used again, `amdgpu_ctx_add_fence` waits for the fence
in it; so a fence that is not kept any more has signaled.

## Main definitions

* `Amdgpu.CtxHistory`, `CtxHistory.Step` — the slots with all fences that were ever added.

## Main results

* `Amdgpu.ctxGetFence_history` — what `amdgpu_ctx_get_fence` returns for every number but `0`.
-/

namespace Amdgpu

open Transition

variable {F : Type*}

/-- The slots of a ring, the fences in the order in which they were added, so that the fence with
the number `n + 1` is the entry `n`, and the fences that have signaled. -/
structure CtxHistory (F : Type*) where
  ring : CtxRing F
  issued : List F
  signaled : F → Prop

/-- Nothing was added yet. -/
def CtxHistory.init : CtxHistory F := ⟨.init, [], fun _ => False⟩

/-- What can happen. -/
inductive CtxOp (F : Type*)
  | add (fence : F)
  | signal (fence : F)

/-- A fence is added after the wait for the one in its slot, or a fence signals. -/
inductive CtxHistory.Step (schedJobs : BitVec 64) : CtxHistory F → CtxOp F → CtxHistory F → Prop
  | add (s : CtxHistory F) (fence : F)
      (hwait : ∀ other, (ctxAddFence schedJobs s.ring fence).2 = some other → s.signaled other) :
      Step schedJobs s (.add fence)
        { s with ring := (ctxAddFence schedJobs s.ring fence).1, issued := s.issued ++ [fence] }
  | signal (s : CtxHistory F) (fence : F) :
      Step schedJobs s (.signal fence) { s with signaled := fun f => f = fence ∨ s.signaled f }

/-- The slot of a number is the number modulo `amdgpu_sched_jobs`. -/
theorem ctxSlot_ofNat {schedJobs : BitVec 64} {k n : ℕ} (hjobs : schedJobs.toNat = 2 ^ k)
    (hn : n < 2 ^ 64) : ctxSlot schedJobs (BitVec.ofNat 64 n) = n % 2 ^ k := by
  have hpos : 0 < 2 ^ k := Nat.two_pow_pos k
  have hlt := schedJobs.isLt
  have hmask : (schedJobs - 1).toNat = 2 ^ k - 1 := by
    rw [BitVec.toNat_sub, hjobs]
    simp only [BitVec.ofNat_eq_ofNat, BitVec.toNat_ofNat]
    omega
  rw [ctxSlot, BitVec.toNat_and, hmask, BitVec.toNat_ofNat, Nat.mod_eq_of_lt hn,
    Nat.and_two_pow_sub_one_eq_mod]

/-- The invariant. The numbers `n + 1` with `s.issued.length ≤ n + jobs` are those that are kept. -/
structure CtxHistory.Inv (jobs : ℕ) (s : CtxHistory F) : Prop where
  sequence : s.ring.sequence = BitVec.ofNat 64 (s.issued.length + 1)
  kept : ∀ n < s.issued.length, s.issued.length ≤ n + jobs →
    s.ring.fences ((n + 1) % jobs) = s.issued[n]?
  dropped : ∀ n, n + jobs < s.issued.length → ∀ f, s.issued[n]? = some f → s.signaled f

namespace CtxHistory.Inv

variable {schedJobs : BitVec 64} {k : ℕ} {s t : CtxHistory F} {op : CtxOp F}

/-- **A step keeps the invariant.** The fence that leaves the window is the one in the slot that is
used again. -/
theorem step (hjobs : schedJobs.toNat = 2 ^ k) (h : s.Inv (2 ^ k)) (hstep : s.Step schedJobs op t)
    (hlt : t.issued.length < 2 ^ 64) : t.Inv (2 ^ k) := by
  have hpos : 0 < 2 ^ k := Nat.two_pow_pos k
  cases hstep with
  | signal fence => exact ⟨h.sequence, h.kept, fun n hn f hf => .inr (h.dropped n hn f hf)⟩
  | add fence hwait =>
    rw [List.length_append, List.length_singleton] at hlt
    have hslot : ctxSlot schedJobs s.ring.sequence = (s.issued.length + 1) % 2 ^ k := by
      rw [h.sequence, ctxSlot_ofNat hjobs hlt]
    simp only [ctxAddFence, hslot] at hwait
    refine ⟨?_, fun n hn hkept => ?_, fun n hn f hf => ?_⟩
    · simp [ctxAddFence, h.sequence, BitVec.ofNat_add]
    · simp only [List.length_append, List.length_singleton] at hn hkept
      simp only [ctxAddFence, hslot, Function.update_apply]
      split_ifs with heq
      · -- only the new number has this slot
        have hmod : (s.issued.length - n) % 2 ^ k = 0 := by
          have := Nat.sub_mod_eq_zero_of_mod_eq heq.symm
          rwa [Nat.add_sub_add_right] at this
        have hlast : n = s.issued.length := by
          by_contra hne
          have hdvd := Nat.le_of_dvd (by omega) (Nat.dvd_of_mod_eq_zero hmod)
          omega
        rw [hlast]
        simp
      · have hne : n ≠ s.issued.length := fun hn' => heq (by rw [hn'])
        rw [List.getElem?_append_left (by omega)]
        exact h.kept n (by omega) (by omega)
    · simp only [List.length_append, List.length_singleton] at hn
      rw [List.getElem?_append_left (by omega)] at hf
      rcases Nat.lt_or_ge (n + 2 ^ k) s.issued.length with hold | hnew
      · exact h.dropped n hold f hf
      · -- the fence was in the slot
        have hn' : n + 1 + 2 ^ k = s.issued.length + 1 := by omega
        refine hwait f ?_
        rw [← hn', Nat.add_mod_right, h.kept n (by omega) (by omega), hf]

/-- **Every run keeps the invariant**, as long as the numbers do not wrap around. -/
theorem run (hjobs : schedJobs.toNat = 2 ^ k) {ops : List (CtxOp F)} (h : s.Inv (2 ^ k))
    (hrun : Run (Step schedJobs) s ops t) (hlt : t.issued.length < 2 ^ 64) : t.Inv (2 ^ k) := by
  induction hrun with
  | nil => exact h
  | cons hstep hrun ih =>
    have hle : ∀ {s t : CtxHistory F} {ops : List (CtxOp F)}, Run (Step schedJobs) s ops t →
        s.issued.length ≤ t.issued.length := fun hrun =>
      hrun.invariant (fun u => _ ≤ u.issued.length) (fun _ _ _ hle hstep => hle.trans (by
        cases hstep <;> simp)) le_rfl
    exact ih (h.step hjobs hstep ((hle hrun).trans_lt hlt)) hlt

end CtxHistory.Inv

theorem CtxHistory.Inv.init (jobs : ℕ) : (CtxHistory.init (F := F)).Inv jobs :=
  ⟨rfl, fun _ hn => absurd hn (Nat.not_lt_zero _), fun _ hn => absurd hn (Nat.not_lt_zero _)⟩

/-- **What `amdgpu_ctx_get_fence` returns**, for every number but `0`, which is never issued: an
error exactly for a number that was not issued yet, the fence with the number if that is one of the
last `amdgpu_sched_jobs`, and `NULL` only for a fence that has signaled. The numbers of the fences
that are kept must not wrap around. -/
theorem ctxGetFence_history {schedJobs : BitVec 64} {k : ℕ} (hjobs : schedJobs.toNat = 2 ^ k)
    {ops : List (CtxOp F)} {s : CtxHistory F} (hrun : Run (CtxHistory.Step schedJobs) .init ops s)
    (hlt : s.issued.length + 2 ^ k < 2 ^ 64) {seq : BitVec 64} (hseq : seq ≠ 0) :
    (ctxGetFence schedJobs s.ring seq = .error .EINVAL ↔ s.issued.length < seq.toNat) ∧
      (seq.toNat ≤ s.issued.length → s.issued.length < seq.toNat + 2 ^ k →
        ∃ f, s.issued[seq.toNat - 1]? = some f ∧ ctxGetFence schedJobs s.ring seq = .ok (some f)) ∧
      (ctxGetFence schedJobs s.ring seq = .ok none →
        ∃ f, s.issued[seq.toNat - 1]? = some f ∧ s.signaled f) := by
  have hpos : 0 < 2 ^ k := Nat.two_pow_pos k
  have h := (CtxHistory.Inv.init (2 ^ k)).run hjobs hrun (by omega)
  obtain ⟨n, hn⟩ : ∃ n, seq.toNat = n + 1 :=
    Nat.exists_eq_succ_of_ne_zero fun h0 => hseq (BitVec.eq_of_toNat_eq h0)
  have hissued : s.ring.sequence ≤ seq ↔ s.issued.length < seq.toNat := by
    rw [h.sequence, BitVec.le_def, BitVec.toNat_ofNat, Nat.mod_eq_of_lt (by omega)]
    omega
  have hkept : seq.toNat ≤ s.issued.length →
      (seq + schedJobs < s.ring.sequence ↔ n + 2 ^ k < s.issued.length) := by
    intro hle
    rw [h.sequence, BitVec.lt_def, BitVec.toNat_ofNat, BitVec.toNat_add, hjobs,
      Nat.mod_eq_of_lt (by omega), Nat.mod_eq_of_lt (by omega), hn]
    omega
  have hslot : ctxSlot schedJobs seq = (n + 1) % 2 ^ k := by
    rw [← hn, ← ctxSlot_ofNat hjobs seq.isLt, BitVec.ofNat_toNat, BitVec.setWidth_eq]
  rw [hn, Nat.add_sub_cancel]
  simp only [ctxGetFence, hissued, hn, hslot]
  by_cases hle : n + 1 ≤ s.issued.length
  · have hget : s.issued[n]? = some s.issued[n] := List.getElem?_eq_getElem hle
    simp only [if_neg (Nat.not_lt.mpr hle), hkept (hn ▸ hle)]
    refine ⟨?_, fun _ hin => ?_, fun hnull => ⟨_, hget, ?_⟩⟩
    · split_ifs <;> simp <;> omega
    · rw [if_neg (by omega), h.kept n hle (by omega), hget]
      exact ⟨_, rfl, rfl⟩
    · split_ifs at hnull with hold
      · exact h.dropped n hold _ hget
      · rw [h.kept n hle (by omega), hget] at hnull
        cases hnull
  · have hgt := Nat.lt_of_not_le hle
    simp only [if_pos hgt]
    exact ⟨by simp [hgt], fun hle' => absurd hle' hle, by simp⟩

/-- Two submissions of a context that keeps one fence: the first fence has signaled. -/
theorem ctxGetFence_history_two : ∃ s : CtxHistory ℕ,
    Run (CtxHistory.Step 1) .init [.add 7, .signal 7, .add 8] s ∧
      ctxGetFence 1 s.ring 1 = .ok none ∧ s.signaled 7 ∧ ctxGetFence 1 s.ring 2 = .ok (some 8) ∧
      ctxGetFence 1 s.ring 3 = .error .EINVAL := by
  have hrun : Run (CtxHistory.Step 1) CtxHistory.init [.add 7, .signal 7, .add 8] _ :=
    .cons (.add _ 7 (by simp [CtxHistory.init, CtxRing.init, ctxAddFence])) (.cons (.signal _ 7)
      (.cons (.add _ 8 fun other hother => .inl (Option.some.inj hother).symm) (.nil _)))
  refine ⟨_, hrun, by decide, ?_, ?_, ?_⟩
  · obtain ⟨-, -, hnull⟩ := @ctxGetFence_history _ _ 0 rfl _ _ hrun (by decide) 1
      (by decide)
    obtain ⟨f, hf, hsig⟩ := hnull (by decide)
    exact Option.some.inj hf ▸ hsig
  · obtain ⟨-, hfound, -⟩ := @ctxGetFence_history _ _ 0 rfl _ _ hrun (by decide) 2
      (by decide)
    obtain ⟨f, hf, hget⟩ := hfound (by decide) (by decide)
    exact Option.some.inj hf ▸ hget
  · obtain ⟨herror, -⟩ := @ctxGetFence_history _ _ 0 rfl _ _ hrun (by decide) 3
      (by decide)
    exact herror.mpr (by decide)

/-- A context can add one fence, which has signaled, again and again. -/
theorem exists_run_replicate (schedJobs : BitVec 64) (n : ℕ) : ∃ (ops : List (CtxOp ℕ))
    (s : CtxHistory ℕ), Run (CtxHistory.Step schedJobs) .init ops s ∧
      s.issued = List.replicate n 0 ∧ s.signaled 0 ∧ ∀ i f, s.ring.fences i = some f → f = 0 := by
  induction n with
  | zero =>
    exact ⟨[.signal 0], _, .single (.signal _ 0), rfl, .inl rfl, fun i f hf => by cases hf⟩
  | succ n ih =>
    obtain ⟨ops, s, hrun, hissued, hsig, hfences⟩ := ih
    have hwait : ∀ other, (ctxAddFence schedJobs s.ring 0).2 = some other → s.signaled other :=
      fun other hother => by rwa [hfences _ _ hother]
    have hadd := CtxHistory.Step.add s 0 hwait
    refine ⟨ops ++ [.add 0], _, hrun.append (.single hadd), ?_, ?_, fun i f hf => ?_⟩
    · rw [List.replicate_succ', hissued]
    · exact hsig
    · simp only [ctxAddFence, Function.update_apply] at hf
      split_ifs at hf
      · exact (Option.some.inj hf).symm
      · exact hfences i f hf

/-- The number `0`, which is not issued, is no error; and shortly before the numbers wrap around, a
fence that was just added is not found. -/
theorem ctxGetFence_zero_and_wrap :
    ctxGetFence 4 (CtxHistory.init : CtxHistory ℕ).ring 0 = .ok none ∧
      ∃ (ops : List (CtxOp ℕ)) (s : CtxHistory ℕ), Run (CtxHistory.Step 4) .init ops s ∧
        s.issued.length = 2 ^ 64 - 3 ∧
        ctxGetFence 4 s.ring (BitVec.ofNat 64 (2 ^ 64 - 3)) = .ok none := by
  obtain ⟨ops, s, hrun, hissued, -⟩ := exists_run_replicate 4 (2 ^ 64 - 3)
  have hlen : s.issued.length = 2 ^ 64 - 3 := by rw [hissued, List.length_replicate]
  have hinv := (CtxHistory.Inv.init (2 ^ 2)).run rfl hrun (by omega)
  have hseq := hinv.sequence
  rw [hlen] at hseq
  refine ⟨by decide, ops, s, hrun, hlen, ?_⟩
  rw [ctxGetFence, hseq, if_neg (by decide), if_pos (by decide)]

end Amdgpu
