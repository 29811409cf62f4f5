import AmdgpuPro.Sync
import AmdgpuPro.Lib.Transition

set_option autoImplicit false

/-!
# Synchronisation objects cover what was added to them

Fences of one context signal in the order of their numbers, so a synchronisation object needs to
keep the latest one only. An object *covers* a fence if that has signaled, or a fence of its context
that is not earlier is in the object or was taken out of it to be waited for.

The fence that is kept is chosen by the difference of two numbers of 32 bits. If the numbers are
more than `2 ^ 31` apart, or the later one is kept already and is `2 ^ 31` ahead, this can be the
earlier one.

## Main definitions

* `Amdgpu.SyncHistory`, `SyncHistory.Step` — an object with all fences that were added.
* `SyncHistory.Careful` — a fence that is added is close to the one it is compared with.

## Main results

* `Amdgpu.sync_covers` — a careful run.

## Design

Fences may signal between two steps, but not during a call. This loses nothing, since a call that
passes an entry because of what has signaled would still pass it when it ends.
-/

namespace Amdgpu

open Transition

/-- `amdgpu_sync_get_fence`: the entries afterwards and the fence that is returned. -/
def syncGetFence (signaled : Fence → Bool) : List Fence → List Fence × Option Fence
  | [] => ([], none)
  | e :: es => if signaled e then syncGetFence signaled es else (es, some e)

/-- What has signaled is closed under earlier fences of a context. -/
def InOrder (signaled : Fence → Bool) : Prop :=
  ∀ f g : Fence, f.context = g.context → f.seqno ≤ g.seqno → signaled g = true → signaled f = true

/-- An object, the fences that were added to it and that `amdgpu_sync_get_fence` returned, and the
fences that have signaled and whose jobs were scheduled. -/
structure SyncHistory where
  fences : List Fence
  added : List Fence
  taken : List Fence
  signaled : Fence → Bool
  scheduled : Fence → Bool

/-- A new object. -/
def SyncHistory.init : SyncHistory := ⟨[], [], [], fun _ => false, fun _ => false⟩

/-- What can happen. -/
inductive SyncOp
  | add (f : Fence) (alloc : Bool)
  | progress
  | peek (ring : ℕ)
  | get

namespace SyncHistory

/-- A fence is added, some fences signal, or the object is asked for a fence. -/
inductive Step (ringOf : ℕ → ℕ) : SyncHistory → SyncOp → SyncHistory → Prop
  | add (s : SyncHistory) (f : Fence) (alloc : Bool) (fences : List Fence)
      (h : syncFence s.fences f alloc = .ok fences) :
      Step ringOf s (.add f alloc) { s with fences := fences, added := f :: s.added }
  | progress (s : SyncHistory) (signaled scheduled : Fence → Bool)
      (hsignaled : InOrder signaled) (hscheduled : InOrder scheduled)
      (hsig : ∀ f, s.signaled f = true → signaled f = true)
      (hsched : ∀ f, s.scheduled f = true → scheduled f = true) :
      Step ringOf s .progress { s with signaled := signaled, scheduled := scheduled }
  | peek (s : SyncHistory) (ring : ℕ) :
      Step ringOf s (.peek ring)
        { s with fences := (syncPeekFence ringOf s.scheduled s.signaled ring s.fences).1 }
  | get (s : SyncHistory) :
      Step ringOf s .get
        { s with
          fences := (syncGetFence s.signaled s.fences).1
          taken := (syncGetFence s.signaled s.fences).2.toList ++ s.taken }

/-- A fence that is added is less than `2 ^ 31` before the entries of its context, and at most
`2 ^ 31` after them. -/
def Careful (s : SyncHistory) : SyncOp → Prop
  | .add f _ => ∀ e ∈ s.fences, e.context = f.context →
      e.seqno < f.seqno + 2 ^ 31 ∧ f.seqno ≤ e.seqno + 2 ^ 31
  | _ => True

/-- A fence of the context that is not earlier is in the list. -/
def Later (fs : List Fence) (f : Fence) : Prop :=
  ∃ g ∈ fs, g.context = f.context ∧ f.seqno ≤ g.seqno

/-- **The invariant**: every fence that was added has signaled, or a later one is in the object or
was taken. -/
structure Inv (s : SyncHistory) : Prop where
  signaled : InOrder s.signaled
  scheduled : InOrder s.scheduled
  covers : ∀ f ∈ s.added, s.signaled f = true ∨ Later (s.fences ++ s.taken) f

variable {ringOf : ℕ → ℕ} {s t : SyncHistory} {op : SyncOp}

/-- At the start. -/
theorem Inv.init : SyncHistory.init.Inv :=
  ⟨fun _ _ _ _ h => h, fun _ _ _ _ h => h, fun _ hf => absurd hf List.not_mem_nil⟩

/-- What covers a fence may be replaced by something later, or signal. -/
theorem Inv.of_later (h : s.Inv) {fences taken : List Fence}
    (hlater : ∀ g ∈ s.fences ++ s.taken, s.signaled g = true ∨ Later (fences ++ taken) g) :
    Inv { s with fences := fences, taken := taken } := by
  refine ⟨h.signaled, h.scheduled, fun f hf => ?_⟩
  obtain hsig | ⟨g, hg, hctx, hle⟩ := h.covers f hf
  · exact .inl hsig
  · obtain hsig | ⟨g', hg', hctx', hle'⟩ := hlater g hg
    · exact .inl (h.signaled f g hctx.symm hle hsig)
    · exact .inr ⟨g', hg', hctx'.trans hctx, hle.trans hle'⟩

/-- The fence that is added, and the entries before, are followed by entries that are not earlier,
if the comparison inside of the context is right. -/
theorem later_of_syncFence {fs fs' : List Fence} {f : Fence} {alloc : Bool}
    (h : syncFence fs f alloc = .ok fs') (hclose : ∀ e ∈ fs, e.context = f.context →
      e.seqno < f.seqno + 2 ^ 31 ∧ f.seqno ≤ e.seqno + 2 ^ 31) :
    Later fs' f ∧ ∀ g ∈ fs, Later fs' g := by
  have hself : ∀ {es : List Fence} {g : Fence}, g ∈ es → Later es g :=
    fun hg => ⟨_, hg, rfl, le_rfl⟩
  rcases syncFence_cases h with hadd | rfl
  · clear h
    induction fs generalizing fs' with
    | nil => cases hadd
    | cons e es ih =>
      obtain ⟨hctx, rfl⟩ | ⟨hctx, rest, hrest, rfl⟩ := syncAddLater_cons hadd
      · -- the later one of `e` and `f` stays
        obtain ⟨hlt, hgt⟩ := hclose e List.mem_cons_self hctx
        have hlater := Serial.later_iff hlt hgt
        have htail : ∀ g ∈ es, Later (syncKeepLater (some e) f :: es) g :=
          fun g hg => hself (List.mem_cons_of_mem _ hg)
        simp only [syncKeepLater, fenceIsLater, hctx, decide_true, Bool.true_and, hlater] at htail ⊢
        refine ⟨⟨_, List.mem_cons_self, ?_, ?_⟩, List.forall_mem_cons.mpr
          ⟨⟨_, List.mem_cons_self, ?_, ?_⟩, htail⟩⟩ <;> grind
      · obtain ⟨hf, hes⟩ := ih (fun e' he' => hclose e' (List.mem_cons_of_mem _ he')) hrest
        have hcons : ∀ g, Later rest g → Later (e :: rest) g :=
          fun g ⟨g', hg', hle⟩ => ⟨g', List.mem_cons_of_mem _ hg', hle⟩
        exact ⟨hcons f hf, List.forall_mem_cons.mpr
          ⟨hself List.mem_cons_self, fun g hg => hcons g (hes g hg)⟩⟩
  · exact ⟨hself List.mem_cons_self, fun g hg => hself (List.mem_cons_of_mem _ hg)⟩

/-- What `amdgpu_sync_get_fence` passes has signaled. -/
theorem mem_syncGetFence {signaled : Fence → Bool} {fs : List Fence} {g : Fence} (hg : g ∈ fs) :
    signaled g = true ∨ g ∈ (syncGetFence signaled fs).1 ∨
      (syncGetFence signaled fs).2 = some g := by
  induction fs with
  | nil => cases hg
  | cons e es ih =>
    rw [syncGetFence]
    rcases List.mem_cons.mp hg with rfl | hg
    · by_cases hsig : signaled g = true <;> simp [hsig]
    · by_cases hsig : signaled e = true
      · simpa [hsig] using ih hg
      · simp [hsig, hg]

/-- An exhausted object is empty. -/
theorem syncGetFence_none {signaled : Fence → Bool} {fs : List Fence}
    (h : (syncGetFence signaled fs).2 = none) : ∀ g ∈ fs, signaled g = true := by
  induction fs with
  | nil => simp
  | cons e es ih =>
    rw [syncGetFence] at h
    split_ifs at h with hsig
    · exact List.forall_mem_cons.mpr ⟨hsig, ih h⟩

/-- **A careful step keeps the invariant.** -/
theorem Inv.step (h : s.Inv) (hstep : s.Step ringOf op t) (hcareful : s.Careful op) : t.Inv := by
  have hself : ∀ {es : List Fence} {g : Fence}, g ∈ es → Later es g :=
    fun hg => ⟨_, hg, rfl, le_rfl⟩
  cases hstep with
  | add f alloc fences hadd =>
    obtain ⟨hf, hfences⟩ := later_of_syncFence hadd hcareful
    have happ : ∀ g, Later fences g → Later (fences ++ s.taken) g :=
      fun g ⟨g', hg', hle⟩ => ⟨g', List.mem_append_left _ hg', hle⟩
    have hinv : Inv { s with fences := fences, taken := s.taken } := by
      refine h.of_later fun g hg => .inr ?_
      rcases List.mem_append.mp hg with hg | hg
      · exact happ g (hfences g hg)
      · exact hself (List.mem_append_right _ hg)
    exact ⟨h.signaled, h.scheduled, List.forall_mem_cons.mpr ⟨.inr (happ f hf), hinv.covers⟩⟩
  | progress signaled scheduled hsignaled hscheduled hsig hsched =>
    exact ⟨hsignaled, hscheduled, fun f hf => (h.covers f hf).imp_left (hsig f)⟩
  | peek ring =>
    refine h.of_later fun g hg => ?_
    by_cases hsig : s.signaled g = true
    · exact .inl hsig
    · rcases List.mem_append.mp hg with hg | hg
      · exact .inr (hself (List.mem_append_left _
          (mem_syncPeekFence hg (Bool.eq_false_of_not_eq_true hsig))))
      · exact .inr (hself (List.mem_append_right _ hg))
  | get =>
    refine h.of_later fun g hg => ?_
    rcases List.mem_append.mp hg with hg | hg
    · obtain hsig | hg | hg := @mem_syncGetFence s.signaled _ _ hg
      · exact .inl hsig
      · exact .inr (hself (List.mem_append_left _ hg))
      · exact .inr (hself (by simp [hg]))
    · exact .inr (hself (by simp [hg]))

end SyncHistory

/-- **What an object covers.** In a careful run, if nothing was taken out of the object, then
`amdgpu_sync_peek_fence` for a ring returns `NULL` only when every fence that was added has
signaled, or belongs to the ring and was scheduled. When `amdgpu_sync_get_fence` returns `NULL`,
then every fence that was added has signaled as soon as the fences that were returned have. -/
theorem sync_covers {ringOf : ℕ → ℕ} {ops : List SyncOp} {s : SyncHistory}
    (hrun : Run (Guarded (SyncHistory.Step ringOf) SyncHistory.Careful) .init ops s) :
    (∀ ring, s.taken = [] → (syncPeekFence ringOf s.scheduled s.signaled ring s.fences).2 = none →
      ∀ f ∈ s.added, s.signaled f = true ∨ ringOf f.context = ring ∧ s.scheduled f = true) ∧
    ((syncGetFence s.signaled s.fences).2 = none → ∀ signaled : Fence → Bool, InOrder signaled →
      (∀ f, s.signaled f = true → signaled f = true) → (∀ g ∈ s.taken, signaled g = true) →
        ∀ f ∈ s.added, signaled f = true) := by
  have h : s.Inv := hrun.invariant SyncHistory.Inv
    (fun _ _ _ h hstep => h.step hstep.1 hstep.2) .init
  refine ⟨fun ring htaken hnone f hf => ?_, fun hnone signaled horder hmono htaken f hf => ?_⟩
  · obtain hsig | ⟨g, hg, hctx, hle⟩ := h.covers f hf
    · exact .inl hsig
    · rw [htaken, List.append_nil] at hg
      obtain ⟨hring, hsched⟩ | hsig := syncPeekFence_none hnone g hg
      · exact .inr ⟨hctx ▸ hring, h.scheduled f g hctx.symm hle hsched⟩
      · exact .inl (h.signaled f g hctx.symm hle hsig)
  · obtain hsig | ⟨g, hg, hctx, hle⟩ := h.covers f hf
    · exact hmono f hsig
    · refine horder f g hctx.symm hle ?_
      rcases List.mem_append.mp hg with hg | hg
      · exact hmono g (SyncHistory.syncGetFence_none hnone g hg)
      · exact htaken g hg

/-- Two fences of a context are added; the second one is returned, and covers the first one. -/
theorem sync_covers_twoFences : ∃ s : SyncHistory,
    Run (Guarded (SyncHistory.Step id) SyncHistory.Careful) .init
      [.add ⟨5, 1⟩ true, .add ⟨5, 2⟩ true, .get] s ∧ s.taken = [⟨5, 2⟩] ∧
      ∀ signaled : Fence → Bool, InOrder signaled → signaled ⟨5, 2⟩ = true →
        signaled ⟨5, 1⟩ = true := by
  have hrun : Run (Guarded (SyncHistory.Step id) SyncHistory.Careful) .init
      [.add ⟨5, 1⟩ true, .add ⟨5, 2⟩ true, .get] _ :=
    .cons ⟨.add _ _ _ [⟨5, 1⟩] rfl, by simp [SyncHistory.Careful, SyncHistory.init]⟩
      (.cons ⟨.add _ _ _ [⟨5, 2⟩] rfl, by simp [SyncHistory.Careful]⟩
        (.cons ⟨.get _, trivial⟩ (.nil _)))
  refine ⟨_, hrun, rfl, fun signaled horder hsig => ?_⟩
  refine (sync_covers hrun).2 rfl signaled horder (fun f hf => by cases hf) ?_ _ (by decide)
  exact List.forall_mem_singleton.mpr hsig

/-- The fence with the number `2 ^ 31 + 1` is forgotten when that with the number `1` is added. -/
theorem sync_forgets : ∃ s : SyncHistory,
    Run (SyncHistory.Step fun _ => 0) .init
      [.add ⟨5, 2 ^ 31 + 1⟩ true, .add ⟨5, 1⟩ true, .progress] s ∧ s.taken = [] ∧
      (syncPeekFence (fun _ => 0) s.scheduled s.signaled 1 s.fences).2 = none ∧
      (⟨5, 2 ^ 31 + 1⟩ : Fence) ∈ s.added ∧ s.signaled ⟨5, 2 ^ 31 + 1⟩ = false := by
  have horder : InOrder fun f => decide (f.seqno ≤ 1) :=
    fun f g _ hle hg => decide_eq_true (hle.trans (of_decide_eq_true hg))
  have hrun : Run (SyncHistory.Step fun _ => 0) .init
      [.add ⟨5, 2 ^ 31 + 1⟩ true, .add ⟨5, 1⟩ true, .progress] _ :=
    .cons (.add _ _ _ [⟨5, 2 ^ 31 + 1⟩] rfl) (.cons (.add _ _ _ [⟨5, 1⟩] (by decide))
      (.cons (.progress _ _ (fun _ => false) horder (fun _ _ _ _ h => h) (fun f hf => by cases hf)
        fun f hf => hf) (.nil _)))
  exact ⟨_, hrun, rfl, rfl, by simp, by decide⟩

end Amdgpu
