import AmdgpuPro.Sa.Reuse

set_option autoImplicit false

/-!
# The retry loop of the suballocator

The inner loop of `amdgpu_sa_bo_new` frees, tries to allocate, and moves the hole. The hole is put
at the beginning any number of times and fences signal in between, but each round that does not put
it there removes a suballocation, and an empty manager has room for the request. So the loop ends.

When it ends without room, the thread takes references to the fences in `fences` and waits for them.
`amdgpu_sa_bo_next_hole` has put them there without references, in any of its rounds, and only puts
another fence of the same list in their place. When a fence signals after it was put there, its
suballocation may be removed in a later round, and with it the last reference.

## Main definitions

* `Amdgpu.SaState.stepsLeft` — a bound for the steps that the thread with the lock has left.
* `SaWait` — a manager with `fences` and the calls of `fence_get`.
* `SaWait.Careful` — no fence in `fences` signals.

## Main results

* `Amdgpu.saBoNew_retry_ends` — the loop ends.
* `saBoNew_fences_held` — if no fence in `fences` signals, the thread takes references only to
  fences of suballocations.
* `saBoNew_stale_fence` — otherwise it may take one to a fence of none.
-/

namespace Amdgpu

open Transition

namespace SaState

variable {cfg : SaConfig} {s t : SaState} {req : SaRequest}

/-! ## The loop ends -/

/-- A bound for the rounds of the loop: two for each suballocation, and one more if the hole is at
the end. -/
def rounds (s : SaState) : ℕ := 2 * s.olist.length + if s.afterHole = [] then 1 else 0

/-- A bound for the steps that the thread with the lock has left. A round has one step in each of
`amdgpu_sa_bo_try_free` and `amdgpu_sa_bo_try_alloc`, if nothing is removed, and then those of
`amdgpu_sa_bo_next_hole`. -/
def stepsLeft (s : SaState) : ℕ :=
  match s.pc with
  | .unlocked => 0
  | .tryFree _ _ => (saNumFenceLists + 5) * s.rounds + (saNumFenceLists + 4)
  | .tryAlloc _ _ => (saNumFenceLists + 5) * s.rounds + (saNumFenceLists + 3)
  | .nextHole _ _ => (saNumFenceLists + 5) * s.rounds + (saNumFenceLists + 2)
  | .scan _ i _ => (saNumFenceLists + 5) * s.rounds + (saNumFenceLists + 1 - i)
  | .fault => 0

/-- Fewer suballocations, fewer rounds. -/
theorem rounds_lt (h : t.olist.length < s.olist.length) : t.rounds < s.rounds := by
  unfold rounds
  split_ifs <;> omega

theorem rounds_withPc (s : SaState) (pc : SaPc) :
    ({ s with pc := pc } : SaState).rounds = s.rounds := rfl

theorem rounds_pos (s : SaState) : 0 < s.rounds := by
  unfold rounds
  cases h : s.olist with
  | nil => simp [afterHole, h]
  | cons b bs => simp

/-- A round less is more than the steps of a round. -/
theorem stepsLeft_lt_of_rounds_lt {tries : ℕ → ℕ} (hpc : t.pc = .tryFree req tries)
    (hlt : t.rounds < s.rounds) (hle : (saNumFenceLists + 5) * s.rounds ≤ s.stepsLeft) :
    t.stepsLeft < s.stepsLeft := by
  have hmul := Nat.mul_le_mul_left (saNumFenceLists + 5) hlt
  rw [Nat.mul_succ] at hmul
  rw [stepsLeft, hpc]
  dsimp only
  omega

/-- What is removed is not in the list any more. -/
theorem length_removeLocked_lt {b : SaBo} (hb : b ∈ s.olist) :
    (s.removeLocked b.id).olist.length < s.olist.length := by
  refine List.length_filter_lt_length_iff_exists.mpr ⟨b, hb, ?_⟩
  simp

/-- **An empty manager has room for the request.** -/
theorem Core.tryAlloc_ne_none (h : Core cfg s) (hreq : ReqOk cfg s req) (hnil : s.olist = []) :
    s.tryAlloc cfg req ≠ none := by
  have hhole : s.hole = none := by
    by_contra hne
    obtain ⟨bo, hbo⟩ := Option.ne_none_iff_exists'.mp hne
    obtain ⟨b, hb, -⟩ := h.hole bo hbo
    rw [hnil] at hb
    cases hb
  have hsoffset : s.holeSoffset = 0 := by rw [holeSoffset, hhole]
  have heoffset : s.holeEoffset cfg = cfg.size := by
    rw [holeEoffset, afterHole, hnil, List.drop_nil]
  have hfits := cfg.fits
  have hpos := req.align_pos
  have halign := hreq.align_le
  have hsize := hreq.size_le
  rw [SaState.tryAlloc]
  simp only [hsoffset, heoffset, Nat.zero_mod, Nat.sub_zero, Nat.mod_self, Nat.add_zero]
  rw [unsignedSub_of_le (Nat.zero_le _) (by omega), Nat.mod_eq_of_lt (by omega), Nat.sub_zero,
    if_pos hsize]
  exact Option.some_ne_none _

/-- When the hole is to be moved, there is a suballocation. -/
def Started (s : SaState) : Prop := ∀ req tries, s.pc = .nextHole req tries → s.olist ≠ []

/-- **Each step of the thread with the lock makes the bound smaller.**

**Proof sketch.** A step that removes a suballocation makes a round less. The hole is put at the
beginning when it is at the end, and there is a suballocation after the beginning. The other steps
are those of one round. -/
theorem Inv.stepsLeft_lt (h : Inv cfg s) (hstarted : s.Started) (hrun : s.run cfg = some t) :
    t.stepsLeft < s.stepsLeft ∧ t.Started := by
  have hran := h.run_cases hrun
  obtain ⟨hcore, hpcok⟩ := h
  unfold PcOk at hpcok
  cases hran with
  | @freed req tries b f hpc hb hfence hsig =>
    have hpc' : (s.removeLocked b.id).pc = .tryFree req tries := hpc
    refine ⟨stepsLeft_lt_of_rounds_lt hpc' (rounds_lt (length_removeLocked_lt hb)) ?_, ?_⟩
    · simp only [stepsLeft, hpc]
      exact Nat.le_add_right _ _
    · intro _ _ habs
      rw [hpc'] at habs
      cases habs
  | kept hpc =>
    simp only [stepsLeft, hpc, rounds_withPc]
    exact ⟨by omega, fun _ _ habs => by cases habs⟩
  | room hpc halloc =>
    simp only [stepsLeft, hpc]
    exact ⟨by omega, fun _ _ habs => by cases habs⟩
  | full hpc halloc =>
    simp only [hpc] at hpcok
    simp only [stepsLeft, hpc, rounds_withPc]
    exact ⟨by omega, fun _ _ _ hnil => hcore.tryAlloc_ne_none hpcok hnil halloc⟩
  | @wrap req tries hpc hend =>
    have hne : ¬s.olist = [] := hstarted _ _ hpc
    have hafter : ({ s with hole := none, pc := .tryFree req tries } : SaState).afterHole =
        s.olist := rfl
    refine ⟨stepsLeft_lt_of_rounds_lt rfl ?_ ?_, fun _ _ habs => by cases habs⟩
    · rw [rounds, rounds, hafter, if_neg hne, if_pos hend]
      exact Nat.lt_succ_self _
    · simp only [stepsLeft, hpc]
      exact Nat.le_add_right _ _
  | first hpc =>
    simp only [stepsLeft, hpc, rounds_withPc]
    exact ⟨by omega, fun _ _ habs => by cases habs⟩
  | next hpc hi hscan =>
    simp only [stepsLeft, hpc, rounds_withPc]
    exact ⟨by omega, fun _ _ habs => by cases habs⟩
  | @found req i scan b f tries hpc hi hbest hb hfence hsig =>
    refine ⟨stepsLeft_lt_of_rounds_lt rfl (rounds_lt (length_removeLocked_lt hb)) ?_,
      fun _ _ habs => by cases habs⟩
    simp only [stepsLeft, hpc]
    exact Nat.le_add_right _ _
  | waits hpc hi hbest =>
    have hpos : 0 < (saNumFenceLists + 5) * s.rounds := Nat.mul_pos (by omega) s.rounds_pos
    simp only [stepsLeft, hpc]
    exact ⟨by omega, fun _ _ habs => by cases habs⟩

/-- The thread with the lock can go on until it gives the lock back. -/
theorem Inv.exists_run (h : Inv cfg s) (hlocked : s.pc ≠ .unlocked) : ∃ t, s.run cfg = some t := by
  obtain ⟨hcore, hpcok⟩ := h
  unfold PcOk at hpcok
  unfold SaState.run
  cases hpc : s.pc with
  | unlocked => exact (hlocked hpc).elim
  | tryFree req tries => cases s.tryFree <;> exact ⟨_, rfl⟩
  | tryAlloc req tries =>
    dsimp only
    cases s.tryAlloc cfg req <;> exact ⟨_, rfl⟩
  | nextHole req tries =>
    dsimp only
    split_ifs <;> exact ⟨_, rfl⟩
  | scan req i scan =>
    simp only [hpc] at hpcok
    dsimp only
    split_ifs
    · obtain ⟨scan', hscan, -⟩ := hcore.scanList i hpcok.2
      rw [hscan]
      exact ⟨_, rfl⟩
    · cases scan.bestBo <;> exact ⟨_, rfl⟩
  | fault => simp only [hpc] at hpcok

/-- A fence that signals does not change the bound. -/
theorem stepsLeft_signal (s : SaState) (f : Fence) :
    ({ s with signaled := Function.update s.signaled f true } : SaState).stepsLeft =
      s.stepsLeft := rfl

end SaState

/-- The steps of the thread with the lock. -/
def SaOp.isRun : SaOp → Bool
  | .run => true
  | _ => false

/-- A fence signals. -/
def SaOp.isSignal : SaOp → Bool
  | .signal _ => true
  | _ => false

/-- The steps while a thread has the lock: its own, and fences that signal. -/
def SaOp.Inner (op : SaOp) : Prop := op.isRun = true ∨ op.isSignal = true

/-- **The retry loop of `amdgpu_sa_bo_new` ends**, whenever the fences signal: from the beginning of
the loop the thread with the lock takes only so many steps, and it goes on until it gives the lock
back. -/
theorem saBoNew_retry_ends (cfg : SaConfig) {s t : SaState} {req : SaRequest} {tries : ℕ → ℕ}
    {ops : List SaOp} (h : s.Inv cfg) (hpc : s.pc = .tryFree req tries)
    (hrun : Run (Guarded (fun s op t => s.step cfg op = some t) fun _ op => op.Inner) s ops t) :
    ops.countP SaOp.isRun ≤ (saNumFenceLists + 5) * (2 * s.olist.length + 2) ∧
      (t.pc ≠ .unlocked → ∃ u, t.step cfg .run = some u) := by
  have hstarted : s.Started := fun _ _ habs => by
    rw [hpc] at habs
    cases habs
  have hinv : t.Inv cfg :=
    hrun.invariant (SaState.Inv cfg) (fun _ _ _ h hstep => h.step hstep.1) h
  have hcount : ops.countP SaOp.isRun + t.stepsLeft ≤ s.stepsLeft := by
    refine hrun.countP_add_le (fun s => s.Inv cfg ∧ s.Started) SaState.stepsLeft ?_ ⟨h, hstarted⟩
    rintro s op t ⟨h, hstarted⟩ ⟨hstep, hinner⟩
    cases op with
    | signal f =>
      obtain rfl := Option.some.inj hstep
      exact ⟨⟨h.step hstep, hstarted⟩, (s.stepsLeft_signal f).le⟩
    | new req => rcases hinner with h | h <;> cases h
    | run =>
      obtain ⟨hlt, hstarted'⟩ := h.stepsLeft_lt hstarted hstep
      exact ⟨⟨h.step hstep, hstarted'⟩, hlt⟩
    | free bo fence => rcases hinner with h | h <;> cases h
  refine ⟨?_, hinv.exists_run⟩
  have hrounds : s.rounds ≤ 2 * s.olist.length + 1 := by
    unfold SaState.rounds
    split_ifs <;> omega
  have hmul := Nat.mul_le_mul_left (saNumFenceLists + 5) hrounds
  have hleft : s.stepsLeft = (saNumFenceLists + 5) * s.rounds + (saNumFenceLists + 4) := by
    rw [SaState.stepsLeft, hpc]
  rw [Nat.mul_succ]
  omega

/-- The whole manager is given away and freed with a fence, which signals, and a thread begins to
allocate it again. -/
def freedAndSignaled : List SaOp :=
  [.new ⟨0, 0x100000, 256, Nat.succ_pos 255⟩, .run, .run, .free 0 (some ⟨7, 1⟩), .signal ⟨7, 1⟩,
    .new ⟨1, 0x100000, 256, Nat.succ_pos 255⟩]

/-- The loop puts the hole at the beginning and then has room. -/
theorem saBoNew_retry_ends_ringTmpBo : ∃ s t,
    List.foldlM (SaState.step .ringTmpBo) .init freedAndSignaled = some s ∧
    List.foldlM (SaState.step .ringTmpBo) s (List.replicate 6 .run) = some t ∧
    (List.replicate 6 SaOp.run).countP SaOp.isRun ≤
      (saNumFenceLists + 5) * (2 * s.olist.length + 2) ∧
    t.grants.map SaGrant.bo = [1, 0] := by
  obtain ⟨s, t, req, tries, hs, ht, hpc, hgrants⟩ : ∃ s t req tries,
      List.foldlM (SaState.step .ringTmpBo) .init freedAndSignaled = some s ∧
      List.foldlM (SaState.step .ringTmpBo) s (List.replicate 6 .run) = some t ∧
      s.pc = .tryFree req tries ∧ t.grants.map SaGrant.bo = [1, 0] :=
    ⟨_, _, _, _, rfl, rfl, rfl, rfl⟩
  have hinv : s.Inv .ringTmpBo := (Run.of_eval hs).invariant (SaState.Inv .ringTmpBo)
    (fun _ _ _ h hstep => h.step hstep) ⟨SaState.Core.init, trivial⟩
  have hinner : ∀ op ∈ List.replicate 6 SaOp.run, SaState → op.Inner := by
    intro op hop _
    rw [(List.mem_replicate.mp hop).2]
    exact .inl rfl
  exact ⟨s, t, hs, ht, (saBoNew_retry_ends _ hinv hpc (.of_foldlM hinner ht)).1, hgrants⟩

/-! ## The fences it waits for -/

/-- A fence belongs to a suballocation that the manager holds, with the reference of that. -/
def SaState.HoldsFence (s : SaState) (f : Fence) : Prop := ∃ b ∈ s.olist, b.fence = some f

instance (s : SaState) (f : Fence) : Decidable (s.HoldsFence f) :=
  inferInstanceAs (Decidable (∃ b ∈ s.olist, b.fence = some f))

/-- The fence of the first suballocation of a fence list. -/
def SaState.headFence (s : SaState) (i : ℕ) : Option Fence :=
  match s.flist i with
  | [] => none
  | bo :: _ => (s.find bo).bind SaBo.fence

/-- A manager with the array `fences` of the thread that has the lock, and all calls of `fence_get`
for its elements, with whether the manager held the fence at that moment. -/
structure SaWait where
  sa : SaState
  fences : ℕ → Option Fence
  gets : List (Fence × Bool)

namespace SaWait

variable (cfg : SaConfig) (s : SaWait)

/-- `fences` after a step of the thread: a round over the fence lists puts the fence of the first
suballocation there if it has not signaled. -/
def collect : ℕ → Option Fence :=
  match s.sa.pc with
  | .scan _ i _ =>
    if i < saNumFenceLists then
      match s.sa.headFence i with
      | some f => if s.sa.signaled f then s.fences else Function.update s.fences i (some f)
      | none => s.fences
    else s.fences
  | _ => s.fences

/-- The calls of `fence_get` in a step of the thread: those at the end of the loop, if nothing was
found. -/
def fenceGets : List (Fence × Bool) :=
  match s.sa.pc with
  | .scan _ i scan =>
    if i < saNumFenceLists then []
    else
      match scan.bestBo with
      | some _ => []
      | none => (List.range saNumFenceLists).filterMap fun j =>
          (s.fences j).map fun f => (f, decide (s.sa.HoldsFence f))
  | _ => []

/-- One step. -/
def step (op : SaOp) : Option SaWait :=
  match s.sa.step cfg op with
  | none => none
  | some t =>
    match op with
    -- `fences[i] = NULL`
    | .new _ => some ⟨t, fun _ => none, s.gets⟩
    | .run => some ⟨t, s.collect, s.gets ++ s.fenceGets⟩
    | _ => some { s with sa := t }

/-- A new manager. -/
def init : SaWait := ⟨.init, fun _ => none, []⟩

/-- **References are taken only to fences that the manager holds.** -/
def Safe (s : SaWait) : Prop := ∀ g ∈ s.gets, g.2 = true

/-- **No fence signals that the thread with the lock has put into `fences`.** -/
def Careful (s : SaWait) : SaOp → Prop
  | .signal f => s.sa.pc ≠ .unlocked → ∀ i, s.fences i ≠ some f
  | _ => True

end SaWait

namespace SaState

variable {cfg : SaConfig} {s t : SaState} {f : Fence}

/-- A fence that has not signaled is still held when a suballocation with another one is removed. -/
theorem HoldsFence.removeLocked (hf : s.HoldsFence f) (h : Core cfg s) {b : SaBo} {f' : Fence}
    (hb : b ∈ s.olist) (hfence : b.fence = some f') (hne : f ≠ f') :
    (s.removeLocked b.id).HoldsFence f := by
  obtain ⟨c, hc, hcf⟩ := hf
  refine ⟨c, List.mem_filter.mpr ⟨hc, ?_⟩, hcf⟩
  simp only [ne_eq, decide_not, Bool.not_eq_eq_eq_not, Bool.not_true, decide_eq_false_iff_not]
  intro hid
  rw [h.eq_of_id hc hb hid, hfence] at hcf
  exact hne (Option.some.inj hcf).symm

/-- **A step of the thread with the lock keeps the fences that have not signaled.** -/
theorem HoldsFence.ran (hf : s.HoldsFence f) (h : Inv cfg s) (hran : Ran cfg s t)
    (hsig : s.signaled f = false) : t.HoldsFence f ∧ t.signaled f = false := by
  have hne : ∀ {f'}, s.signaled f' = true → f ≠ f' := by
    rintro f' hsig' rfl
    rw [hsig] at hsig'
    cases hsig'
  obtain ⟨hcore, hpcok⟩ := h
  unfold PcOk at hpcok
  cases hran with
  | freed hpc hb hfence hsig' => exact ⟨hf.removeLocked hcore hb hfence (hne hsig'), hsig⟩
  | found hpc hi hbest hb hfence hsig' =>
    exact ⟨hf.removeLocked hcore hb hfence (hne hsig'), hsig⟩
  | room hpc halloc =>
    simp only [hpc] at hpcok
    obtain ⟨soffset, -, -, -, rfl⟩ := hcore.tryAlloc_eq hpcok halloc
    obtain ⟨b, hb, hbf⟩ := hf
    rw [← take_append_afterHole s] at hb
    refine ⟨⟨b, ?_, hbf⟩, hsig⟩
    rcases List.mem_append.mp hb with hb | hb
    · exact List.mem_append_left _ hb
    · exact List.mem_append_right _ (List.mem_cons_of_mem _ hb)
  | _ => exact ⟨hf, hsig⟩

/-- The first suballocation of a fence list is in the manager. -/
theorem holdsFence_of_headFence {i : ℕ} (h : s.headFence i = some f) : s.HoldsFence f := by
  unfold headFence at h
  split at h
  · cases h
  · obtain ⟨b, hb, hbf⟩ := Option.bind_eq_some_iff.mp h
    exact ⟨b, (mem_of_find hb).1, hbf⟩

/-- Nothing is freed while a thread has the lock. -/
theorem Inv.pc_free (h : Inv cfg s) {bo : ℕ} {fence : Option Fence}
    (hstep : s.step cfg (.free bo fence) = some t) : t.pc = .unlocked := by
  simp only [SaState.step] at hstep
  split at hstep
  · rename_i b hpc hfind
    split_ifs at hstep with hfence
    obtain ⟨hb, rfl⟩ := mem_of_find hfind
    rw [← Option.some.inj hstep, (h.1.free hb hfence fence).2, hpc]
  · cases hstep

theorem Ran.locked (h : Ran cfg s t) : s.pc ≠ .unlocked := by
  cases h <;> simp [*]

end SaState

namespace SaWait

variable {cfg : SaConfig} {s t : SaWait}

/-- The fences in `fences` have not signaled, and the manager holds them. -/
structure Inv (cfg : SaConfig) (s : SaWait) : Prop where
  sa : s.sa.Inv cfg
  fences : s.sa.pc ≠ .unlocked → ∀ i f, s.fences i = some f →
    s.sa.HoldsFence f ∧ s.sa.signaled f = false
  safe : s.Safe

/-- At most one fence is put into `fences`. -/
theorem collect_cases (s : SaWait) : s.collect = s.fences ∨ ∃ i f, s.sa.headFence i = some f ∧
    s.sa.signaled f = false ∧ s.collect = Function.update s.fences i (some f) := by
  unfold SaWait.collect
  split
  · split_ifs
    · split
      · rename_i f hhead
        split_ifs with hsig
        · exact .inl rfl
        · exact .inr ⟨_, f, hhead, by simpa using hsig, rfl⟩
      · exact .inl rfl
    · exact .inl rfl
  · exact .inl rfl

/-- What a round over the fence lists puts into `fences` has not signaled, and the manager holds
it. -/
theorem Inv.collect (h : s.Inv cfg) (hlocked : s.sa.pc ≠ .unlocked) {i : ℕ} {f : Fence}
    (hf : s.collect i = some f) : s.sa.HoldsFence f ∧ s.sa.signaled f = false := by
  rcases s.collect_cases with heq | ⟨j, f', hhead, hsig, heq⟩
  · rw [heq] at hf
    exact h.fences hlocked i f hf
  · rw [heq] at hf
    rcases eq_or_ne i j with rfl | hne
    · rw [Function.update_self] at hf
      obtain rfl := Option.some.inj hf
      exact ⟨SaState.holdsFence_of_headFence hhead, hsig⟩
    · rw [Function.update_of_ne hne] at hf
      exact h.fences hlocked i f hf

/-- The references that the thread takes at the end of the loop. -/
theorem Inv.fenceGets (h : s.Inv cfg) (hlocked : s.sa.pc ≠ .unlocked) {g : Fence × Bool}
    (hg : g ∈ s.fenceGets) : g.2 = true := by
  unfold SaWait.fenceGets at hg
  split at hg
  · split_ifs at hg
    · cases hg
    · split at hg
      · cases hg
      · obtain ⟨j, -, hj⟩ := List.mem_filterMap.mp hg
        obtain ⟨f, hf, rfl⟩ := Option.map_eq_some_iff.mp hj
        exact decide_eq_true (h.fences hlocked j f hf).1
  · cases hg

/-- **A careful step keeps the invariant.** -/
theorem Inv.step (h : s.Inv cfg) {op : SaOp} (hcareful : s.Careful op)
    (hstep : s.step cfg op = some t) : t.Inv cfg := by
  unfold SaWait.step at hstep
  cases hsa : s.sa.step cfg op with
  | none =>
    rw [hsa] at hstep
    cases hstep
  | some u =>
    rw [hsa] at hstep
    have hinv := h.sa.step hsa
    cases op with
    | signal f =>
      obtain rfl := Option.some.inj hstep
      refine ⟨hinv, fun hlocked i f' hf' => ?_, h.safe⟩
      obtain rfl := Option.some.inj hsa
      obtain ⟨hholds, hsig⟩ := h.fences hlocked i f' hf'
      have hne : f' ≠ f := fun heq => hcareful hlocked i (heq ▸ hf')
      exact ⟨hholds, (Function.update_of_ne hne _ _).trans hsig⟩
    | new req =>
      obtain rfl := Option.some.inj hstep
      exact ⟨hinv, fun _ _ _ hf => (by cases hf), h.safe⟩
    | run =>
      obtain rfl := Option.some.inj hstep
      have hran := h.sa.run_cases hsa
      refine ⟨hinv, fun _ i f hf => ?_, fun g hg => ?_⟩
      · obtain ⟨hholds, hsig⟩ := h.collect hran.locked hf
        exact hholds.ran h.sa hran hsig
      · rcases List.mem_append.mp hg with hg | hg
        · exact h.safe g hg
        · exact h.fenceGets hran.locked hg
    | free bo fence =>
      obtain rfl := Option.some.inj hstep
      exact ⟨hinv, fun hlocked => (hlocked (h.sa.pc_free hsa)).elim, h.safe⟩

end SaWait

/-- **The fences that `amdgpu_sa_bo_new` waits for are held**, if no fence signals while it is in
`fences` of a thread that has the lock. -/
theorem saBoNew_fences_held (cfg : SaConfig) {ops : List SaOp} {s : SaWait}
    (hrun : Run (Guarded (fun s op t => s.step cfg op = some t) SaWait.Careful) .init ops s) :
    s.Safe := by
  have hinv : s.Inv cfg := by
    refine hrun.invariant (SaWait.Inv cfg) ?_ ⟨⟨SaState.Core.init, trivial⟩, ?_, ?_⟩
    · rintro s op t h ⟨hstep, hcareful⟩
      exact h.step hcareful hstep
    · intro _ _ _ hf
      cases hf
    · intro g hg
      cases hg
  exact hinv.safe

/-- The requests for the four quarters of the manager. -/
def quarters : List SaOp :=
  List.flatten ((List.range 4).map fun bo =>
    [.new ⟨bo, 0x40000, 256, Nat.succ_pos 255⟩, .run, .run])

/-- The first quarter is freed with a fence. A thread that asks for a half waits for this. -/
def waitForQuarter : List SaOp :=
  quarters ++ [.free 0 (some ⟨1, 1⟩), .new ⟨4, 0x80000, 256, Nat.succ_pos 255⟩] ++
    List.replicate 39 .run

/-- It takes a reference to the fence of the first quarter. -/
theorem saBoNew_fences_held_quarter : ∃ s,
    List.foldlM (SaWait.step .ringTmpBo) .init waitForQuarter = some s ∧
      s.gets = [(⟨1, 1⟩, true)] ∧ s.Safe := by
  have heval : (List.foldlM (SaWait.step .ringTmpBo) .init waitForQuarter).map SaWait.gets =
      some [(⟨1, 1⟩, true)] := by decide +kernel
  obtain ⟨s, hs, hgets⟩ := Option.map_eq_some_iff.mp heval
  have hsignal : ∀ op ∈ waitForQuarter, op.isSignal = false := by decide
  have hcareful : ∀ op ∈ waitForQuarter, ∀ s : SaWait, s.Careful op := by
    intro op hop s
    cases op with
    | signal f => cases hsignal _ hop
    | _ => trivial
  exact ⟨s, hs, hgets, saBoNew_fences_held _ (.of_foldlM hcareful hs)⟩

/-- The first and the third quarter are freed with fences, and the second fence has signaled. A
thread asks for a half. It puts the first fence into `fences` and removes the third quarter; then
the first fence signals, and it removes the first quarter. -/
def signalWhileLocked : List SaOp :=
  quarters ++ [.free 0 (some ⟨1, 1⟩), .free 2 (some ⟨2, 1⟩), .signal ⟨2, 1⟩,
      .new ⟨4, 0x80000, 256, Nat.succ_pos 255⟩] ++
    List.replicate 39 .run ++ [.signal ⟨1, 1⟩] ++ List.replicate 72 .run

/-- **The thread takes a reference to a fence of no suballocation**: the first quarter was removed,
and with it went its reference. -/
theorem saBoNew_stale_fence : ∃ s,
    List.foldlM (SaWait.step .ringTmpBo) .init signalWhileLocked = some s ∧
      s.gets = [(⟨1, 1⟩, false)] ∧ ¬s.Safe := by
  have heval : (List.foldlM (SaWait.step .ringTmpBo) .init signalWhileLocked).map SaWait.gets =
      some [(⟨1, 1⟩, false)] := by decide +kernel
  obtain ⟨s, hs, hgets⟩ := Option.map_eq_some_iff.mp heval
  refine ⟨s, hs, hgets, fun hsafe => ?_⟩
  have habs := hsafe (⟨1, 1⟩, false) (by rw [hgets]; exact List.mem_singleton_self _)
  cases habs

end Amdgpu
