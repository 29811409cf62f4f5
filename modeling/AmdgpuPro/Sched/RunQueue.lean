import AmdgpuPro.Lib.RoundRobin
import AmdgpuPro.Lib.Transition
import Mathlib.Tactic

set_option autoImplicit false

/-!
# The run queues of the scheduler

`amd_sched_rq_select_entity` looks for an entity with a job that can run. It begins behind the
entity that it has selected last and ends with that one. Entities are added at the end of the queue.
When the entity that was selected last is removed, the next search begins at the first entity.

## Main definitions

* `AmdSched.RunQueue`, `RunQueue.scanOrder` — a queue, and the order of a search.

## Main results

* `AmdSched.RunQueue.Ok.selectEntity_eq` — the first ready entity in the order of `scanOrder` is
  selected.
* `rqSelectEntity_fair` — a ready entity is selected if there is one, and none is selected twice
  while another one waits.
-/

namespace AmdSched

open Transition (Run Guarded)
open RoundRobin

/-- `struct amd_sched_rq` -/
structure RunQueue where
  entities : List ℕ
  currentEntity : Option ℕ

/-- The order in which `amd_sched_rq_select_entity` looks at the entities: those after the current
one, and then from the first one to the current one. -/
def RunQueue.scanOrder (rq : RunQueue) : List ℕ :=
  match rq.currentEntity with
  | none => rq.entities
  | some c =>
    let before := rq.entities.takeWhile fun e => e ≠ c
    let rest := rq.entities.dropWhile fun e => e ≠ c
    rest.drop 1 ++ before ++ rest.take 1

namespace RunQueue

variable (rq : RunQueue)

/-! ## The functions -/

/-- `amd_sched_rq_add_entity` -/
def addEntity (e : ℕ) : RunQueue :=
  if e ∈ rq.entities then rq else { rq with entities := rq.entities ++ [e] }

/-- `amd_sched_rq_remove_entity` -/
def removeEntity (e : ℕ) : RunQueue :=
  if e ∈ rq.entities then
    { entities := rq.entities.filter fun e' => e' ≠ e
      currentEntity := if rq.currentEntity = some e then none else rq.currentEntity }
  else rq

/-- The second loop of `amd_sched_rq_select_entity`: from the first entity to the current one. -/
def selectUpTo (ready : ℕ → Bool) (current : Option ℕ) : List ℕ → Option ℕ
  | [] => none
  | e :: es =>
    if ready e then some e
    else if some e = current then none
    else selectUpTo ready current es

/-- `amd_sched_rq_select_entity`, with the entities that are ready -/
def selectEntity (ready : ℕ → Bool) : Option ℕ × RunQueue :=
  let next :=
    match rq.currentEntity with
    | some c => ((rq.entities.dropWhile fun e => e ≠ c).drop 1).find? ready
    | none => none
  match next with
  | some e => (some e, { rq with currentEntity := some e })
  | none =>
    match selectUpTo ready rq.currentEntity rq.entities with
    | some e => (some e, { rq with currentEntity := some e })
    | none => (none, rq)

/-! ## One selection -/

variable {rq}

/-- The entities are different, and the current one is among them. -/
def Ok (rq : RunQueue) : Prop := Valid rq.entities rq.currentEntity

theorem scanOrder_eq (rq : RunQueue) : rq.scanOrder = order rq.entities rq.currentEntity := by
  unfold scanOrder order
  cases rq.currentEntity <;> rfl

/-- The second loop, over all entities. -/
theorem selectUpTo_none (ready : ℕ → Bool) (es : List ℕ) :
    selectUpTo ready none es = es.find? ready := by
  induction es with
  | nil => rfl
  | cons e es ih =>
    rw [selectUpTo, List.find?_cons, ih, if_neg (Option.some_ne_none e)]
    cases ready e <;> rfl

/-- The second loop, up to the current entity. -/
theorem selectUpTo_some (ready : ℕ → Bool) {c : ℕ} {pre : List ℕ} (post : List ℕ) (hc : c ∉ pre) :
    selectUpTo ready (some c) (pre ++ c :: post) = (pre ++ [c]).find? ready := by
  induction pre with
  | nil =>
    rw [List.nil_append, List.nil_append, selectUpTo, List.find?_singleton, if_pos rfl]
  | cons e pre ih =>
    have hcur : some e ≠ some c := fun heq =>
      hc (Option.some.inj heq ▸ List.mem_cons_self)
    have hpre : c ∉ pre := fun hmem => hc (List.mem_cons_of_mem e hmem)
    rw [List.cons_append, List.cons_append, selectUpTo, List.find?_cons, ih hpre, if_neg hcur]
    cases ready e <;> rfl

/-- **The first ready entity in the order of the turns is selected**, and it is the current one
then. -/
theorem Ok.selectEntity_eq (h : rq.Ok) (ready : ℕ → Bool) :
    rq.selectEntity ready = (rq.scanOrder.find? ready,
      { rq with currentEntity := (rq.scanOrder.find? ready).or rq.currentEntity }) := by
  obtain ⟨entities, current⟩ := rq
  rw [scanOrder_eq]
  unfold selectEntity
  cases current with
  | none =>
    dsimp only
    rw [selectUpTo_none, order]
    cases entities.find? ready <;> rfl
  | some c =>
    obtain ⟨pre, post, rfl⟩ := List.append_of_mem (h.mem c rfl)
    have hc : c ∉ pre := h.notMem
    have hfind : (post ++ (pre ++ [c])).find? ready =
        (post.find? ready).or ((pre ++ [c]).find? ready) := List.find?_append
    dsimp only
    rw [dropWhile_ne hc, List.drop_one, List.tail_cons, selectUpTo_some ready post hc,
      order_some hc, List.append_assoc, hfind]
    cases post.find? ready with
    | some e => rfl
    | none => cases (pre ++ [c]).find? ready <;> rfl

theorem Ok.mem_scanOrder (h : rq.Ok) (e : ℕ) : e ∈ rq.scanOrder ↔ e ∈ rq.entities := by
  rw [scanOrder_eq]
  exact h.perm.mem_iff

/-- **A ready entity is selected if there is one.** -/
def SelectsReady (rq : RunQueue) : Prop :=
  ∀ ready : ℕ → Bool,
    (∀ e, (rq.selectEntity ready).1 = some e → e ∈ rq.entities ∧ ready e = true) ∧
      ((∃ e ∈ rq.entities, ready e = true) → (rq.selectEntity ready).1 ≠ none)

theorem Ok.selectsReady (h : rq.Ok) : rq.SelectsReady := by
  intro ready
  rw [h.selectEntity_eq]
  refine ⟨fun e he => ?_, ?_⟩
  · exact ⟨(h.mem_scanOrder e).mp (List.mem_of_find?_eq_some he), List.find?_some he⟩
  · rintro ⟨e, he, hready⟩ hnone
    exact List.find?_eq_none.mp hnone e ((h.mem_scanOrder e).mpr he) hready

/-- Removing an entity that is not on the queue changes nothing. -/
theorem Ok.removeEntity_eq (h : rq.Ok) (e : ℕ) : rq.removeEntity e =
    { entities := rq.entities.filter fun e' => e' ≠ e
      currentEntity := if rq.currentEntity = some e then none else rq.currentEntity } := by
  unfold removeEntity
  split_ifs with hmem hcur hcur
  · rfl
  · rfl
  · exact (hmem (h.mem e hcur)).elim
  · have hall : (rq.entities.filter fun e' => e' ≠ e) = rq.entities :=
      List.filter_eq_self.mpr fun e' he' => decide_eq_true fun heq => hmem (heq ▸ he')
    rw [hall]

end RunQueue

/-! ## Runs -/

/-- The steps of a run queue; a selection has the entities that are ready, and its result. -/
inductive RqOp
  | add (e : ℕ)
  | remove (e : ℕ)
  | select (ready : ℕ → Bool) (result : Option ℕ)

/-- A run queue with the entity that was selected last. -/
structure RqState where
  rq : RunQueue
  lastSelected : Option ℕ

namespace RqState

/-- A new run queue, after `amd_sched_rq_init`. -/
def init : RqState := ⟨⟨[], none⟩, none⟩

/-- One step. -/
def Step (s : RqState) : RqOp → RqState → Prop
  | .add e, t => t = { s with rq := s.rq.addEntity e }
  | .remove e, t => t = { s with rq := s.rq.removeEntity e }
  | .select ready result, t =>
    s.rq.selectEntity ready = (result, t.rq) ∧ t.lastSelected = result.or s.lastSelected

/-- The entity that was selected last is not removed. -/
def Allowed (s : RqState) : RqOp → Prop
  | .remove e => s.lastSelected ≠ some e
  | _ => True

/-- The queue is in order, and its current entity is the one that was selected last. -/
structure Inv (s : RqState) : Prop where
  ok : s.rq.Ok
  current : s.rq.currentEntity = s.lastSelected

variable {s t : RqState} {e f : ℕ}

theorem Inv.init : init.Inv := ⟨⟨List.nodup_nil, fun _ h => by cases h⟩, rfl⟩

/-- The current entity stays, if another one is removed. -/
theorem Inv.removeEntity_eq (h : s.Inv) (hlast : s.lastSelected ≠ some e) :
    s.rq.removeEntity e = { s.rq with entities := s.rq.entities.filter fun e' => e' ≠ e } := by
  have hcur : ¬s.rq.currentEntity = some e := h.current ▸ hlast
  rw [h.ok.removeEntity_eq, if_neg hcur]

/-- A selection without a result changes nothing. -/
theorem Inv.select_none {ready : ℕ → Bool} (h : s.Inv) (hstep : s.Step (.select ready none) t) :
    t.rq = s.rq := by
  have hselect := hstep.1
  rw [h.ok.selectEntity_eq, Prod.mk.injEq] at hselect
  rw [← hselect.2, hselect.1]
  rfl

/-- **A selection**: the entities before the selected one in the order of the turns are not ready,
and then it has its turn after all others. -/
theorem Inv.select_some {ready : ℕ → Bool} (h : s.Inv)
    (hstep : s.Step (.select ready (some e)) t) : t.rq = { s.rq with currentEntity := some e } ∧
      ∃ pre post, s.rq.scanOrder = pre ++ e :: post ∧ (∀ x ∈ pre, ready x = false) ∧
        t.rq.scanOrder = post ++ pre ++ [e] := by
  have hselect := hstep.1
  rw [h.ok.selectEntity_eq, Prod.mk.injEq] at hselect
  obtain ⟨hfind, hrq⟩ := hselect
  rw [hfind, Option.some_or] at hrq
  obtain ⟨-, pre, post, horder, hpre⟩ := List.find?_eq_some_iff_append.mp hfind
  refine ⟨hrq.symm, pre, post, horder, fun x hx => by simpa using hpre x hx, ?_⟩
  rw [RunQueue.scanOrder_eq] at horder ⊢
  rw [← hrq]
  exact Valid.order_turn h.ok horder

/-- **Each step keeps the invariant.** -/
theorem Inv.step {op : RqOp} (h : s.Inv) (hstep : s.Step op t) (hallowed : s.Allowed op) :
    t.Inv := by
  cases op with
  | add e =>
    obtain rfl := hstep
    unfold RunQueue.addEntity
    split_ifs with hmem
    · exact h
    · exact ⟨Valid.add h.ok hmem, h.current⟩
  | remove e =>
    obtain rfl := hstep
    have hcur : s.rq.currentEntity ≠ some e := h.current ▸ hallowed
    rw [h.removeEntity_eq hallowed]
    exact ⟨Valid.remove h.ok hcur, h.current⟩
  | select ready result =>
    have hlast := hstep.2
    cases result with
    | none =>
      have hrq := h.select_none hstep
      rw [Option.none_or] at hlast
      exact ⟨hrq ▸ h.ok, by rw [hrq, hlast, h.current]⟩
    | some e =>
      obtain ⟨hrq, pre, post, horder, -⟩ := h.select_some hstep
      have hmem : e ∈ s.rq.entities := by
        rw [← h.ok.mem_scanOrder, horder]
        exact List.mem_append_right _ List.mem_cons_self
      exact ⟨hrq ▸ Valid.turn h.ok hmem, by rw [hrq, hlast, Option.some_or]⟩

/-- The entity `f` comes before `e` in the order of the turns. -/
def Waits (s : RqState) (f e : ℕ) : Prop := Before s.rq.scanOrder f e

/-- The steps that do not concern `e` and `f`, and selections in which `f` is ready but another
entity is selected. -/
def PassesOver (f e : ℕ) : RqOp → Prop
  | .add _ => True
  | .remove x => x ≠ e ∧ x ≠ f
  | .select ready result => ready f = true ∧ result ≠ some f

/-- **An entity that waits for its turn before another one goes on to do so.** -/
theorem Waits.step {op : RqOp} (hw : s.Waits f e) (h : s.Inv) (hstep : s.Step op t)
    (hallowed : s.Allowed op) (hpass : PassesOver f e op) : t.Waits f e := by
  unfold Waits at hw ⊢
  cases op with
  | add x =>
    obtain rfl := hstep
    unfold RunQueue.addEntity
    split_ifs with hmem
    · exact hw
    · rw [RunQueue.scanOrder_eq] at hw ⊢
      exact hw.mono (Valid.order_add h.ok x)
  | remove x =>
    obtain rfl := hstep
    have hcur : s.rq.currentEntity ≠ some x := h.current ▸ hallowed
    rw [RunQueue.scanOrder_eq] at hw ⊢
    rw [h.removeEntity_eq hallowed]
    dsimp only
    rw [Valid.order_remove h.ok hcur]
    exact hw.filter (decide_eq_true hpass.2.symm) (decide_eq_true hpass.1.symm)
  | select ready result =>
    obtain ⟨hready, hresult⟩ := hpass
    cases result with
    | none => rwa [h.select_none hstep]
    | some g =>
      obtain ⟨-, pre, post, horder, hpre, horder'⟩ := h.select_some hstep
      -- `f` is ready, so it is behind the selected entity
      have hnot : f ∉ pre := fun hmem => by
        rw [hpre f hmem] at hready
        cases hready
      have hne : f ≠ g := fun heq => hresult (congrArg some heq.symm)
      rw [horder] at hw
      rw [horder']
      exact hw.turn hnot hne

/-- All others wait for their turn before the entity that is selected. -/
theorem Inv.waits_of_select {ready : ℕ → Bool} (h : s.Inv)
    (hstep : s.Step (.select ready (some e)) t) (hne : f ≠ e) (hf : f ∈ s.rq.entities) :
    t.Waits f e := by
  obtain ⟨-, pre, post, horder, -, horder'⟩ := h.select_some hstep
  have hmem : f ∈ post ++ pre := by
    rw [← h.ok.mem_scanOrder, horder] at hf
    rcases List.mem_append.mp hf with hf | hf
    · exact List.mem_append_right _ hf
    · exact List.mem_append_left _ ((List.mem_cons.mp hf).resolve_left hne)
  unfold Waits
  rw [horder']
  exact before_concat hmem

/-- An entity is not selected while a ready one waits for its turn before it. -/
theorem Waits.not_selected {ready : ℕ → Bool} (hw : s.Waits f e) (h : s.Inv)
    (hready : ready f = true) : ¬s.Step (.select ready (some e)) t := by
  rintro ⟨hselect, -⟩
  rw [h.ok.selectEntity_eq, Prod.mk.injEq] at hselect
  have hnodup : s.rq.scanOrder.Nodup := by
    rw [RunQueue.scanOrder_eq]
    exact h.ok.perm.nodup_iff.mpr h.ok.nodup
  exact hw.find?_ne hnodup hready hselect.1

/-- **No entity is selected twice while another one waits.** If `e` is selected now and again after
some steps, in which it is not removed, then each other entity of the queue that stays there and is
ready whenever one is selected, is selected in between. -/
def Fair (s : RqState) : Prop :=
  ∀ (e f : ℕ) (ready ready' : ℕ → Bool) (ops : List RqOp) (t u v : RqState),
    s.Step (.select ready (some e)) t → Run (Guarded Step Allowed) t ops u →
    u.Step (.select ready' (some e)) v → .remove e ∉ ops →
    f ≠ e → f ∈ s.rq.entities → .remove f ∉ ops →
    (∀ r result, .select r result ∈ ops → r f = true) → ready' f = true →
    ∃ r, .select r (some f) ∈ ops

/-- **Proof sketch.** Until `f` is selected, it waits for its turn before `e`. -/
theorem Inv.fair (h : s.Inv) : s.Fair := by
  intro e f ready ready' ops t u v hfirst hrun hlast he hne hf hf' hready hready'
  by_contra hnone
  push Not at hnone
  have hpass : ∀ op ∈ ops, RqState → PassesOver f e op := by
    intro op hop _
    cases op with
    | add x => trivial
    | remove x => exact ⟨fun heq => he (heq ▸ hop), fun heq => hf' (heq ▸ hop)⟩
    | select r result =>
      refine ⟨hready r result hop, ?_⟩
      rintro rfl
      exact hnone r hop
  have hinv : u.Inv ∧ u.Waits f e := by
    refine (hrun.guard hpass).invariant (fun s => s.Inv ∧ s.Waits f e) ?_
      ⟨h.step hfirst trivial, h.waits_of_select hfirst hne hf⟩
    rintro s op t ⟨h, hw⟩ ⟨⟨hstep, hallowed⟩, hpass⟩
    exact ⟨h.step hstep hallowed, hw.step h hstep hallowed hpass⟩
  exact hinv.2.not_selected hinv.1 hready' hlast

end RqState

/-- **The run queues are fair**: in every run in which the entity that was selected last is not
removed, a ready entity is selected if there is one, and no entity is selected twice while another
one waits. -/
theorem rqSelectEntity_fair {ops : List RqOp} {s : RqState}
    (hrun : Run (Guarded RqState.Step RqState.Allowed) .init ops s) :
    s.rq.SelectsReady ∧ s.Fair := by
  have hinv : s.Inv := by
    refine hrun.invariant RqState.Inv ?_ RqState.Inv.init
    rintro s op t h ⟨hstep, hallowed⟩
    exact h.step hstep hallowed
  exact ⟨hinv.ok.selectsReady, hinv.fair⟩

/-- A queue of three entities, the first of which was selected. -/
def threeEntities : RqState := ⟨⟨[1, 2, 3], some 1⟩, some 1⟩

/-- The second entity is selected next. -/
theorem rqSelectEntity_fair_threeEntities : threeEntities.rq.SelectsReady ∧ threeEntities.Fair ∧
    (threeEntities.rq.selectEntity fun _ => true).1 = some 2 := by
  have hrun : Run (Guarded RqState.Step RqState.Allowed) .init
      [.add 1, .add 2, .add 3, .select (fun _ => true) (some 1)] threeEntities :=
    .cons ⟨rfl, trivial⟩ (.cons ⟨rfl, trivial⟩ (.cons ⟨rfl, trivial⟩
      (.cons ⟨⟨rfl, rfl⟩, trivial⟩ (.nil _))))
  obtain ⟨hready, hfair⟩ := rqSelectEntity_fair hrun
  exact ⟨hready, hfair, by decide⟩

end AmdSched
