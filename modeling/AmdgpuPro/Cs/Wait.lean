import AmdgpuPro.Ctx
import Mathlib.Tactic

set_option autoImplicit false

/-!
# Waiting for several submissions

A user passes an array of descriptors, each of which names a context, a ring and the number of a
submission, and waits for all of the fences or for any of them. The lookup of a descriptor takes a
reference of its fence; it finds `NULL` if the fence is so old that its slot was used again.

## Main definitions

* `Amdgpu.csWaitAllFences`, `csWaitAnyFence`, `csWaitFencesIoctl` — the functions.

## Main results

* `Amdgpu.csWaitAnyFence_first_iff` — the index that is reported.
* `csWaitFencesIoctl_refs_iff` — the references of a call.

## Design

The contexts may change during a call, so each descriptor comes with the contexts as they are when
the loop gets to it. Of `fence_wait_any_timeout` it is assumed that a positive result goes with the
index of a signaled fence.
-/

namespace Amdgpu

variable {F : Type*}

/-! ## The functions -/

/-- `drm_amdgpu_fence` -/
structure UserFence where
  ctxId : BitVec 32
  sel : RingSel
  seqNo : BitVec 64

/-- How `fence_wait_timeout` ends: with a negative value, with `0` or with a positive value. -/
inductive FenceWait
  | error (e : Errno)
  | timeout
  | signaled

/-- How `fence_wait_any_timeout` ends; a positive result comes with an index. -/
inductive FenceWaitAny
  | error (e : Errno)
  | timeout
  | signaled (first : ℕ)

/-- A descriptor, the contexts of the file when the loop gets to it, and how a wait for its fence
ends. -/
structure WaitItem (F : Type*) where
  user : UserFence
  rings : Rings
  schedJobs : BitVec 64
  ctxHandles : BitVec 32 → Option (ℕ → CtxRing F)
  wait : FenceWait

/-- What a call returns: the status and `first_signaled`, or an error; and the references of fences
it took and dropped. -/
structure WaitOut (F : Type*) where
  ret : Except Errno (Bool × BitVec 32)
  got : List F
  put : List F

/-- `amdgpu_cs_get_fence` -/
def csGetFence (item : WaitItem F) : Except Errno (Option F) :=
  match csGetRing item.rings item.user.sel with
  | .error e => .error e
  | .ok ring =>
    match item.ctxHandles item.user.ctxId with
    | none => .error .EINVAL
    | some rings => ctxGetFence item.schedJobs (rings ring) item.user.seqNo

/-- The loop of `amdgpu_cs_wait_all_fences`; `r` is the result so far, which is positive or `0`. -/
def csWaitAllLoop : Bool → List (WaitItem F) → WaitOut F
  | r, [] => ⟨.ok (r, 0), [], []⟩
  | r, item :: items =>
    match csGetFence item with
    | .error e => ⟨.error e, [], []⟩
    | .ok none => csWaitAllLoop r items
    | .ok (some fence) =>
      -- there is no `fence_put` in this loop
      match item.wait with
      | .error e => ⟨.error e, [fence], []⟩
      | .timeout => ⟨.ok (false, 0), [fence], []⟩
      | .signaled =>
        let out := csWaitAllLoop true items
        { out with got := fence :: out.got }

/-- `amdgpu_cs_wait_all_fences` -/
def csWaitAllFences (items : List (WaitItem F)) : WaitOut F := csWaitAllLoop true items

/-- Where the first loop of `amdgpu_cs_wait_any_fence` ends. -/
inductive WaitAnyPrepared
  | error (e : Errno)
  | null
  | full

/-- The first loop of `amdgpu_cs_wait_any_fence`: the fences in the array. -/
def csWaitAnyPrepare : List (WaitItem F) → List F × WaitAnyPrepared
  | [] => ([], .full)
  | item :: items =>
    match csGetFence item with
    | .error e => ([], .error e)
    | .ok none => ([], .null)
    | .ok (some fence) =>
      let rest := csWaitAnyPrepare items
      (fence :: rest.1, rest.2)

/-- `amdgpu_cs_wait_any_fence`. All ways out but the first one drop the fences in the array. -/
def csWaitAnyFence (alloc : Bool) (waitAny : List F → FenceWaitAny) (items : List (WaitItem F)) :
    WaitOut F :=
  if !alloc then ⟨.error .ENOMEM, [], []⟩
  else
    let (array, prepared) := csWaitAnyPrepare items
    let first : BitVec 32 := ~~~0
    match prepared with
    | .error e => ⟨.error e, array, array⟩
    | .null => ⟨.ok (true, first), array, array⟩
    | .full =>
      match waitAny array with
      | .error e => ⟨.error e, array, array⟩
      | .timeout => ⟨.ok (false, first), array, array⟩
      | .signaled i => ⟨.ok (true, BitVec.ofNat 32 i), array, array⟩

/-- `amdgpu_cs_wait_fences_ioctl`; the array of descriptors may not fit, or not be readable. -/
def csWaitFencesIoctl (alloc copied waitAll allocAny : Bool) (waitAny : List F → FenceWaitAny)
    (items : List (WaitItem F)) : WaitOut F :=
  if !alloc then ⟨.error .ENOMEM, [], []⟩
  else if !copied then ⟨.error .EFAULT, [], []⟩
  else if waitAll then csWaitAllFences items
  else csWaitAnyFence allocAny waitAny items

/-! ## The index -/

/-- A loop that goes on while `Q` holds gets to a descriptor with `P`. -/
def Meets (Q P : WaitItem F → Prop) (items : List (WaitItem F)) : Prop :=
  ∃ pre item post, items = pre ++ item :: post ∧ P item ∧ ∀ x ∈ pre, Q x

theorem meets_cons {Q P : WaitItem F → Prop} {item : WaitItem F} {items : List (WaitItem F)} :
    Meets Q P (item :: items) ↔ P item ∨ Q item ∧ Meets Q P items := by
  constructor
  · rintro ⟨pre, x, post, heq, hx, hpre⟩
    cases pre with
    | nil =>
      obtain ⟨rfl, -⟩ := List.cons.inj heq
      exact .inl hx
    | cons y pre =>
      obtain ⟨rfl, rfl⟩ := List.cons.inj heq
      obtain ⟨hy, hpre⟩ := List.forall_mem_cons.mp hpre
      exact .inr ⟨hy, pre, x, post, rfl, hx, hpre⟩
  · rintro (hitem | ⟨hitem, pre, x, post, rfl, hx, hpre⟩)
    · exact ⟨[], item, items, rfl, hitem, by simp⟩
    · exact ⟨item :: pre, x, post, rfl, hx, List.forall_mem_cons.mpr ⟨hitem, hpre⟩⟩

/-- The first loop of `amdgpu_cs_wait_any_fence` gets to a descriptor without a fence. -/
def MeetsNull (items : List (WaitItem F)) : Prop :=
  Meets (fun x => ∃ f, csGetFence x = .ok (some f)) (csGetFence · = .ok none) items

/-- The loop of `amdgpu_cs_wait_all_fences` gets to a descriptor with a fence. -/
def MeetsFence (items : List (WaitItem F)) : Prop :=
  Meets (csGetFence · = .ok none) (fun x => ∃ f, csGetFence x = .ok (some f)) items

section Index

variable {items : List (WaitItem F)}

/-- The fence of the descriptor at the index has signaled: it was found, or it is so old that it was
not found any more. -/
def SignaledAt (signaled : F → Prop) (items : List (WaitItem F)) (i : ℕ) : Prop :=
  ∃ item, items[i]? = some item ∧ (csGetFence item = .ok none ∨
    ∃ f, csGetFence item = .ok (some f) ∧ signaled f)

/-- The array after the first loop. -/
theorem csWaitAnyPrepare_spec (items : List (WaitItem F)) :
    ((csWaitAnyPrepare items).2 = .null ↔ MeetsNull items) ∧
      ((csWaitAnyPrepare items).2 = .full → ∀ (i : ℕ) (f : F),
        (csWaitAnyPrepare items).1[i]? = some f →
        ∃ item, items[i]? = some item ∧ csGetFence item = .ok (some f)) := by
  induction items with
  | nil => simp [csWaitAnyPrepare, MeetsNull, Meets]
  | cons item items ih =>
    obtain ⟨ihnull, ihfull⟩ := ih
    rw [MeetsNull, meets_cons, csWaitAnyPrepare]
    rcases hget : csGetFence item with e | _ | f
    · simp
    · simp
    · refine ⟨by simpa [MeetsNull] using ihnull, fun hfull i g hg => ?_⟩
      cases i with
      | zero => exact ⟨item, rfl, by rw [hget, Option.some.inj hg]⟩
      | succ i => exact ihfull hfull i g hg

/-- **The index that `amdgpu_cs_wait_any_fence` reports.** If the call succeeds and sets the status,
then `first_signaled` is the index of a descriptor whose fence has signaled, if and only if the loop
does not get to a descriptor for which `amdgpu_ctx_get_fence` finds `NULL`. -/
theorem csWaitAnyFence_first_iff {signaled : F → Prop} {waitAny : List F → FenceWaitAny}
    (hwait : ∀ (array : List F) (i : ℕ), waitAny array = .signaled i →
      ∃ f, array[i]? = some f ∧ signaled f)
    (hcount : items.length < 2 ^ 32) :
    (∀ first, (csWaitAnyFence true waitAny items).ret = .ok (true, first) →
      first.toNat < items.length ∧ SignaledAt signaled items first.toNat) ↔ ¬ MeetsNull items := by
  obtain ⟨hnull, hfull⟩ := csWaitAnyPrepare_spec items
  rw [← hnull]
  simp only [csWaitAnyFence, Bool.not_true, Bool.false_eq_true, if_false]
  cases hprep : (csWaitAnyPrepare items).2 with
  | error e => simp
  | null =>
    -- the index is still `~0`
    simp only [not_true_eq_false, iff_false]
    intro hall
    have hlt := (hall _ rfl).1
    have hmax : (~~~(0 : BitVec 32)).toNat = 2 ^ 32 - 1 := by decide
    omega
  | full =>
    simp only [reduceCtorEq, not_false_eq_true, iff_true]
    intro first hret
    cases hany : waitAny (csWaitAnyPrepare items).1 with
    | error e => simp [hany] at hret
    | timeout => simp [hany] at hret
    | signaled i =>
      simp only [hany, Except.ok.injEq, Prod.mk.injEq, true_and] at hret
      obtain ⟨f, hf, hsig⟩ := hwait _ i hany
      obtain ⟨item, hitem, hget⟩ := hfull hprep i f hf
      have hi : i < items.length := (List.getElem?_eq_some_iff.mp hitem).1
      have hfirst : first.toNat = i := by
        rw [← hret, BitVec.toNat_ofNat]
        exact Nat.mod_eq_of_lt (by omega)
      rw [hfirst]
      exact ⟨hi, item, hitem, .inr ⟨f, hget, hsig⟩⟩

end Index

/-! ## References -/

/-- The loop drops nothing, and takes a reference if it gets to a fence. -/
theorem csWaitAllLoop_refs (r : Bool) (items : List (WaitItem F)) :
    (csWaitAllLoop r items).put = [] ∧ ((csWaitAllLoop r items).got = [] ↔ ¬ MeetsFence items) := by
  induction items generalizing r with
  | nil => simp [csWaitAllLoop, MeetsFence, Meets]
  | cons item items ih =>
    rw [MeetsFence, meets_cons, csWaitAllLoop]
    rcases hget : csGetFence item with e | _ | f
    · simp
    · simpa [MeetsFence] using ih r
    · cases item.wait <;> simp [(ih true).1]

/-- **The references of a call.** A call drops exactly the references it took if and only if it does
not wait for all fences, or gets to no descriptor with a fence. -/
theorem csWaitFencesIoctl_refs_iff (waitAll allocAny : Bool) (waitAny : List F → FenceWaitAny)
    (items : List (WaitItem F)) :
    (∀ alloc copied, (csWaitFencesIoctl alloc copied waitAll allocAny waitAny items).got.Perm
      (csWaitFencesIoctl alloc copied waitAll allocAny waitAny items).put) ↔
        (waitAll = true → ¬ MeetsFence items) := by
  have hany : (csWaitAnyFence allocAny waitAny items).got =
      (csWaitAnyFence allocAny waitAny items).put := by
    simp only [csWaitAnyFence]
    split_ifs
    · rfl
    · cases (csWaitAnyPrepare items).2 with
      | full => cases waitAny (csWaitAnyPrepare items).1 <;> simp
      | _ => rfl
  obtain ⟨hput, hgot⟩ := csWaitAllLoop_refs true items
  cases waitAll with
  | false =>
    simp only [Bool.false_eq_true, false_implies, iff_true]
    intro alloc copied
    cases alloc <;> cases copied <;> simp [csWaitFencesIoctl, hany]
  | true =>
    rw [← hgot]
    refine ⟨fun hall _ => ?_, fun hnil alloc copied => ?_⟩
    · have hperm := hall true true
      simpa [csWaitFencesIoctl, csWaitAllFences, hput] using hperm
    · cases alloc <;> cases copied <;>
        simp [csWaitFencesIoctl, csWaitAllFences, hput, hnil rfl]

/-! ## Two descriptors -/

/-- A descriptor of the submission `seq` of a context, which has made `n` submissions with the
numbers of their fences on a graphics ring, and keeps four of them. -/
def gfxItem (n : ℕ) (seq : BitVec 64) (wait : FenceWait) : WaitItem ℕ where
  user := ⟨1, ⟨0, 0, 0⟩, seq⟩
  rings := ⟨1, 0, 0, fun _ ring => ring⟩
  schedJobs := 4
  ctxHandles := fun _ => some fun _ =>
    (List.range n).foldl (fun cring k => (ctxAddFence 4 cring (k + 1)).1) .init
  wait := wait

/-- A wait for two submissions of which the second one has finished. -/
theorem csWaitAnyFence_first_second :
    (csWaitAnyFence true (fun array => if array = [5, 4] then .signaled 1 else .timeout)
      [gfxItem 6 5 .timeout, gfxItem 6 4 .timeout]).ret = .ok (true, 1) ∧
      SignaledAt (· = 4) [gfxItem 6 5 .timeout, gfxItem 6 4 .timeout] 1 := by
  have hret : (csWaitAnyFence true (fun array => if array = [5, 4] then .signaled 1 else .timeout)
      [gfxItem 6 5 .timeout, gfxItem 6 4 .timeout]).ret = .ok (true, 1) := by decide
  refine ⟨hret, ((csWaitAnyFence_first_iff (fun array i h => ?_) (by decide)).mpr ?_ 1 hret).2⟩
  · split_ifs at h with harray
    cases h
    exact ⟨4, by rw [harray]; rfl, rfl⟩
  · rw [← (csWaitAnyPrepare_spec _).1]
    exact fun hnull => (by cases hnull)

/-- The first submission of six is found no more: the index is `~0`. -/
theorem csWaitAnyFence_first_unset :
    (csWaitAnyFence true (fun _ => .timeout) [gfxItem 6 1 .timeout]).ret =
      .ok (true, 0xffffffff) ∧
      ¬ (0xffffffff : BitVec 32).toNat < [gfxItem 6 1 .timeout].length := by
  decide

/-- A wait for all of one fence keeps its reference. -/
theorem csWaitFencesIoctl_leaks :
    (csWaitFencesIoctl true true true true (fun _ => .timeout) [gfxItem 6 5 .signaled]).ret =
      .ok (true, 0) ∧
    (csWaitFencesIoctl true true true true (fun _ => .timeout) [gfxItem 6 5 .signaled]).got = [5] ∧
    ¬ (csWaitFencesIoctl true true true true (fun _ => .timeout) [gfxItem 6 5 .signaled]).got.Perm
      (csWaitFencesIoctl true true true true (fun _ => .timeout) [gfxItem 6 5 .signaled]).put := by
  decide

end Amdgpu
