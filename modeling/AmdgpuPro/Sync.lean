import AmdgpuPro.Kernel
import AmdgpuPro.Lib.Serial

set_option autoImplicit false

/-!
# Synchronisation objects

`amdgpu_sync` collects the fences something has to wait for. Of the fences of one context, which
signal in the order of their sequence numbers, only the latest one is kept.

## Main definitions

* `Amdgpu.Fence`, `fenceIsLater` — fences of the scheduler and their order.
* `syncFence`, `syncPeekFence` — add a fence, and look for one that has not signaled.

## Main results

* `Amdgpu.syncFence_cases` — the fence that was added takes the place of an entry, or is in front.
* `mem_syncPeekFence` — only signaled fences are dropped.
* `syncPeekFence_none` — if nothing is found, all fences have signaled.

## Design

A fence is named by its context and its number in the context. The numbers are not cut to 32
bits; the comparison of `fence_is_later` cuts them.
-/

namespace Amdgpu

/-- The fence `finished` of a job: the fence context of its entity and its number in it. -/
structure Fence where
  context : ℕ
  seqno : ℕ
  deriving DecidableEq

/-- `fence_is_later` -/
def fenceIsLater (f g : Fence) : Bool := f.context = g.context && Serial.later f.seqno g.seqno

/-- `amdgpu_sync_keep_later`: what `*keep` is afterwards -/
def syncKeepLater (keep : Option Fence) (f : Fence) : Fence :=
  match keep with
  | some k => if fenceIsLater k f then k else f
  | none => f

/-- `amdgpu_sync_add_later`: put the fence in the place of an entry of its context. -/
def syncAddLater : List Fence → Fence → Option (List Fence)
  | [], _ => none
  | e :: es, f =>
    if e.context = f.context then some (syncKeepLater (some e) f :: es)
    else (syncAddLater es f).map (e :: ·)

/-- `amdgpu_sync_fence`; `alloc` tells whether there is memory for a new entry. -/
def syncFence (fences : List Fence) (f : Fence) (alloc : Bool) : Except Errno (List Fence) :=
  match syncAddLater fences f with
  | some fs => .ok fs
  | none => if alloc then .ok (f :: fences) else .error .ENOMEM

/-- `amdgpu_sync_peek_fence`: the entries afterwards and the fence that is returned. Signaled
entries are dropped. Of a fence of a job on `ring` it is enough that the job was scheduled. -/
def syncPeekFence (ringOf : ℕ → ℕ) (scheduled signaled : Fence → Bool) (ring : ℕ) :
    List Fence → List Fence × Option Fence
  | [] => ([], none)
  | e :: es =>
    if ringOf e.context = ring then
      if scheduled e then
        let rest := syncPeekFence ringOf scheduled signaled ring es
        (e :: rest.1, rest.2)
      else (e :: es, some e)
    else if signaled e then syncPeekFence ringOf scheduled signaled ring es
    else (e :: es, some e)

/-- How `amdgpu_sync_fence` ends for the references it has: without memory, with one more, or with
as many as before, because it has a later fence or takes the place of an earlier one. -/
inductive SyncEnd
  | error (e : Errno)
  | added
  | kept

/-! ## Adding a fence -/

/-- The entry of the context is replaced if it is the first one; otherwise it is further back. -/
theorem syncAddLater_cons {e f : Fence} {es fs' : List Fence}
    (h : syncAddLater (e :: es) f = some fs') :
    (e.context = f.context ∧ fs' = syncKeepLater (some e) f :: es) ∨
      (e.context ≠ f.context ∧ ∃ rest, syncAddLater es f = some rest ∧ fs' = e :: rest) := by
  rw [syncAddLater] at h
  by_cases hctx : e.context = f.context
  · rw [if_pos hctx] at h
    exact .inl ⟨hctx, (Option.some.inj h).symm⟩
  · rw [if_neg hctx] at h
    obtain ⟨rest, hrest, heq⟩ := Option.map_eq_some_iff.mp h
    exact .inr ⟨hctx, rest, hrest, heq.symm⟩

section SyncFence

variable {fs fs' : List Fence} {f g : Fence} {alloc : Bool}

/-- An object that a fence was added to is the old one with the fence in the place of an entry,
or in front. -/
theorem syncFence_cases (h : syncFence fs f alloc = .ok fs') :
    syncAddLater fs f = some fs' ∨ fs' = f :: fs := by
  unfold syncFence at h
  split at h
  · next hadd => cases h; exact .inl hadd
  · split_ifs at h
    · cases h; exact .inr rfl

end SyncFence

/-! ## Looking for a fence -/

section Peek

variable {ringOf : ℕ → ℕ} {scheduled signaled : Fence → Bool} {ring : ℕ}

/-- Only signaled fences are dropped. -/
theorem mem_syncPeekFence {fs : List Fence} {f : Fence} (hf : f ∈ fs)
    (hsig : signaled f = false) : f ∈ (syncPeekFence ringOf scheduled signaled ring fs).1 := by
  induction fs with
  | nil => simp at hf
  | cons e es ih =>
    rw [syncPeekFence]
    split_ifs with hring hsched hse
    · rcases List.mem_cons.mp hf with rfl | hf
      · exact List.mem_cons_self
      · exact List.mem_cons_of_mem _ (ih hf)
    · exact hf
    · rcases List.mem_cons.mp hf with rfl | hf
      · simp [hsig] at hse
      · exact ih hf
    · exact hf

/-- If no fence is found then every fence has signaled, or is of a job that was scheduled on the
ring. -/
theorem syncPeekFence_none {fs : List Fence}
    (h : (syncPeekFence ringOf scheduled signaled ring fs).2 = none) :
    ∀ e ∈ fs, (ringOf e.context = ring ∧ scheduled e = true) ∨ signaled e = true := by
  induction fs with
  | nil => intro e he; simp at he
  | cons e es ih =>
    rw [syncPeekFence] at h
    split_ifs at h with hring hsched hse
    · exact List.forall_mem_cons.mpr ⟨.inl ⟨hring, hsched⟩, ih h⟩
    · exact List.forall_mem_cons.mpr ⟨.inr hse, ih h⟩

end Peek

end Amdgpu
