import AmdgpuPro.Kfd.GttSa

set_option autoImplicit false

/-!
# Refused sub-allocations

`kfd_gtt_sa_allocate` allocates a descriptor before it looks for free chunks. When it finds none it
calls `kfree` with `mem_obj`, which is not the descriptor but the address where the caller wants to
have it: a field of the packet manager for `pm_allocate_runlist_ib`, and of other structures for the
other callers. The descriptor is leaked, and memory is freed that belongs to the caller.

## Main definitions

* `Amdkfd.GttHeap` — the sub-allocator with the descriptors that are allocated.
* `GttHeap.Sound` — every descriptor belongs to an allocation, and no memory of a caller was freed.
* `GttHeap.Served` — a call that allocates a descriptor finds a range.

## Main results

* `Amdkfd.gttHeap_sound_iff` — in all runs.
* `gttHeap_leaks` — a second request when all chunks are in use.
-/

namespace Amdkfd

open Transition

/-- The sub-allocator, the descriptors that were allocated and not freed, and how often `kfree` was
called with the address of a variable of a caller. -/
structure GttHeap (dev : GttDev) where
  sa : GttSa dev
  descs : List ℕ
  callerFrees : ℕ

/-- The calls of the sub-allocator. -/
inductive GttCall
  /-- `kfd_gtt_sa_allocate`, with what `kmalloc` returns -/
  | allocate (size : BitVec 32) (kmalloc : Option ℕ)
  /-- `kfd_gtt_sa_free` -/
  | free (x : GttAlloc)

variable {dev : GttDev}

namespace GttHeap

/-- After `kfd_gtt_sa_init`. -/
def start (dev : GttDev) (memory : ℕ → Bool) : GttHeap dev := ⟨dev.start memory, [], 0⟩

/-- `kfree` -/
def kfree (s : GttHeap dev) : KfreeArg → GttHeap dev
  | .desc d => { s with descs := s.descs.erase d }
  | .memObjVariable => { s with callerFrees := s.callerFrees + 1 }

/-- The heap after `kfd_gtt_sa_allocate`. -/
def allocated (s : GttHeap dev) (r : GttSaResult dev) : GttHeap dev :=
  r.kfreed.foldl kfree { s with sa := r.sa, descs := r.memObj.toList ++ s.descs }

/-- A call. `kmalloc` returns memory that is not in use, and what is freed was allocated. -/
def step (fuel : ℕ) (s : GttHeap dev) : GttCall → Option (GttHeap dev)
  | .allocate size kmalloc =>
    if kmalloc.any (· ∈ s.descs) then none
    else (kfdGttSaAllocate fuel s.sa size kmalloc).map s.allocated
  | .free x =>
    if x ∈ s.sa.objs then some (kfree { s with sa := kfdGttSaFree s.sa (some x) } (.desc x.desc))
    else none

/-- The descriptors are those of the allocations, and no memory of a caller was freed. -/
def Sound (s : GttHeap dev) : Prop := s.descs.Perm (s.sa.objs.map (·.desc)) ∧ s.callerFrees = 0

/-- There is a free range that is large enough. -/
def Room (s : GttHeap dev) (size : BitVec 32) : Prop :=
  ∃ a b, FreeRange dev s.sa.bits size.toNat a b

/-- A request is refused before a descriptor is allocated for it, or there is a free range that is
large enough. -/
def Served (s : GttHeap dev) : GttCall → Prop
  | .allocate size kmalloc => dev.Refused size kmalloc ∨ s.Room size
  | .free _ => True

variable {s s' : GttHeap dev}

/-- Where all ranges have a chunk in use, there is no free range. -/
theorem not_room {size : BitVec 32}
    (h : NoneBelow dev s.sa.bits size.toNat dev.numOfChunks) : ¬ s.Room size := by
  rintro ⟨a, b, hfree⟩
  have hle := hfree.le
  have hlt := hfree.lt
  obtain ⟨i, hi, hi', hset⟩ := h a (b + 1 - a) (by omega) (by omega) hfree.room
  simp [hfree.clear i hi (by omega)] at hset

/-- **One call**: it keeps the descriptors if and only if a request that gets to the search is
served. -/
theorem Sound.step {fuel : ℕ} (hfuel : dev.numOfChunks < fuel) {call : GttCall} (h : s.Sound)
    (hs : s.step fuel call = some s') :
    (s.Served call → s'.Sound) ∧ (s'.Sound → s.Served call) := by
  cases call with
  | free x =>
    simp only [GttHeap.step] at hs
    split_ifs at hs with hx
    obtain rfl := Option.some.inj hs
    refine ⟨fun _ => ⟨?_, h.2⟩, fun _ => trivial⟩
    have hobjs := (List.perm_cons_erase hx).map (·.desc)
    simpa [kfree, kfdGttSaFree] using (h.1.trans hobjs).erase x.desc
  | allocate size kmalloc =>
    simp only [GttHeap.step] at hs
    split_ifs at hs
    rcases kfdGttSaAllocate_spec hfuel s.sa size kmalloc with ⟨hrefused, e, -, heq⟩ |
        ⟨hnot, d, -, ⟨a, b, hfree, heq⟩ | ⟨hnone, heq⟩⟩ <;>
      rw [heq] at hs <;> obtain rfl := Option.some.inj hs
    · exact ⟨fun _ => h, fun _ => .inl hrefused⟩
    · exact ⟨fun _ => ⟨h.1.cons d, h.2⟩, fun _ => .inr ⟨a, b, hfree⟩⟩
    · refine ⟨fun hserved => ?_, fun hsound => ?_⟩
      · rcases hserved with hrefused | hroom
        · exact absurd hrefused hnot
        · exact absurd hroom (not_room hnone)
      · exact absurd hsound.2 (Nat.succ_ne_zero _)

end GttHeap

/-- **Refused requests**: a request that is refused leaves the bitmap as it is; but the descriptors
are those of the allocations all the time, and no memory of a caller is freed, if and only if no
request is refused after a descriptor was allocated for it. -/
theorem gttHeap_sound_iff {fuel : ℕ} (hfuel : dev.numOfChunks < fuel) (memory : ℕ → Bool)
    {calls : List GttCall} {s : GttHeap dev}
    (hrun : Run (fun s c s' => GttHeap.step fuel s c = some s') (.start dev memory) calls s) :
    (∀ size kmalloc r, kfdGttSaAllocate fuel s.sa size kmalloc = some r → r.ret ≠ none →
      r.sa.bits = s.sa.bits) ∧
    ((∀ calls₁ calls₂ u, calls = calls₁ ++ calls₂ →
        Run (fun s c s' => GttHeap.step fuel s c = some s') (.start dev memory) calls₁ u →
        u.Sound) ↔
      Run (Guarded (fun s c s' => GttHeap.step fuel s c = some s') GttHeap.Served)
        (.start dev memory) calls s) := by
  refine ⟨fun size kmalloc r hr hret => ?_, ?_⟩
  · rcases kfdGttSaAllocate_spec hfuel s.sa size kmalloc with
      ⟨-, e, -, heq⟩ | ⟨-, d, -, ⟨a, b, -, heq⟩ | ⟨-, heq⟩⟩ <;>
      obtain rfl := Option.some.inj (hr.symm.trans heq)
    · rfl
    · exact absurd rfl hret
    · rfl
  · exact hrun.forall_states_iff GttHeap.Sound GttHeap.Sound (fun _ h => h)
      (fun _ _ _ h hstep => h.step hfuel hstep) ⟨.refl _, rfl⟩

/-- A device with eight chunks of a page. -/
def eightChunks : GttDev where
  gttStartGpuAddr := 0
  gttStartCpuPtr := 0
  bufSize := 32768
  chunkSize := 4096
  numOfChunks := 8
  bitmapSize := 1
  chunkSize_pos := by decide
  chunks_fit := by decide
  bufSize_lt := by decide
  bitmapSize_eq := rfl

/-- A request for all chunks. -/
theorem gttHeap_sound_iff_whole : ∃ s : GttHeap eightChunks, s.descs = [1] ∧ s.Sound := by
  have hrun : ∃ s, Run (fun s c s' => GttHeap.step 9 s c = some s')
      (.start eightChunks fun _ => false) [.allocate 32768 (some 1)] s ∧ s.descs = [1] :=
    ⟨_, .single rfl, by decide⟩
  obtain ⟨s, hrun, hdescs⟩ := hrun
  have hserved : GttHeap.Served (.start eightChunks fun _ => false)
      (.allocate 32768 (some 1)) :=
    .inr ⟨0, 7, by decide, by decide, fun i _ hi => if_pos (show i < 8 by omega), by decide⟩
  have hguarded : Run (Guarded (fun s c s' => GttHeap.step 9 s c = some s') GttHeap.Served)
      (.start eightChunks fun _ => false) [.allocate 32768 (some 1)] s := by
    cases hrun with
    | cons hstep hrest =>
      cases hrest
      exact .single ⟨hstep, hserved⟩
  exact ⟨s, hdescs, (gttHeap_sound_iff (by decide) _ hrun).2.mpr hguarded _ [] _ (by simp) hrun⟩

/-- All chunks are allocated, and then one more: its descriptor, at the address 2, is leaked, and
memory of the caller is freed. -/
theorem gttHeap_leaks : ∃ s : GttHeap eightChunks,
    Run (fun s c s' => GttHeap.step 9 s c = some s') (.start eightChunks fun _ => false)
      [.allocate 32768 (some 1), .allocate 4096 (some 2)] s ∧
    (s.descs, s.sa.objs.map (·.desc), s.callerFrees) = ([2, 1], [1], 1) ∧ ¬ s.Sound := by
  have hrun : ∃ s, Run (fun s c s' => GttHeap.step 9 s c = some s')
      (.start eightChunks fun _ => false)
      [.allocate 32768 (some 1), .allocate 4096 (some 2)] s ∧
      (s.descs, s.sa.objs.map (·.desc), s.callerFrees) = ([2, 1], [1], 1) :=
    ⟨_, .cons rfl (.single rfl), by decide⟩
  obtain ⟨s, hrun, hs⟩ := hrun
  refine ⟨s, hrun, hs, fun hsound => ?_⟩
  have hfrees : s.callerFrees = 1 := congrArg (fun x => x.2.2) hs
  cases hfrees.symm.trans hsound.2

end Amdkfd
