import AmdgpuPro.Lib.CircularLog
import AmdgpuPro.Lib.Lock
import AmdgpuPro.Lib.Transition

set_option autoImplicit false

/-!
# The interrupt ring

The hardware writes interrupt entries of 16 bytes into a ring and moves its write pointer.
`amdgpu_ih_process` takes `ih.lock` and dispatches entries until the read pointer is at the write
pointer, which it read before it took the lock. Between the two another call may have gone further
than that write pointer; then the loop goes around the whole ring.

## Main definitions

* `Amdgpu.IhState.step` — the hardware writes an entry, or a call goes one step further.
* `IhState.InOrder` — the entries that were dispatched are those that were written first.
* `IhState.InTime` — the lock is taken before the write pointer is overtaken.

## Main results

* `Amdgpu.ih_inOrder` — the entries are dispatched in order, each once, if no write pointer is
  overtaken.
* `ih_overtaken` — two calls, of which one dispatches an entry that was never written.

## Design

The pointers are in bytes, and the ring is addressed by entries; what the memory of an entry holds
before it is written is `none`. The hardware publishes an entry when it moves the write pointer,
which is one step with writing it. Everything that was written, and everything that was dispatched,
is remembered, and a call remembers how many entries had been written when it read the write
pointer.
-/

namespace Amdgpu

open Transition CircularLog Lock

/-- The ring of `amdgpu_ih_ring_init`, whose size is a power of two. -/
structure IhRing where
  order : ℕ
  four_le : 4 ≤ order

namespace IhRing

variable (ih : IhRing)

/-- `ring_size` -/
def size : ℕ := 2 ^ ih.order

/-- `ptr & ptr_mask` -/
def masked (ptr : ℕ) : ℕ := ptr &&& (ih.size - 1)

/-- The number of entries that fit. -/
def entries : ℕ := 2 ^ (ih.order - 4)

theorem size_eq : ih.size = 16 * ih.entries := by
  rw [size, entries, show (16 : ℕ) = 2 ^ 4 by rfl, ← pow_add, Nat.add_sub_cancel' ih.four_le]

theorem entries_pos : 0 < ih.entries := Nat.pow_pos (by omega)

theorem masked_eq (ptr : ℕ) : ih.masked ptr = ptr % ih.size := Nat.and_two_pow_sub_one_eq_mod _ _

/-- The pointer to the entry with number `n`. -/
def ptr (n : ℕ) : ℕ := 16 * n % ih.size

theorem ptr_div (n : ℕ) : ih.ptr n / 16 = n % ih.entries := by
  rw [ptr, size_eq, Nat.mul_mod_mul_left, Nat.mul_div_cancel_left _ (by omega)]

theorem masked_ptr (n : ℕ) : ih.masked (ih.ptr n) = ih.ptr n := by
  rw [masked_eq, ptr, Nat.mod_mod]

theorem masked_ptr_add (n : ℕ) : ih.masked (ih.ptr n + 16) = ih.ptr (n + 1) := by
  rw [masked_eq, ptr, ptr, Nat.mod_add_mod, Nat.mul_add]

end IhRing

/-- The four dwords of an interrupt entry. -/
abbrev IvEntry := BitVec 128

/-- Where a thread is in `amdgpu_ih_process`; `seen` entries had been written when it read the
write pointer. -/
inductive IhPc
  | idle
  /-- at `restart_ih` -/
  | restart (wptr seen : ℕ)
  /-- it has the lock -/
  | loop (wptr seen : ℕ)
  /-- `amdgpu_ih_set_rptr` was called -/
  | unlock
  /-- the lock is free again -/
  | reread
  /-- it has read the write pointer again -/
  | compare (wptr seen : ℕ)

/-- The thread has the lock. -/
def IhPc.Holds : IhPc → Prop
  | .loop _ _ => True
  | .unlock => True
  | _ => False

/-- The interrupt ring, and the threads. -/
structure IhState where
  enabled : Bool
  shutdown : Bool
  /-- the write pointer that the hardware writes back -/
  wptr : ℕ
  /-- its `RB_OVERFLOW` bit -/
  overflow : Bool
  /-- `mmIH_RB_RPTR`, the read pointer that the hardware knows of -/
  rptrReg : ℕ
  /-- `adev->irq.ih.rptr` -/
  rptr : ℕ
  /-- who has set `adev->irq.ih.lock` -/
  lock : Option ℕ
  ring : ℕ → Option IvEntry
  pc : ℕ → IhPc
  written : List IvEntry
  dispatched : List (Option IvEntry)

/-- What happens next. -/
inductive IhOp
  /-- the hardware writes an entry -/
  | write (entry : IvEntry)
  /-- `amdgpu_ih_process` is called -/
  | call (t : ℕ)
  | lock (t : ℕ)
  | dispatch (t : ℕ)
  | setRptr (t : ℕ)
  | unlock (t : ℕ)
  | reread (t : ℕ)
  | compare (t : ℕ)

namespace IhState

/-- The ring after `tonga_ih_irq_init`. -/
def init : IhState where
  enabled := true
  shutdown := false
  wptr := 0
  overflow := false
  rptrReg := 0
  rptr := 0
  lock := none
  ring := fun _ => none
  pc := fun _ => .idle
  written := []
  dispatched := []

/-- The thread `t` is at `pc`. -/
def goTo (s : IhState) (t : ℕ) (pc : IhPc) : IhState :=
  { s with pc := Function.update s.pc t pc }

variable (ih : IhRing)

/-- `tonga_ih_get_wptr`: the write pointer, and the state when an overflow was dealt with. -/
def getWptr (s : IhState) : ℕ × IhState :=
  (ih.masked s.wptr,
    if s.overflow then { s with rptr := ih.masked (s.wptr + 16), overflow := false } else s)

/-- One step. -/
def step (s : IhState) : IhOp → Option IhState
  | .write entry =>
    some { s with
      ring := Function.update s.ring (s.wptr / 16) (some entry)
      written := s.written ++ [entry]
      wptr := ih.masked (s.wptr + 16)
      overflow := s.overflow || ih.masked (s.wptr + 16) = s.rptrReg }
  | .call t =>
    match s.pc t with
    | .idle =>
      if !s.enabled || s.shutdown then some s
      else some ((s.getWptr ih).2.goTo t (.restart (s.getWptr ih).1 s.written.length))
    | _ => none
  | .lock t =>
    match s.pc t with
    | .restart wptr seen =>
      if s.lock.isSome then some (s.goTo t .idle)
      else some { s.goTo t (.loop wptr seen) with lock := some t }
    | _ => none
  | .dispatch t =>
    match s.pc t with
    | .loop wptr _ =>
      if s.rptr ≠ wptr then
        some { s with
          dispatched := s.dispatched ++ [s.ring (s.rptr / 16)]
          rptr := ih.masked (s.rptr + 16) }
      else none
    | _ => none
  | .setRptr t =>
    match s.pc t with
    | .loop wptr _ =>
      if s.rptr ≠ wptr then none else some { s.goTo t .unlock with rptrReg := s.rptr }
    | _ => none
  | .unlock t =>
    match s.pc t with
    | .unlock => some { s.goTo t .reread with lock := none }
    | _ => none
  | .reread t =>
    match s.pc t with
    | .reread => some ((s.getWptr ih).2.goTo t (.compare (s.getWptr ih).1 s.written.length))
    | _ => none
  | .compare t =>
    match s.pc t with
    | .compare wptr seen => some (s.goTo t (if wptr ≠ s.rptr then .restart wptr seen else .idle))
    | _ => none

/-! ## What should hold -/

/-- The ring does not overflow. -/
def NoOverflow (s : IhState) : IhOp → Prop
  | .write _ => ih.masked (s.wptr + 16) ≠ s.rptrReg
  | _ => True

/-- Every entry that was dispatched had been written, and they were dispatched in the order in which
they were written, each once. -/
def InOrder (s : IhState) : Prop :=
  ∃ n ≤ s.written.length, s.dispatched = (s.written.take n).map some

/-- Nothing is dispatched that was not written. -/
theorem InOrder.none_notMem {s : IhState} (h : s.InOrder) : none ∉ s.dispatched := by
  obtain ⟨n, -, hlog⟩ := h
  rw [hlog, List.mem_map]
  simp

/-- When a call takes the lock, no other call has dispatched entries behind its write pointer. -/
def InTime (s : IhState) : IhOp → Prop
  | .lock t => ∀ wptr seen, s.pc t = .restart wptr seen → s.lock = none →
      s.dispatched.length ≤ seen
  | _ => True

/-! ## The invariant -/

/-- What a thread knows. -/
def PcOk (s : IhState) : IhPc → Prop
  | .restart wptr seen => wptr = ih.ptr seen ∧ seen ≤ s.written.length
  | .loop wptr seen => wptr = ih.ptr seen ∧ seen ≤ s.written.length ∧ s.dispatched.length ≤ seen
  | .compare wptr seen => wptr = ih.ptr seen ∧ seen ≤ s.written.length
  | _ => True

/-- The pointers are those of the entries that were written and dispatched, of which only so many
are in the ring that they are still there. -/
structure Inv (s : IhState) : Prop where
  overflow : s.overflow = false
  wptr : s.wptr = ih.ptr s.written.length
  rptr : s.rptr = ih.ptr s.dispatched.length
  rptrReg : ∃ k ≤ s.dispatched.length, s.rptrReg = ih.ptr k ∧ s.written.length < k + ih.entries
  le : s.dispatched.length ≤ s.written.length
  window : Window ih.entries s.ring (s.written[·]?) s.dispatched.length s.written.length
  inOrder : s.dispatched = (s.written.take s.dispatched.length).map some
  holder : ∀ t, (s.pc t).Holds → s.lock = some t
  pc : ∀ t, s.PcOk ih (s.pc t)

variable {ih} {s s' : IhState} {t : ℕ}

theorem Inv.init : IhState.init.Inv ih where
  overflow := rfl
  wptr := (Nat.zero_mod _).symm
  rptr := (Nat.zero_mod _).symm
  rptrReg := ⟨0, le_rfl, (Nat.zero_mod _).symm, by simpa [IhState.init] using ih.entries_pos⟩
  le := le_rfl
  window := .empty _ _ _ _
  inOrder := rfl
  holder _ h := h.elim
  pc _ := trivial

/-- Without an overflow, reading the write pointer changes nothing. -/
theorem Inv.getWptr (h : s.Inv ih) : s.getWptr ih = (ih.ptr s.written.length, s) := by
  rw [IhState.getWptr, h.overflow, h.wptr, ih.masked_ptr]
  rfl

theorem Inv.held (h : s.Inv ih) : Held IhPc.Holds s.pc s.lock := h.holder

/-- A thread goes somewhere else. -/
theorem Inv.goTo (h : s.Inv ih) {pc : IhPc} {lock : Option ℕ} (hpc : s.PcOk ih pc)
    (hheld : Held IhPc.Holds (s.goTo t pc).pc lock) : Inv ih { s.goTo t pc with lock := lock } := by
  refine { h with holder := hheld, pc := fun t' => ?_ }
  show s.PcOk ih (Function.update s.pc t pc t')
  by_cases heq : t' = t
  · subst heq
    rwa [Function.update_self]
  · rw [Function.update_of_ne heq]
    exact h.pc t'

/-- A thread that does not get the lock. -/
theorem Inv.goTo_outside (h : s.Inv ih) {pc : IhPc} (hpc : s.PcOk ih pc) (hout : ¬ pc.Holds) :
    (s.goTo t pc).Inv ih :=
  h.goTo hpc (h.held.move fun hholds => absurd hholds hout)

/-- The hardware writes an entry where nothing is that was not dispatched. -/
theorem Inv.write (h : s.Inv ih) {entry : IvEntry} (hroom : s.NoOverflow ih (.write entry))
    (hs : s.step ih (.write entry) = some s') : s'.Inv ih := by
  obtain ⟨k, hk, hreg, hlt⟩ := h.rptrReg
  have hle := h.le
  have hnext : ih.masked (s.wptr + 16) = ih.ptr (s.written.length + 1) := by
    rw [h.wptr, ih.masked_ptr_add]
  -- the entry behind the new one is not the first one that the hardware thinks is unread
  have hfits : s.written.length + 1 < k + ih.entries := by
    have hne : ih.ptr (s.written.length + 1) ≠ ih.ptr (k + ih.entries) := by
      intro heq
      refine hroom ?_
      rw [hnext, heq, hreg, IhRing.ptr, IhRing.ptr, ih.size_eq, Nat.mul_add, Nat.add_mod_right]
    have : s.written.length + 1 ≠ k + ih.entries := fun heq => hne (by rw [heq])
    omega
  obtain rfl := Option.some.inj hs
  refine ⟨?_, ?_, h.rptr, ⟨k, hk, hreg, ?_⟩, ?_, ?_, ?_, h.holder, fun t => ?_⟩
  · have hne : ih.masked (s.wptr + 16) ≠ s.rptrReg := hroom
    simp [h.overflow, hne]
  · simpa using hnext
  · simpa using hfits
  · simpa using hle.trans (Nat.le_succ _)
  · have hwin : Window ih.entries s.ring ((s.written ++ [entry])[·]?) s.dispatched.length
        s.written.length := h.window.congr fun v hv => List.getElem?_append_left hv
    have hnew := hwin.write (by omega)
    simpa [h.wptr, ih.ptr_div] using hnew
  · rw [List.take_append_of_le_length hle]
    exact h.inOrder
  · have hpc := h.pc t
    show IhState.PcOk ih _ (s.pc t)
    cases hpc' : s.pc t <;> simp_all [PcOk] <;> omega

/-- The thread with the lock dispatches the next entry, which was written. -/
theorem Inv.dispatch (h : s.Inv ih) {wptr seen : ℕ} (hpc : s.pc t = .loop wptr seen)
    (hne : s.rptr ≠ wptr) :
    Inv ih { s with
      dispatched := s.dispatched ++ [s.ring (s.rptr / 16)]
      rptr := ih.masked (s.rptr + 16) } := by
  obtain ⟨k, hk, hreg, hlt⟩ := h.rptrReg
  obtain ⟨hwptr, hseen, hlen⟩ : s.PcOk ih (.loop wptr seen) := hpc ▸ h.pc t
  have hmore : s.dispatched.length < seen := by
    refine lt_of_le_of_ne hlen fun heq => hne ?_
    rw [h.rptr, hwptr, heq]
  have hwritten : s.dispatched.length < s.written.length := by omega
  have hentry : s.ring (s.rptr / 16) = some (s.written[s.dispatched.length]) := by
    rw [h.rptr, ih.ptr_div]
    exact (h.window _ le_rfl hwritten).trans (List.getElem?_eq_getElem hwritten)
  refine ⟨h.overflow, h.wptr, ?_, ⟨k, ?_, hreg, hlt⟩, ?_, ?_, ?_, h.holder, fun t' => ?_⟩
  · simp [h.rptr, ih.masked_ptr_add]
  · simpa using hk.trans (Nat.le_succ _)
  · simpa using hwritten
  · simpa using h.window.mono (Nat.le_succ _)
  · rw [List.length_append, List.length_singleton, List.take_succ_eq_append_getElem hwritten,
      List.map_append, ← h.inOrder, hentry]
    rfl
  · -- no other thread is in the loop
    have hpc' := h.pc t'
    by_cases heq : t' = t
    · subst heq
      rw [hpc]
      exact ⟨hwptr, hseen, by simpa using hmore⟩
    · have hout : ¬ (s.pc t').Holds := fun hholds =>
        heq (h.held.unique (by rw [hpc]; trivial) hholds)
      cases hcase : s.pc t' with
      | loop wptr' seen' =>
        rw [hcase] at hout
        exact absurd trivial hout
      | restart wptr' seen' => simpa [PcOk, hcase] using hpc'
      | compare wptr' seen' => simpa [PcOk, hcase] using hpc'
      | idle => trivial
      | unlock => trivial
      | reread => trivial

/-- **Every step keeps the invariant**, if the ring does not overflow and no write pointer is
overtaken. -/
theorem Inv.step (h : s.Inv ih) {op : IhOp} (hroom : s.NoOverflow ih op) (htime : s.InTime op)
    (hs : s.step ih op = some s') : s'.Inv ih := by
  cases op with
  | write entry => exact h.write hroom hs
  | call t =>
    simp only [IhState.step, h.getWptr] at hs
    split at hs
    · split_ifs at hs with hoff
      · exact Option.some.inj hs ▸ h
      · exact Option.some.inj hs ▸ h.goTo_outside ⟨rfl, le_rfl⟩ id
    · cases hs
  | lock t =>
    simp only [IhState.step] at hs
    split at hs
    · next wptr seen hpc =>
      obtain ⟨hwptr, hseen⟩ : s.PcOk ih (.restart wptr seen) := hpc ▸ h.pc t
      split_ifs at hs with htaken
      · exact Option.some.inj hs ▸ h.goTo_outside trivial id
      · have hfree : s.lock = none := by simpa using htaken
        have hheld : Held IhPc.Holds s.pc none := hfree ▸ h.held
        exact Option.some.inj hs ▸ h.goTo ⟨hwptr, hseen, htime wptr seen hpc hfree⟩ hheld.take
    · cases hs
  | dispatch t =>
    simp only [IhState.step] at hs
    split at hs
    · next wptr seen hpc =>
      split_ifs at hs with hne
      exact Option.some.inj hs ▸ h.dispatch hpc hne
    · cases hs
  | setRptr t =>
    simp only [IhState.step] at hs
    split at hs
    · next wptr seen hpc =>
      split_ifs at hs with hne
      obtain ⟨k, hk, -, hlt⟩ := h.rptrReg
      have hholds : (s.pc t).Holds := by rw [hpc]; trivial
      have hgo : Inv ih { s.goTo t .unlock with lock := s.lock } :=
        h.goTo trivial (h.held.move fun _ => h.holder t hholds)
      exact Option.some.inj hs ▸
        { hgo with rptrReg := ⟨s.dispatched.length, le_rfl, h.rptr,
            show s.written.length < s.dispatched.length + ih.entries by omega⟩ }
    · cases hs
  | unlock t =>
    simp only [IhState.step] at hs
    split at hs
    · next hpc =>
      have hheld : Held IhPc.Holds s.pc (some t) := h.holder t (by rw [hpc]; trivial) ▸ h.held
      exact Option.some.inj hs ▸ h.goTo trivial (hheld.release id)
    · cases hs
  | reread t =>
    simp only [IhState.step, h.getWptr] at hs
    split at hs
    · exact Option.some.inj hs ▸ h.goTo_outside ⟨rfl, le_rfl⟩ id
    · cases hs
  | compare t =>
    simp only [IhState.step] at hs
    split at hs
    · next wptr seen hpc =>
      have hok : s.PcOk ih (.compare wptr seen) := hpc ▸ h.pc t
      refine Option.some.inj hs ▸ h.goTo_outside ?_ ?_
      · split_ifs
        · exact hok
        · trivial
      · split_ifs <;> exact id
    · cases hs

end IhState

/-- **The interrupt ring**: however calls of `amdgpu_ih_process` and the hardware interleave, if the
ring does not overflow and every call takes the lock before another one has dispatched entries
behind the write pointer it read, the entries are dispatched in the order in which they were
written, each once and not before it was written. -/
theorem ih_inOrder (ih : IhRing) {ops : List IhOp} {s : IhState}
    (hrun : Run (Guarded (fun s op s' => s.step ih op = some s')
      fun s op => s.NoOverflow ih op ∧ s.InTime op) IhState.init ops s) : s.InOrder := by
  have hinv : s.Inv ih := hrun.invariant (IhState.Inv ih)
    (fun _ _ _ h hstep => h.step hstep.2.1 hstep.2.2 hstep.1) IhState.Inv.init
  exact ⟨s.dispatched.length, hinv.le, hinv.inOrder⟩

/-- The ring of 64 KiB that the chips use. -/
def chipIhRing : IhRing where
  order := 16
  four_le := by decide

/-- Two entries, of which the second one is written while the first one is processed. -/
theorem ih_inOrder_two : ∃ s : IhState, s.InOrder ∧ s.dispatched = [some 1, some 2] := by
  have hrun : ∃ s : IhState, s.dispatched = [some 1, some 2] ∧
      Run (Guarded (fun s op s' => s.step chipIhRing op = some s')
        fun s op => s.NoOverflow chipIhRing op ∧ s.InTime op) IhState.init
        [.write 1, .call 1, .lock 1, .write 2, .dispatch 1, .setRptr 1, .unlock 1, .reread 1,
          .compare 1, .lock 1, .dispatch 1] s := by
    refine ⟨_, ?_, .cons ⟨rfl, show _ ≠ _ by decide, trivial⟩ <| .cons ⟨rfl, trivial, trivial⟩ <|
      .cons ⟨rfl, trivial, ?_⟩ <| .cons ⟨rfl, show _ ≠ _ by decide, trivial⟩ <|
      .cons ⟨rfl, trivial, trivial⟩ <| .cons ⟨rfl, trivial, trivial⟩ <|
      .cons ⟨rfl, trivial, trivial⟩ <| .cons ⟨rfl, trivial, trivial⟩ <|
      .cons ⟨rfl, trivial, trivial⟩ <| .cons ⟨rfl, trivial, ?_⟩ <|
      .cons ⟨rfl, trivial, trivial⟩ (.nil _)⟩
    · rfl
    · intro wptr seen hpc _
      cases hpc
      decide
    · intro wptr seen hpc _
      cases hpc
      decide
  obtain ⟨s, hs, hrun⟩ := hrun
  exact ⟨s, ih_inOrder chipIhRing hrun, hs⟩

/-- **A write pointer is overtaken**: the first call reads the write pointer behind the first entry;
a second call dispatches two entries; then the first call takes the lock, and dispatches an entry
that was not written. The ring does not overflow. -/
theorem ih_overtaken : ∃ s : IhState, ¬ s.InOrder ∧
    Run (Guarded (fun s op s' => s.step chipIhRing op = some s') (IhState.NoOverflow chipIhRing))
      IhState.init [.write 1, .call 1, .write 2, .call 2, .lock 2, .dispatch 2, .dispatch 2,
        .setRptr 2, .unlock 2, .lock 1, .dispatch 1] s := by
  refine ⟨_, ?_, .cons ⟨rfl, show _ ≠ _ by decide⟩ <| .cons ⟨rfl, trivial⟩ <|
    .cons ⟨rfl, show _ ≠ _ by decide⟩ <| .cons ⟨rfl, trivial⟩ <| .cons ⟨rfl, trivial⟩ <|
    .cons ⟨rfl, trivial⟩ <| .cons ⟨rfl, trivial⟩ <| .cons ⟨rfl, trivial⟩ <|
    .cons ⟨rfl, trivial⟩ <| .cons ⟨rfl, trivial⟩ <| .cons ⟨rfl, trivial⟩ (.nil _)⟩
  exact fun h => h.none_notMem (show none ∈ [some 1, some 2, none] by simp)

end Amdgpu
