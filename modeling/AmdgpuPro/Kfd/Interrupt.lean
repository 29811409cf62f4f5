import AmdgpuPro.Lib.CircularLog
import AmdgpuPro.Lib.Transition
import Mathlib.Data.List.GetD

set_option autoImplicit false

/-!
# The interrupt ring of the compute driver

Interrupts that the compute driver wants are copied into a ring by the interrupt handler
(`enqueue_ih_ring_entry`) and taken out by a work queue (`dequeue_ih_ring_entry`). There is no lock:
each side changes only its own index, and copies an entry before it moves the index.

## Main definitions

* `Amdkfd.InterruptRing.step` — one side goes one step further, copying byte by byte.
* `InterruptRing.Correct` — what the ring should guarantee.

## Main results

* `Amdkfd.interruptRing_correct` — the ring is correct in all runs.

## Design

The barriers make the order of the accesses that of the program, so that the two sides interleave.
An entry that is partly copied is in the ring behind those that were enqueued. The results `false`
are remembered with how many entries were in the ring when the other side's index was read.
-/

namespace Amdkfd

open Transition CircularLog

/-- The entry size of a device, a power of two. `kfd_interrupt_init` fails if the ring cannot be
allocated; `kmalloc` has much less than `2 ^ 32` bytes. -/
structure IhRingConfig where
  order : ℕ
  order_le : order ≤ 22

namespace IhRingConfig

variable (cfg : IhRingConfig)

/-- `ih_ring_entry_size` -/
def entrySize : ℕ := 2 ^ cfg.order

/-- `interrupt_ring_size` -/
def ringSize : ℕ := 1024 * cfg.entrySize

/-- `(rptr - wptr) % interrupt_ring_size == ih_ring_entry_size`, with a difference of 32 bits -/
def overflow (rptr wptr : ℕ) : Bool :=
  (rptr + 2 ^ 32 - wptr) % 2 ^ 32 % cfg.ringSize = cfg.entrySize

theorem entrySize_pos : 0 < cfg.entrySize := Nat.pow_pos (by omega)

theorem ringSize_eq : cfg.ringSize = cfg.entrySize * 1024 := Nat.mul_comm _ _

/-- The index of the entry with number `n`. -/
def index (n : ℕ) : ℕ := cfg.entrySize * (n % 1024)

theorem index_add (n : ℕ) : (cfg.index n + cfg.entrySize) % cfg.ringSize = cfg.index (n + 1) := by
  rw [index, index, ringSize_eq, ← Nat.mul_succ, Nat.mul_mod_mul_left, Nat.succ_eq_add_one,
    Nat.mod_add_mod]

variable {cfg} {n m k : ℕ}

/-- Byte `k` of an entry is at the place of its position. -/
theorem index_add_byte (hk : k < cfg.entrySize) :
    cfg.index n + k = (cfg.entrySize * n + k) % cfg.ringSize := by
  rw [ringSize_eq, Nat.mod_mul, Nat.mul_add_mod, Nat.mod_eq_of_lt hk,
    Nat.mul_add_div cfg.entrySize_pos, Nat.div_eq_of_lt hk, Nat.add_zero, index, Nat.add_comm]

/-- **The test for overflow** finds out whether all entries but one are in use. -/
theorem overflow_iff (hnm : n ≤ m) (hmn : m ≤ n + 1023) :
    cfg.overflow (cfg.index n) (cfg.index m) = true ↔ m = n + 1023 := by
  obtain ⟨c, hc⟩ : cfg.ringSize ∣ 2 ^ 32 := by
    have := cfg.order_le
    refine Dvd.intro (2 ^ (22 - cfg.order)) ?_
    rw [ringSize, entrySize, show 1024 = 2 ^ 10 by rfl, ← pow_add, ← pow_add]
    congr 1
    omega
  have hcpos : 0 < c := Nat.pos_of_ne_zero fun h => by simp [h] at hc
  have hdiff : cfg.index n + 2 ^ 32 - cfg.index m =
      cfg.entrySize * (n % 1024 + 1024 * c - m % 1024) := by
    rw [index, index, hc, ringSize_eq, Nat.mul_assoc, ← Nat.mul_add, ← Nat.mul_sub]
  have hmod : (cfg.index n + 2 ^ 32 - cfg.index m) % 2 ^ 32 % cfg.ringSize =
      cfg.entrySize * ((n % 1024 + 1024 * c - m % 1024) % 1024) := by
    rw [Nat.mod_mod_of_dvd _ (Dvd.intro c hc.symm), hdiff, ringSize_eq, Nat.mul_mod_mul_left]
  rw [overflow, decide_eq_true_iff, hmod, Nat.mul_eq_left cfg.entrySize_pos.ne']
  omega

end IhRingConfig

/-! ## The two sides -/

/-- An entry: its bytes. -/
abbrev IhRingEntry := List UInt8

/-- Where `enqueue_ih_ring_entry` is. -/
inductive EnqueuePc
  | idle
  /-- it has read `interrupt_ring_rptr`, when `seen` entries had been dequeued -/
  | readRptr (entry : IhRingEntry) (rptr seen : ℕ)
  /-- it has copied some bytes -/
  | copy (entry : IhRingEntry) (wptr copied : ℕ)

/-- Where `dequeue_ih_ring_entry` is. -/
inductive DequeuePc
  | idle
  /-- it has read `interrupt_ring_wptr`, when `seen` entries had been enqueued -/
  | readWptr (wptr seen : ℕ)
  /-- it has copied some bytes -/
  | copy (rptr : ℕ) (buf : IhRingEntry)

/-- The ring, and the two sides. -/
structure InterruptRing where
  ring : ℕ → UInt8
  rptr : ℕ
  wptr : ℕ
  enq : EnqueuePc
  deq : DequeuePc
  /-- the entries whose enqueue returned `true` -/
  enqueued : List IhRingEntry
  /-- the entries that a dequeue returned -/
  dequeued : List IhRingEntry
  /-- how many entries were in the ring when an enqueue failed -/
  overflows : List ℕ
  /-- how many entries were in the ring when a dequeue found none -/
  empties : List ℕ

/-- What happens next. -/
inductive IhRingOp
  /-- `enqueue_ih_ring_entry` is called, and reads `interrupt_ring_rptr` -/
  | enqueue (entry : IhRingEntry)
  | testFull
  | copyIn
  | setWptr
  /-- `dequeue_ih_ring_entry` is called, and reads `interrupt_ring_wptr` -/
  | dequeue
  | testEmpty
  | copyOut
  | setRptr

namespace InterruptRing

/-- The ring after `kfd_interrupt_init`, whose memory is not cleared. -/
def init (memory : ℕ → UInt8) : InterruptRing where
  ring := memory
  rptr := 0
  wptr := 0
  enq := .idle
  deq := .idle
  enqueued := []
  dequeued := []
  overflows := []
  empties := []

variable (cfg : IhRingConfig)

/-- One step. -/
def step (s : InterruptRing) : IhRingOp → Option InterruptRing
  | .enqueue entry =>
    match s.enq with
    | .idle =>
      if entry.length = cfg.entrySize then
        some { s with enq := .readRptr entry s.rptr s.dequeued.length }
      else none
    | _ => none
  | .testFull =>
    match s.enq with
    | .readRptr entry rptr seen =>
      if cfg.overflow rptr s.wptr then
        some { s with enq := .idle, overflows := (s.enqueued.length - seen) :: s.overflows }
      else some { s with enq := .copy entry s.wptr 0 }
    | _ => none
  | .copyIn =>
    match s.enq with
    | .copy entry wptr k =>
      if k < cfg.entrySize then
        some { s with
          ring := Function.update s.ring (wptr + k) (entry.getD k 0)
          enq := .copy entry wptr (k + 1) }
      else none
    | _ => none
  | .setWptr =>
    match s.enq with
    | .copy entry wptr k =>
      if k < cfg.entrySize then none
      else some { s with
        wptr := (wptr + cfg.entrySize) % cfg.ringSize
        enq := .idle
        enqueued := s.enqueued ++ [entry] }
    | _ => none
  | .dequeue =>
    match s.deq with
    | .idle => some { s with deq := .readWptr s.wptr s.enqueued.length }
    | _ => none
  | .testEmpty =>
    match s.deq with
    | .readWptr wptr seen =>
      if s.rptr = wptr then
        some { s with deq := .idle, empties := (seen - s.dequeued.length) :: s.empties }
      else some { s with deq := .copy s.rptr [] }
    | _ => none
  | .copyOut =>
    match s.deq with
    | .copy rptr buf =>
      if buf.length < cfg.entrySize then
        some { s with deq := .copy rptr (buf ++ [s.ring (rptr + buf.length)]) }
      else none
    | _ => none
  | .setRptr =>
    match s.deq with
    | .copy rptr buf =>
      if buf.length < cfg.entrySize then none
      else some { s with
        rptr := (rptr + cfg.entrySize) % cfg.ringSize
        deq := .idle
        dequeued := s.dequeued ++ [buf] }
    | _ => none

/-- What the ring should guarantee: the entries come out complete and in order, and none is missing
when a dequeue finds none; an enqueue fails only when there is room for no more; the indices are
those of entries inside the ring. -/
structure Correct (s : InterruptRing) : Prop where
  inOrder : s.dequeued = s.enqueued.take s.dequeued.length
  complete : ∀ entry ∈ s.enqueued, entry.length = cfg.entrySize
  empty : ∀ n ∈ s.empties, n = 0
  full : ∀ n ∈ s.overflows, n = 1023
  rptr : cfg.entrySize ∣ s.rptr ∧ s.rptr < cfg.ringSize
  wptr : cfg.entrySize ∣ s.wptr ∧ s.wptr < cfg.ringSize

/-! ## The invariant -/

/-- The entries in the ring, with the one that is copied at the moment. -/
def entries (s : InterruptRing) : List IhRingEntry :=
  match s.enq with
  | .copy entry _ _ => s.enqueued ++ [entry]
  | _ => s.enqueued

/-- How many bytes of it are copied. -/
def copied (s : InterruptRing) : ℕ :=
  match s.enq with
  | .copy _ _ k => k
  | _ => 0

/-- The byte at a position of a sequence of entries. -/
def byteAt (es : List IhRingEntry) (v : ℕ) : UInt8 :=
  (es.getD (v / cfg.entrySize) []).getD (v % cfg.entrySize) 0

/-- What the enqueue knows: there is room for its entry. -/
def EnqOk (s : InterruptRing) : EnqueuePc → Prop
  | .idle => True
  | .readRptr entry rptr seen => entry.length = cfg.entrySize ∧ rptr = cfg.index seen ∧
      seen ≤ s.dequeued.length ∧ s.enqueued.length ≤ seen + 1023
  | .copy entry wptr k => entry.length = cfg.entrySize ∧ wptr = s.wptr ∧ k ≤ cfg.entrySize ∧
      s.enqueued.length < s.dequeued.length + 1023

/-- What the dequeue knows: it has copied a part of the next entry. -/
def DeqOk (s : InterruptRing) : DequeuePc → Prop
  | .idle => True
  | .readWptr wptr seen => wptr = cfg.index seen ∧ s.dequeued.length ≤ seen ∧
      seen ≤ s.enqueued.length
  | .copy rptr buf => rptr = s.rptr ∧ s.dequeued.length < s.enqueued.length ∧
      buf.length ≤ cfg.entrySize ∧
      buf = (s.enqueued.getD s.dequeued.length []).take buf.length

/-- The indices are those of the next entries, and the bytes that were copied in and not yet out are
in the ring. -/
structure Inv (s : InterruptRing) : Prop where
  rptr : s.rptr = cfg.index s.dequeued.length
  wptr : s.wptr = cfg.index s.enqueued.length
  le : s.dequeued.length ≤ s.enqueued.length
  room : s.enqueued.length ≤ s.dequeued.length + 1023
  window : Window cfg.ringSize s.ring (byteAt cfg s.entries) (cfg.entrySize * s.dequeued.length)
    (cfg.entrySize * s.enqueued.length + s.copied)
  inOrder : s.dequeued = s.enqueued.take s.dequeued.length
  complete : ∀ entry ∈ s.enqueued, entry.length = cfg.entrySize
  empty : ∀ n ∈ s.empties, n = 0
  full : ∀ n ∈ s.overflows, n = 1023
  enq : s.EnqOk cfg s.enq
  deq : s.DeqOk cfg s.deq

variable {cfg} {s s' : InterruptRing}

theorem Inv.init (memory : ℕ → UInt8) : (init memory).Inv cfg where
  rptr := rfl
  wptr := rfl
  le := le_rfl
  room := Nat.zero_le _
  window := .empty _ _ _ _
  inOrder := rfl
  complete _ h := absurd h List.not_mem_nil
  empty _ h := absurd h List.not_mem_nil
  full _ h := absurd h List.not_mem_nil
  enq := trivial
  deq := trivial

/-- Byte `k` of the entry with number `n`. -/
theorem byteAt_eq (es : List IhRingEntry) {n k : ℕ} (hk : k < cfg.entrySize) :
    byteAt cfg es (cfg.entrySize * n + k) = (es.getD n []).getD k 0 := by
  rw [byteAt, Nat.mul_add_div cfg.entrySize_pos, Nat.div_eq_of_lt hk, Nat.add_zero,
    Nat.mul_add_mod, Nat.mod_eq_of_lt hk]

/-- Entries that are added do not change the bytes before. -/
theorem byteAt_append (es es' : List IhRingEntry) {v : ℕ} (hv : v < cfg.entrySize * es.length) :
    byteAt cfg (es ++ es') v = byteAt cfg es v := by
  have hlt : v / cfg.entrySize < es.length := Nat.div_lt_of_lt_mul hv
  rw [byteAt, byteAt, List.getD_append _ _ _ _ hlt]

/-- The enqueue starts to copy if there is room for its entry; otherwise the ring was full. -/
theorem Inv.testFull (h : s.Inv cfg) (hs : s.step cfg .testFull = some s') : s'.Inv cfg := by
  simp only [step] at hs
  split at hs
  case h_2 => cases hs
  case h_1 entry rptr seen henq =>
    obtain ⟨hlen, rfl, hseen, hroom⟩ : s.EnqOk cfg (.readRptr entry rptr seen) := henq ▸ h.enq
    have hle := h.le
    have hwindow := h.window
    have hiff : cfg.overflow (cfg.index seen) s.wptr = true ↔ s.enqueued.length = seen + 1023 :=
      h.wptr ▸ IhRingConfig.overflow_iff (hseen.trans hle) hroom
    simp only [hiff] at hs
    simp only [entries, copied, henq] at hwindow
    split_ifs at hs with hfull <;> obtain rfl := Option.some.inj hs
    · refine { h with window := hwindow, full := ?_, enq := trivial }
      intro n hn
      rcases List.mem_cons.mp hn with rfl | hn
      · omega
      · exact h.full n hn
    · refine { h with window := ?_, enq := ⟨hlen, rfl, Nat.zero_le _, ?_⟩ }
      · exact hwindow.congr fun v hv => byteAt_append _ _ hv
      · show s.enqueued.length < s.dequeued.length + 1023
        omega

/-- A byte is copied in, where nothing is that was not copied out. -/
theorem Inv.copyIn (h : s.Inv cfg) (hs : s.step cfg .copyIn = some s') : s'.Inv cfg := by
  simp only [step] at hs
  split at hs
  case h_2 => cases hs
  case h_1 entry wptr k henq =>
    split_ifs at hs with hk
    obtain rfl := Option.some.inj hs
    obtain ⟨hlen, rfl, -, hroom⟩ : s.EnqOk cfg (.copy entry wptr k) := henq ▸ h.enq
    have hwindow := h.window
    simp only [entries, copied, henq] at hwindow
    have hlt : cfg.entrySize * s.enqueued.length + k <
        cfg.entrySize * s.dequeued.length + cfg.ringSize := by
      have hmul := Nat.mul_le_mul_left cfg.entrySize (Nat.succ_le_of_lt hroom)
      rw [Nat.mul_add, Nat.mul_succ] at hmul
      rw [IhRingConfig.ringSize]
      omega
    have hnew := hwindow.write hlt
    rw [byteAt_eq _ hk, ← IhRingConfig.index_add_byte hk, ← h.wptr,
      List.getD_append_right _ _ _ _ le_rfl, Nat.sub_self, List.getD_cons_zero] at hnew
    exact { h with window := hnew, enq := ⟨hlen, rfl, hk, hroom⟩ }

/-- The entry is complete, and the index is moved. -/
theorem Inv.setWptr (h : s.Inv cfg) (hs : s.step cfg .setWptr = some s') : s'.Inv cfg := by
  simp only [step] at hs
  split at hs
  case h_2 => cases hs
  case h_1 entry wptr k henq =>
    split_ifs at hs with hk
    obtain rfl := Option.some.inj hs
    obtain ⟨hlen, rfl, hle, hroom⟩ : s.EnqOk cfg (.copy entry wptr k) := henq ▸ h.enq
    obtain rfl : k = cfg.entrySize := by omega
    have hwindow := h.window
    simp only [entries, copied, henq] at hwindow
    have hsucc : (s.enqueued ++ [entry]).length = s.enqueued.length + 1 := by simp
    refine ⟨h.rptr, ?_, ?_, ?_, ?_, ?_, ?_, h.empty, h.full, trivial, ?_⟩
    · show (s.wptr + cfg.entrySize) % cfg.ringSize = _
      rw [h.wptr, cfg.index_add, hsucc]
    · exact h.le.trans (by simp)
    · show (s.enqueued ++ [entry]).length ≤ _
      rw [hsucc]
      exact hroom
    · show Window _ _ _ _ (cfg.entrySize * (s.enqueued ++ [entry]).length + 0)
      rwa [hsucc, Nat.mul_succ]
    · show s.dequeued = (s.enqueued ++ [entry]).take s.dequeued.length
      rw [List.take_append_of_le_length h.le]
      exact h.inOrder
    · intro e he
      rcases List.mem_append.mp he with he | he
      · exact h.complete e he
      · rwa [List.mem_singleton.mp he]
    · -- what the dequeue has copied is still a part of the next entry
      have hdeq := h.deq
      show DeqOk cfg _ s.deq
      cases hcase : s.deq with
      | idle => trivial
      | readWptr w seen =>
        obtain ⟨hw, hseen, hle⟩ : s.DeqOk cfg (.readWptr w seen) := hcase ▸ hdeq
        exact ⟨hw, hseen, hle.trans (by simp)⟩
      | copy r buf =>
        obtain ⟨hr, hlt, hbuf, heq⟩ : s.DeqOk cfg (.copy r buf) := hcase ▸ hdeq
        refine ⟨hr, hlt.trans_le (by simp), hbuf, ?_⟩
        show buf = ((s.enqueued ++ [entry]).getD s.dequeued.length []).take buf.length
        rwa [List.getD_append _ _ _ _ hlt]

/-- A byte of the next entry is copied out. -/
theorem Inv.copyOut (h : s.Inv cfg) (hs : s.step cfg .copyOut = some s') : s'.Inv cfg := by
  simp only [step] at hs
  split at hs
  case h_2 => cases hs
  case h_1 rptr buf hdeq =>
    split_ifs at hs with hk
    obtain rfl := Option.some.inj hs
    obtain ⟨rfl, hlt, hbuf, heq⟩ : s.DeqOk cfg (.copy rptr buf) := hdeq ▸ h.deq
    have hentry : (s.enqueued.getD s.dequeued.length []).length = cfg.entrySize := by
      rw [List.getD_eq_getElem _ _ hlt]
      exact h.complete _ (List.getElem_mem hlt)
    have hbyte : s.ring (s.rptr + buf.length) =
        (s.enqueued.getD s.dequeued.length []).getD buf.length 0 := by
      have hmul := Nat.mul_le_mul_left cfg.entrySize (Nat.succ_le_of_lt hlt)
      rw [Nat.mul_succ] at hmul
      rw [h.rptr, IhRingConfig.index_add_byte hk, h.window _ (by omega) (by omega), byteAt_eq _ hk,
        entries]
      split
      · rw [List.getD_append _ _ _ _ hlt]
      · rfl
    refine { h with deq := ⟨rfl, hlt, by simpa using hk, ?_⟩ }
    have hlt' : buf.length < (s.enqueued.getD s.dequeued.length []).length := hentry ▸ hk
    rw [hbyte, List.length_append, List.length_singleton,
      List.take_succ_eq_append_getElem hlt', ← heq, List.getD_eq_getElem _ _ hlt']

/-- A whole entry is dequeued, and the index is moved. -/
theorem Inv.setRptr (h : s.Inv cfg) (hs : s.step cfg .setRptr = some s') : s'.Inv cfg := by
  simp only [step] at hs
  split at hs
  case h_2 => cases hs
  case h_1 rptr buf hdeq =>
    split_ifs at hs with hk
    obtain rfl := Option.some.inj hs
    obtain ⟨rfl, hlt, hbuf, heq⟩ : s.DeqOk cfg (.copy rptr buf) := hdeq ▸ h.deq
    have hsucc : (s.dequeued ++ [buf]).length = s.dequeued.length + 1 := by simp
    have hroom := h.room
    have hentry : buf = s.enqueued[s.dequeued.length] := by
      have hlen := h.complete _ (List.getElem_mem hlt)
      rw [heq, List.getD_eq_getElem _ _ hlt, List.take_of_length_le (by omega)]
    refine ⟨?_, h.wptr, ?_, ?_, ?_, ?_, h.complete, h.empty, h.full, ?_, trivial⟩
    · show (s.rptr + cfg.entrySize) % cfg.ringSize = _
      rw [h.rptr, cfg.index_add, hsucc]
    · exact hsucc ▸ hlt
    · show s.enqueued.length ≤ (s.dequeued ++ [buf]).length + 1023
      omega
    · refine h.window.mono (Nat.mul_le_mul_left _ ?_)
      exact hsucc ▸ Nat.le_succ _
    · show s.dequeued ++ [buf] = s.enqueued.take (s.dequeued ++ [buf]).length
      rw [hsucc, List.take_succ_eq_append_getElem hlt, ← h.inOrder, hentry]
    · have henq := h.enq
      show EnqOk cfg _ s.enq
      cases hcase : s.enq with
      | idle => trivial
      | readRptr entry r seen =>
        obtain ⟨hlen, hr, hseen, hle⟩ : s.EnqOk cfg (.readRptr entry r seen) := hcase ▸ henq
        exact ⟨hlen, hr, hseen.trans (by simp), hle⟩
      | copy entry w k =>
        obtain ⟨hlen, hw, hk, hle⟩ : s.EnqOk cfg (.copy entry w k) := hcase ▸ henq
        exact ⟨hlen, hw, hk, show s.enqueued.length < (s.dequeued ++ [buf]).length + 1023 by omega⟩

/-- **Every step of either side keeps the invariant.** -/
theorem Inv.step (h : s.Inv cfg) {op : IhRingOp} (hs : s.step cfg op = some s') : s'.Inv cfg := by
  cases op with
  | enqueue entry =>
    simp only [InterruptRing.step] at hs
    split at hs
    case h_2 => cases hs
    case h_1 henq =>
      split_ifs at hs with hlen
      obtain rfl := Option.some.inj hs
      have hwindow := h.window
      simp only [entries, copied, henq] at hwindow
      exact { h with window := hwindow, enq := ⟨hlen, h.rptr, le_rfl, h.room⟩ }
  | testFull => exact h.testFull hs
  | copyIn => exact h.copyIn hs
  | setWptr => exact h.setWptr hs
  | dequeue =>
    simp only [InterruptRing.step] at hs
    split at hs
    case h_2 => cases hs
    case h_1 hdeq =>
      obtain rfl := Option.some.inj hs
      exact { h with deq := ⟨h.wptr, h.le, le_rfl⟩ }
  | testEmpty =>
    simp only [InterruptRing.step] at hs
    split at hs
    case h_2 => cases hs
    case h_1 wptr seen hdeq =>
      obtain ⟨rfl, hseen, hle⟩ : s.DeqOk cfg (.readWptr wptr seen) := hdeq ▸ h.deq
      have hroom := h.room
      split_ifs at hs with hempty <;> obtain rfl := Option.some.inj hs
      · refine { h with empty := ?_, deq := trivial }
        have hmod : s.dequeued.length % 1024 = seen % 1024 :=
          Nat.eq_of_mul_eq_mul_left cfg.entrySize_pos (h.rptr.symm.trans hempty)
        intro n hn
        rcases List.mem_cons.mp hn with rfl | hn
        · omega
        · exact h.empty n hn
      · have hne : s.dequeued.length ≠ seen := fun heq => hempty (by rw [h.rptr, heq])
        exact { h with deq := ⟨rfl, show s.dequeued.length < s.enqueued.length by omega,
          Nat.zero_le _, rfl⟩ }
  | copyOut => exact h.copyOut hs
  | setRptr => exact h.setRptr hs

end InterruptRing

/-- The index of an entry is a multiple of the entry size inside the ring. -/
theorem IhRingConfig.index_inside (cfg : IhRingConfig) (n : ℕ) :
    cfg.entrySize ∣ cfg.index n ∧ cfg.index n < cfg.ringSize := by
  refine ⟨Dvd.intro _ rfl, ?_⟩
  rw [ringSize_eq]
  exact Nat.mul_lt_mul_of_pos_left (Nat.mod_lt _ (by decide)) cfg.entrySize_pos

/-- **The interrupt ring of the compute driver**: however the two sides interleave, entries come out
complete and in order, an enqueue fails only when the ring is full, and the indices stay inside. -/
theorem interruptRing_correct (cfg : IhRingConfig) (memory : ℕ → UInt8) {ops : List IhRingOp}
    {s : InterruptRing}
    (hrun : Run (fun s op s' => s.step cfg op = some s') (InterruptRing.init memory) ops s) :
    s.Correct cfg := by
  have hinv : s.Inv cfg := hrun.invariant (InterruptRing.Inv cfg)
    (fun _ _ _ h hstep => h.step hstep) (InterruptRing.Inv.init memory)
  refine ⟨hinv.inOrder, hinv.complete, hinv.empty, hinv.full, ?_, ?_⟩
  · exact hinv.rptr ▸ cfg.index_inside _
  · exact hinv.wptr ▸ cfg.index_inside _

/-- A device with entries of two bytes. -/
def twoByteConfig : IhRingConfig where
  order := 1
  order_le := by decide

/-- An entry of two bytes goes through the ring. -/
theorem interruptRing_correct_two_bytes : ∃ s : InterruptRing, s.Correct twoByteConfig ∧
    (s.enqueued, s.dequeued, s.empties) = ([[5, 6]], [[5, 6]], [0]) := by
  have hrun : ([.enqueue [5, 6], .dequeue, .testFull, .testEmpty, .copyIn, .copyIn, .setWptr,
      .dequeue, .testEmpty, .copyOut, .copyOut, .setRptr].foldlM (InterruptRing.step twoByteConfig)
        (InterruptRing.init fun _ => 0)).map (fun s => (s.enqueued, s.dequeued, s.empties)) =
      some ([[5, 6]], [[5, 6]], [0]) := by decide +kernel
  obtain ⟨s, hs, heq⟩ := Option.map_eq_some_iff.mp hrun
  have hguarded := @Run.of_foldlM _ _ _ _ _ _ (fun _ _ => True) (fun _ _ _ => trivial) hs
  exact ⟨s, interruptRing_correct _ _ (hguarded.mono fun _ _ _ h => h.1), heq⟩

end Amdkfd
