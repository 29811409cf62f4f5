import AmdgpuPro.Kernel
import Mathlib.Tactic

set_option autoImplicit false

/-!
# The ring buffer of a kernel queue

The driver sends packets to the command processor through a ring of dwords. It writes from
`wptr` on, the command processor reads from `rptr` on, and the ring is empty when the two are
equal. A packet is never split: if it would reach the end of the ring, the rest of the ring is
filled with `NOP` packets and the packet is written to the start.

## Main definitions

* `Amdkfd.KernelQueue` — a ring with its two pointers, both inside the ring.
* `KernelQueue.acquirePacketBuffer`, `KernelQueue.submitPacket` — make room for a packet, and hand
  it over.
* `KernelQueue.PacketSafe` — the two calls write no dword that is still to be read, and do not make
  the ring look empty.
* `KernelQueue.Fits` — the packet has room behind the padding too.

## Main results

* `Amdkfd.packetSafe_iff_fits` — the calls are safe exactly for the packets that fit.
* `not_packetSafe` — the free space is computed without the padding, so a packet can be accepted
  that overwrites packets at the start of the ring.

## Design

What the calls write is recorded as the list of the dwords they write. The packet itself is
written by the caller between the two calls, to the dwords behind the returned pointer.
-/

namespace Amdkfd

open Amdgpu (Errno)

/-! ## The ring -/

/-- A kernel queue: the size of its ring in bytes, and the pointers `*rptr_kernel` and
`*wptr_kernel`, which count dwords. -/
structure KernelQueue where
  queueSize : BitVec 32
  rptr : BitVec 32
  wptr : BitVec 32
  rptr_lt : rptr.toNat < queueSize.toNat / 4
  wptr_lt : wptr.toNat < queueSize.toNat / 4

/-- The loop that writes `NOP` packets while `wptr > 0`: the dwords it writes, and `wptr`
afterwards. -/
def nopLoop (size : ℕ) : ℕ → ℕ → List ℕ × ℕ
  | 0, wptr => ([], wptr)
  | fuel + 1, wptr =>
    if 0 < wptr then
      let rest := nopLoop size fuel ((wptr + 1) % size)
      (wptr :: rest.1, rest.2)
    else ([], wptr)

/-- The loop ends at the start of the ring, and has written everything from `wptr` on.

**Proof sketch.** Induction on the number of dwords behind `wptr`. The last of them is followed
by dword `0`, where the loop stops. -/
theorem nopLoop_eq {size : ℕ} (fuel : ℕ) {wptr : ℕ} (hpos : 0 < wptr) (hlt : wptr < size)
    (hfuel : size ≤ wptr + fuel) :
    nopLoop size fuel wptr = (List.range' wptr (size - wptr), 0) := by
  induction fuel generalizing wptr with
  | zero => omega
  | succ fuel ih =>
    rw [nopLoop, if_pos hpos]
    by_cases hlast : wptr + 1 = size
    · have hone : size - wptr = 1 := by omega
      rw [hlast, Nat.mod_self, hone]
      cases fuel <;> simp [nopLoop]
    · have hsub : size - wptr = (size - (wptr + 1)) + 1 := by omega
      rw [Nat.mod_eq_of_lt (by omega), ih (by omega) (by omega) (by omega), hsub, List.range'_succ]

namespace KernelQueue

variable (kq : KernelQueue)

/-- `queue_size_dwords` -/
def queueSizeDwords : ℕ := kq.queueSize.toNat / 4

/-- `available_size`; the pointers are subtracted in 32 bits. -/
def availableSize : ℕ :=
  ((kq.rptr - 1 - kq.wptr).toNat + kq.queueSizeDwords) % kq.queueSizeDwords

theorem queueSizeDwords_lt : kq.queueSizeDwords < 2 ^ 30 := by
  have := kq.queueSize.isLt
  unfold queueSizeDwords
  omega

/-- What a successful `acquire_packet_buffer` leaves: the dwords it filled with `NOP` packets, the
dword `buffer_ptr` points to, and `pending_wptr`, which lies inside the ring. -/
structure Acquired (kq : KernelQueue) where
  nops : List ℕ
  buffer : ℕ
  pendingWptr : ℕ
  pendingWptr_lt : pendingWptr < kq.queueSizeDwords

/-- The padding of a packet that would reach the end of the ring. -/
theorem nopLoop_wptr {size : ℕ} (hsize : size < kq.queueSizeDwords)
    (hend : kq.queueSizeDwords ≤ kq.wptr.toNat + size) :
    nopLoop kq.queueSizeDwords kq.queueSizeDwords kq.wptr.toNat =
      (List.range' kq.wptr.toNat (kq.queueSizeDwords - kq.wptr.toNat), 0) :=
  nopLoop_eq _ (by omega) kq.wptr_lt (by omega)

/-- `acquire_packet_buffer` -/
def acquirePacketBuffer (size : ℕ) : Except Errno kq.Acquired :=
  if hfull : kq.queueSizeDwords ≤ size ∨ kq.availableSize ≤ size then .error .ENOMEM
  else if hend : kq.queueSizeDwords ≤ kq.wptr.toNat + size then
    let padded := nopLoop kq.queueSizeDwords kq.queueSizeDwords kq.wptr.toNat
    .ok
      { nops := padded.1
        buffer := padded.2
        pendingWptr := padded.2 + size
        pendingWptr_lt := by
          have h := kq.nopLoop_wptr (by omega) hend
          simp only [padded, h]
          omega }
  else
    .ok
      { nops := []
        buffer := kq.wptr.toNat
        pendingWptr := kq.wptr.toNat + size
        pendingWptr_lt := by omega }

/-- `submit_packet` -/
def submitPacket (a : kq.Acquired) : KernelQueue where
  queueSize := kq.queueSize
  rptr := kq.rptr
  wptr := BitVec.ofNat 32 a.pendingWptr
  rptr_lt := kq.rptr_lt
  wptr_lt := by
    have := a.pendingWptr_lt
    have := kq.queueSizeDwords_lt
    rw [BitVec.toNat_ofNat, Nat.mod_eq_of_lt (by omega)]
    exact a.pendingWptr_lt

/-! ## What should hold -/

/-- The dwords between `rptr` and `wptr`, which the command processor did not read yet. -/
def Unconsumed (i : ℕ) : Prop :=
  if kq.rptr.toNat ≤ kq.wptr.toNat then kq.rptr.toNat ≤ i ∧ i < kq.wptr.toNat
  else (kq.rptr.toNat ≤ i ∧ i < kq.queueSizeDwords) ∨ i < kq.wptr.toNat

instance decidableUnconsumed (i : ℕ) : Decidable (kq.Unconsumed i) :=
  inferInstanceAs (Decidable (if kq.rptr.toNat ≤ kq.wptr.toNat then _ ∧ _ else (_ ∧ _) ∨ _))

/-- The dwords that are written for a packet of `size` dwords: the padding, and the packet. -/
def Acquired.written {kq : KernelQueue} (a : kq.Acquired) (size : ℕ) : List ℕ :=
  a.nops ++ List.range' a.buffer size

/-- If a packet of `size` dwords is accepted then nothing that is still to be read is written, and
the ring does not look empty once the packet is submitted. -/
def PacketSafe (size : ℕ) : Prop :=
  ∀ a, kq.acquirePacketBuffer size = .ok a →
    (∀ i ∈ a.written size, ¬ kq.Unconsumed i) ∧
      (kq.submitPacket a).wptr ≠ (kq.submitPacket a).rptr

/-- The packet is refused; or it ends before the end of the ring (and is no empty packet in an
empty ring); or it is moved to the start of the ring and ends before `rptr` there, or the ring is
empty and the packet goes past `rptr`. -/
def Fits (size : ℕ) : Prop :=
  kq.queueSizeDwords ≤ size ∨ kq.availableSize ≤ size ∨
    (kq.wptr.toNat + size < kq.queueSizeDwords ∧ ¬ (size = 0 ∧ kq.rptr = kq.wptr)) ∨
    (kq.queueSizeDwords ≤ kq.wptr.toNat + size ∧
      (size < kq.rptr.toNat ∨ (kq.rptr = kq.wptr ∧ kq.rptr.toNat < size)))

/-! ## The two calls -/

variable {kq} {size : ℕ} {a : kq.Acquired}

/-- What an accepted packet looks like: it is written behind the padding, at the start of the
ring, or at `wptr`. -/
theorem acquirePacketBuffer_cases (h : kq.acquirePacketBuffer size = .ok a) :
    size < kq.queueSizeDwords ∧ size < kq.availableSize ∧
      ((kq.queueSizeDwords ≤ kq.wptr.toNat + size ∧
          a.nops = List.range' kq.wptr.toNat (kq.queueSizeDwords - kq.wptr.toNat) ∧
          a.buffer = 0 ∧ a.pendingWptr = size) ∨
        (kq.wptr.toNat + size < kq.queueSizeDwords ∧ a.nops = [] ∧ a.buffer = kq.wptr.toNat ∧
          a.pendingWptr = kq.wptr.toNat + size)) := by
  unfold acquirePacketBuffer at h
  split_ifs at h with hfull hend
  · have hpad := kq.nopLoop_wptr (by omega) hend
    cases h
    exact ⟨by omega, by omega, .inl ⟨hend, by simp [hpad], by simp [hpad], by simp [hpad]⟩⟩
  · cases h
    exact ⟨by omega, by omega, .inr ⟨by omega, rfl, rfl, rfl⟩⟩

/-- A packet that is smaller than the ring and than the available size is accepted. -/
theorem exists_acquirePacketBuffer (hsize : size < kq.queueSizeDwords)
    (havail : size < kq.availableSize) : ∃ a, kq.acquirePacketBuffer size = .ok a := by
  unfold acquirePacketBuffer
  rw [dif_neg (by omega)]
  split_ifs with hend
  · exact ⟨_, rfl⟩
  · exact ⟨_, rfl⟩

/-- The ring looks empty after `submit_packet` if the pending write pointer is the read pointer. -/
theorem submitPacket_wptr_eq_iff :
    (kq.submitPacket a).wptr = (kq.submitPacket a).rptr ↔ a.pendingWptr = kq.rptr.toNat := by
  have hpending := a.pendingWptr_lt
  have hlt := kq.queueSizeDwords_lt
  change BitVec.ofNat 32 a.pendingWptr = kq.rptr ↔ _
  rw [← BitVec.toNat_inj, BitVec.toNat_ofNat, Nat.mod_eq_of_lt (by omega)]

/-- In front of `rptr` the available size is the distance, less one. -/
theorem availableSize_of_lt (h : kq.wptr.toNat < kq.rptr.toNat) :
    kq.availableSize = kq.rptr.toNat - 1 - kq.wptr.toNat := by
  have hr := kq.rptr_lt
  have hlt := kq.queueSizeDwords_lt
  have hsub : (kq.rptr - 1 - kq.wptr).toNat = kq.rptr.toNat - 1 - kq.wptr.toNat := by
    rw [BitVec.toNat_sub, BitVec.toNat_sub]
    simp only [BitVec.ofNat_eq_ofNat, BitVec.toNat_ofNat]
    omega
  unfold availableSize
  rw [hsub, Nat.add_mod_right]
  apply Nat.mod_eq_of_lt
  unfold queueSizeDwords
  omega

/-- A packet that is not moved is written to free dwords. -/
theorem not_unconsumed_of_not_moved (havail : size < kq.availableSize) {i : ℕ}
    (hi : kq.wptr.toNat ≤ i) (hlt : i < kq.wptr.toNat + size) : ¬ kq.Unconsumed i := by
  unfold Unconsumed
  split_ifs with hle
  · omega
  · rw [availableSize_of_lt (by omega)] at havail
    omega

/-- A packet that would reach the end of the ring is accepted only if what is to be read lies in
front of `wptr`. -/
theorem rptr_le_wptr_of_moved (havail : size < kq.availableSize)
    (hend : kq.queueSizeDwords ≤ kq.wptr.toNat + size) : kq.rptr.toNat ≤ kq.wptr.toNat := by
  by_contra hlt
  have hr : kq.rptr.toNat < kq.queueSizeDwords := kq.rptr_lt
  rw [availableSize_of_lt (by omega)] at havail
  omega

/-- The dwords that are written for a packet that was moved to the start of the ring. -/
theorem mem_written_of_moved (hnops : a.nops =
      List.range' kq.wptr.toNat (kq.queueSizeDwords - kq.wptr.toNat))
    (hbuffer : a.buffer = 0) {i : ℕ} :
    i ∈ a.written size ↔ (kq.wptr.toNat ≤ i ∧ i < kq.queueSizeDwords) ∨ i < size := by
  have hw : kq.wptr.toNat < kq.queueSizeDwords := kq.wptr_lt
  rw [Acquired.written, hnops, hbuffer, List.mem_append, List.mem_range'_1, List.mem_range'_1]
  omega

end KernelQueue

/-! ## Which packets are safe -/

/-- **The two calls are safe exactly for the packets that fit.**

**Proof sketch.** A packet that is not moved is safe, because the available size is the distance
to `rptr` when `rptr` is in front of `wptr`. A packet that is moved goes to dwords `0` to `size`;
what is to be read lies between `rptr` and `wptr` then, so it must end at `rptr` or before, unless
the ring is empty, and at `rptr` the ring would look empty. -/
theorem packetSafe_iff_fits (kq : KernelQueue) (size : ℕ) : kq.PacketSafe size ↔ kq.Fits size := by
  have hr : kq.rptr.toNat < kq.queueSizeDwords := kq.rptr_lt
  have hw : kq.wptr.toNat < kq.queueSizeDwords := kq.wptr_lt
  have heq : kq.rptr = kq.wptr ↔ kq.rptr.toNat = kq.wptr.toNat := BitVec.toNat_inj.symm
  constructor
  · intro hsafe
    rcases le_or_gt kq.queueSizeDwords size with hsize | hsize
    · exact .inl hsize
    rcases le_or_gt kq.availableSize size with havail | havail
    · exact .inr (.inl havail)
    obtain ⟨a, ha⟩ := KernelQueue.exists_acquirePacketBuffer hsize havail
    obtain ⟨hwritten, hempty⟩ := hsafe a ha
    rw [ne_eq, KernelQueue.submitPacket_wptr_eq_iff] at hempty
    obtain ⟨-, -, ⟨hend, hnops, hbuffer, hpending⟩ | ⟨hend, -, -, hpending⟩⟩ :=
      KernelQueue.acquirePacketBuffer_cases ha
    · refine .inr (.inr (.inr ⟨hend, ?_⟩))
      have hle := KernelQueue.rptr_le_wptr_of_moved havail hend
      by_cases hrw : kq.rptr.toNat = kq.wptr.toNat
      · rw [heq]
        omega
      · -- the packet must not reach `rptr`, the first dword that is to be read
        have hfree : ¬ kq.Unconsumed kq.rptr.toNat ∨ size ≤ kq.rptr.toNat := by
          by_cases hlt : kq.rptr.toNat < size
          · have hmem := (KernelQueue.mem_written_of_moved hnops hbuffer).mpr (.inr hlt)
            exact .inl (hwritten _ hmem)
          · exact .inr (by omega)
        rw [KernelQueue.Unconsumed, if_pos hle] at hfree
        omega
    · refine .inr (.inr (.inl ⟨hend, ?_⟩))
      rw [heq]
      omega
  · intro hfits a ha
    obtain ⟨hsize, havail, hcases⟩ := KernelQueue.acquirePacketBuffer_cases ha
    unfold KernelQueue.Fits at hfits
    rw [heq] at hfits
    rw [ne_eq, KernelQueue.submitPacket_wptr_eq_iff]
    obtain ⟨hend, hnops, hbuffer, hpending⟩ | ⟨hend, hnops, hbuffer, hpending⟩ := hcases
    · have hle := KernelQueue.rptr_le_wptr_of_moved havail hend
      refine ⟨fun i hi => ?_, by omega⟩
      rw [KernelQueue.mem_written_of_moved hnops hbuffer] at hi
      rw [KernelQueue.Unconsumed, if_pos hle]
      omega
    · refine ⟨fun i hi => ?_, ?_⟩
      · rw [KernelQueue.Acquired.written, hnops, hbuffer, List.nil_append, List.mem_range'_1] at hi
        exact KernelQueue.not_unconsumed_of_not_moved havail hi.1 hi.2
      · by_cases hlt : kq.wptr.toNat < kq.rptr.toNat
        · rw [KernelQueue.availableSize_of_lt hlt] at havail
          omega
        · omega

/-- The ring of 2048 bytes with `rptr` at 10 and `wptr` at 500. -/
def almostFullQueue : KernelQueue where
  queueSize := 2048
  rptr := 10
  wptr := 500
  rptr_lt := by decide
  wptr_lt := by decide

/-- In a ring of 512 dwords of which 490 are to be read, a packet of 20 dwords is accepted. It is
moved to the start of the ring and overwrites dwords 10 to 19, which are to be read. -/
theorem not_packetSafe : ¬ almostFullQueue.PacketSafe 20 := by
  intro hsafe
  obtain ⟨a, ha⟩ : ∃ a, almostFullQueue.acquirePacketBuffer 20 = .ok a :=
    KernelQueue.exists_acquirePacketBuffer (by decide) (by decide)
  exact (hsafe a ha).1 10 (by cases ha; decide) (by decide)

end Amdkfd
