import AmdgpuPro.Lib.Chunks
import AmdgpuPro.Vm.PageTable

set_option autoImplicit false

/-!
# Memory of buffer objects, and the commands that copy and fill it

A buffer object in a memory domain is a list of nodes, each a range of pages. `amdgpu_copy_buffer`
and `amdgpu_fill_buffer` make one job with commands for the DMA engine, each for at most so many
bytes as the engine takes at once. Their number of bytes is a `uint32_t`, and the number of commands
is computed from it by `DIV_ROUND_UP` in 32 bits.

Addresses are 64 bit words, and a command reads and writes the bytes from its addresses on.

## Main definitions

* `Amdgpu.MmNode.addr`, `MmNode.pages` — the address and the pages of a node.
* `copyBuffer`, `fillBuffer` — the commands of one job.
* `CopyCmd.transfers`, `FillCmd.written` — what a command transfers, and what it writes.

## Main results

* `Amdgpu.copyBuffer_transfers`, `fillBuffer_written` — a job copies, or fills, a prefix of its
  range, of the length `Chunks.covered`.
-/

namespace Amdgpu

/-! ## Pages -/

/-- `PAGE_SHIFT` -/
def pageShift : ℕ := 12

/-- `PAGE_SIZE` -/
def pageSize : ℕ := 2 ^ pageShift

/-- The addresses of `n` pages from the address `a` on. -/
def pagesFrom (a : BitVec 64) (n : ℕ) : List (BitVec 64) :=
  (List.range n).map fun j => a + BitVec.ofNat 64 (j * pageSize)

@[simp] theorem length_pagesFrom (a : BitVec 64) (n : ℕ) : (pagesFrom a n).length = n := by
  simp [pagesFrom]

/-- Pages from `a` on are pages from `a` on and the pages after them. -/
theorem pagesFrom_add (a : BitVec 64) (m n : ℕ) :
    pagesFrom a (m + n) =
      pagesFrom a m ++ pagesFrom (a + BitVec.ofNat 64 (m * pageSize)) n := by
  simp [pagesFrom, List.range_add, Nat.add_mul, BitVec.ofNat_add, BitVec.add_assoc,
    Function.comp_def]

/-- The address of a node, `gpu_offset` being the one of its memory domain. -/
def MmNode.addr (gpuOffset : BitVec 64) (node : MmNode) : BitVec 64 :=
  BitVec.ofNat 64 node.start <<< pageShift + gpuOffset

/-- The addresses of the pages of a node. -/
def MmNode.pages (gpuOffset : BitVec 64) (node : MmNode) : List (BitVec 64) :=
  pagesFrom (node.addr gpuOffset) node.size

/-! ## Jobs -/

/-- The DMA engines, by the file with their `amdgpu_buffer_funcs`. -/
inductive DmaEngine
  | siDma | cikSdma | sdmaV24 | sdmaV30

namespace DmaEngine

/-- `copy_max_bytes` -/
def copyMaxBytes : DmaEngine → ℕ
  | siDma => 0xffff8
  | cikSdma => 0x1fffff
  | sdmaV24 => 0x1fffff
  | sdmaV30 => 0x1fffff

/-- `copy_num_dw` -/
def copyNumDw : DmaEngine → ℕ
  | siDma => 5
  | cikSdma => 7
  | sdmaV24 => 7
  | sdmaV30 => 7

/-- `fill_max_bytes` -/
def fillMaxBytes : DmaEngine → ℕ
  | siDma => 0xffff8
  | cikSdma => 0x1fffff
  | sdmaV24 => 0x1fffff
  | sdmaV30 => 0x1fffff

/-- `fill_num_dw` -/
def fillNumDw : DmaEngine → ℕ
  | siDma => 4
  | cikSdma => 5
  | sdmaV24 => 7
  | sdmaV30 => 5

theorem copyMaxBytes_pos (engine : DmaEngine) : 0 < engine.copyMaxBytes := by
  cases engine <;> decide

theorem copyMaxBytes_le (engine : DmaEngine) : engine.copyMaxBytes ≤ 2 ^ 32 := by
  cases engine <;> decide

theorem fillMaxBytes_pos (engine : DmaEngine) : 0 < engine.fillMaxBytes := by
  cases engine <;> decide

theorem fillMaxBytes_le (engine : DmaEngine) : engine.fillMaxBytes ≤ 2 ^ 32 := by
  cases engine <;> decide

end DmaEngine

/-- What the functions answer that make a job, let it wait for the buffer object, and submit it. -/
structure JobAnswers where
  /-- `amdgpu_job_alloc_with_ib`, by the size of the indirect buffer -/
  allocWithIb : ℕ → Option Errno
  /-- `amdgpu_sync_resv` -/
  syncResv : Option Errno
  /-- `amdgpu_job_submit` -/
  submit : Option Errno

/-- The size of the indirect buffer for a number of commands, with its padding. -/
def ibSize (numLoops numDw : ℕ) : ℕ := (numLoops * numDw + 7) / 8 * 8 * 4

/-- What a job with an indirect buffer of the given size fails with. -/
def JobAnswers.result (job : JobAnswers) (size : ℕ) : Option Errno :=
  match job.allocWithIb size with
  | some e => some e
  | none =>
    match job.syncResv with
    | some e => some e
    | none => job.submit

/-- Every answer is `0`. -/
structure JobAnswers.Granted (job : JobAnswers) : Prop where
  allocWithIb : ∀ size, job.allocWithIb size = none
  syncResv : job.syncResv = none
  submit : job.submit = none

theorem JobAnswers.Granted.result {job : JobAnswers} (h : job.Granted) (size : ℕ) :
    job.result size = none := by
  rw [JobAnswers.result, h.allocWithIb, h.syncResv, h.submit]

/-! ## Copies -/

/-- A command that copies bytes. -/
structure CopyCmd where
  src : BitVec 64
  dst : BitVec 64
  bytes : ℕ

/-- The pairs of addresses of `n` bytes from two addresses on. -/
def bytePairs (src dst : BitVec 64) (n : ℕ) : List (BitVec 64 × BitVec 64) :=
  (List.range n).map fun k => (src + BitVec.ofNat 64 k, dst + BitVec.ofNat 64 k)

/-- The bytes a command transfers, each with where it comes from and where it goes. -/
def CopyCmd.transfers (c : CopyCmd) : List (BitVec 64 × BitVec 64) :=
  bytePairs c.src c.dst c.bytes

/-- The loop of `amdgpu_copy_buffer`. -/
def emitCopies (maxBytes : ℕ) : ℕ → BitVec 64 → BitVec 64 → ℕ → List CopyCmd
  | 0, _, _, _ => []
  | numLoops + 1, src, dst, byteCount =>
    let cur := min byteCount maxBytes
    ⟨src, dst, cur⟩ ::
      emitCopies maxBytes numLoops (src + BitVec.ofNat 64 cur) (dst + BitVec.ofNat 64 cur)
        (byteCount - cur)

/-- `amdgpu_copy_buffer` with a reservation object, for a job that is not submitted directly -/
def copyBuffer (engine : DmaEngine) (job : JobAnswers) (src dst : BitVec 64)
    (byteCount : BitVec 32) : Except Errno (List CopyCmd) :=
  let maxBytes := engine.copyMaxBytes
  let numLoops := Chunks.divRoundUp 32 byteCount.toNat maxBytes
  match job.result (ibSize numLoops engine.copyNumDw) with
  | some e => .error e
  | none => .ok (emitCopies maxBytes numLoops src dst byteCount.toNat)

@[simp] theorem length_bytePairs (src dst : BitVec 64) (n : ℕ) :
    (bytePairs src dst n).length = n := by
  simp [bytePairs]

/-- Pairs of bytes are the first ones and the ones after them. -/
theorem bytePairs_add (src dst : BitVec 64) (m n : ℕ) :
    bytePairs src dst (m + n) = bytePairs src dst m ++
      bytePairs (src + BitVec.ofNat 64 m) (dst + BitVec.ofNat 64 m) n := by
  simp [bytePairs, List.range_add, BitVec.ofNat_add, BitVec.add_assoc, Function.comp_def]

/-- The commands of the loop are those of the chunks. -/
theorem emitCopies_eq_split (maxBytes n : ℕ) (src dst : BitVec 64) (off count : ℕ) :
    emitCopies maxBytes n (src + BitVec.ofNat 64 off) (dst + BitVec.ofNat 64 off) count =
      (Chunks.split maxBytes n off count).map fun c =>
        ⟨src + BitVec.ofNat 64 c.1, dst + BitVec.ofNat 64 c.1, c.2⟩ := by
  induction n generalizing off count with
  | zero => rfl
  | succ n ih =>
    rw [emitCopies, Chunks.split, List.map_cons, ← ih]
    simp only [BitVec.ofNat_add, BitVec.add_assoc]

/-- The loop transfers as much as it runs for. -/
theorem emitCopies_transfers (maxBytes n : ℕ) (src dst : BitVec 64) (count : ℕ) :
    (emitCopies maxBytes n src dst count).flatMap CopyCmd.transfers =
      bytePairs src dst (min count (n * maxBytes)) := by
  have hsplit := emitCopies_eq_split maxBytes n src dst 0 count
  have hchunk : ∀ c : ℕ × ℕ, CopyCmd.transfers
      ⟨src + BitVec.ofNat 64 c.1, dst + BitVec.ofNat 64 c.1, c.2⟩ =
        (List.range' c.1 c.2).map fun k => (src + BitVec.ofNat 64 k, dst + BitVec.ofNat 64 k) := by
    intro c
    simp [CopyCmd.transfers, bytePairs, List.range'_eq_map_range, BitVec.ofNat_add,
      BitVec.add_assoc, Function.comp_def]
  rw [show BitVec.ofNat 64 0 = 0#64 from rfl] at hsplit
  simp only [BitVec.add_zero] at hsplit
  rw [hsplit, List.flatMap_map]
  simp only [hchunk]
  rw [← List.map_flatMap, Chunks.flatMap_split, bytePairs, List.range_eq_range']

/-- **A copy job transfers a prefix of what it should.** -/
theorem copyBuffer_transfers {engine : DmaEngine} {job : JobAnswers} {src dst : BitVec 64} {n : ℕ}
    {cmds : List CopyCmd} (h : copyBuffer engine job src dst (BitVec.ofNat 32 n) = .ok cmds) :
    cmds.flatMap CopyCmd.transfers =
      bytePairs src dst (Chunks.covered 32 engine.copyMaxBytes n) := by
  simp only [copyBuffer, BitVec.toNat_ofNat] at h
  split at h
  · cases h
  · cases h
    rw [emitCopies_transfers]
    rfl

/-- A copy job that is granted is made. -/
theorem copyBuffer_granted {job : JobAnswers} (hjob : job.Granted) (engine : DmaEngine)
    (src dst : BitVec 64) (byteCount : BitVec 32) :
    ∃ cmds, copyBuffer engine job src dst byteCount = .ok cmds := by
  simp [copyBuffer, hjob.result]

/-! ## Fills -/

/-- A command that fills memory with a value. -/
structure FillCmd where
  srcData : BitVec 32
  dst : BitVec 64
  bytes : ℕ

/-- The addresses of `n` bytes from an address on. -/
def bytesFrom (a : BitVec 64) (n : ℕ) : List (BitVec 64) :=
  (List.range n).map fun k => a + BitVec.ofNat 64 k

/-- The bytes a command writes. -/
def FillCmd.written (c : FillCmd) : List (BitVec 64) := bytesFrom c.dst c.bytes

/-- The loop of `amdgpu_fill_buffer`. -/
def emitFills (maxBytes : ℕ) (srcData : BitVec 32) : ℕ → BitVec 64 → ℕ → List FillCmd
  | 0, _, _ => []
  | numLoops + 1, dst, byteCount =>
    let cur := min byteCount maxBytes
    ⟨srcData, dst, cur⟩ ::
      emitFills maxBytes srcData numLoops (dst + BitVec.ofNat 64 cur) (byteCount - cur)

/-- `amdgpu_fill_buffer` for a buffer object of so many pages at the page `start`. -/
def fillBuffer (engine : DmaEngine) (job : JobAnswers) (start : BitVec 64) (numPages : ℕ)
    (srcData : BitVec 32) : Except Errno (List FillCmd) :=
  let byteCount := BitVec.ofNat 32 (numPages * pageSize)
  let maxBytes := engine.fillMaxBytes
  let numLoops := Chunks.divRoundUp 32 byteCount.toNat maxBytes
  match job.result (ibSize numLoops engine.fillNumDw) with
  | some e => .error e
  | none => .ok (emitFills maxBytes srcData numLoops (start <<< pageShift) byteCount.toNat)

/-- The commands of the loop are those of the chunks. -/
theorem emitFills_eq_split (maxBytes n : ℕ) (srcData : BitVec 32) (dst : BitVec 64)
    (off count : ℕ) :
    emitFills maxBytes srcData n (dst + BitVec.ofNat 64 off) count =
      (Chunks.split maxBytes n off count).map fun c =>
        ⟨srcData, dst + BitVec.ofNat 64 c.1, c.2⟩ := by
  induction n generalizing off count with
  | zero => rfl
  | succ n ih =>
    rw [emitFills, Chunks.split, List.map_cons, ← ih]
    simp only [BitVec.ofNat_add, BitVec.add_assoc]

/-- The loop writes as much as it runs for. -/
theorem emitFills_written (maxBytes n : ℕ) (srcData : BitVec 32) (dst : BitVec 64) (count : ℕ) :
    (emitFills maxBytes srcData n dst count).flatMap FillCmd.written =
      bytesFrom dst (min count (n * maxBytes)) := by
  have hsplit := emitFills_eq_split maxBytes n srcData dst 0 count
  have hchunk : ∀ c : ℕ × ℕ, FillCmd.written ⟨srcData, dst + BitVec.ofNat 64 c.1, c.2⟩ =
      (List.range' c.1 c.2).map fun k => dst + BitVec.ofNat 64 k := by
    intro c
    simp [FillCmd.written, bytesFrom, List.range'_eq_map_range, BitVec.ofNat_add,
      BitVec.add_assoc, Function.comp_def]
  rw [show BitVec.ofNat 64 0 = 0#64 from rfl] at hsplit
  simp only [BitVec.add_zero] at hsplit
  rw [hsplit, List.flatMap_map]
  simp only [hchunk]
  rw [← List.map_flatMap, Chunks.flatMap_split, bytesFrom, List.range_eq_range']

/-- **A fill job writes a prefix of what it should.** -/
theorem fillBuffer_written {engine : DmaEngine} {job : JobAnswers} {start : BitVec 64}
    {numPages : ℕ} {srcData : BitVec 32} {cmds : List FillCmd}
    (h : fillBuffer engine job start numPages srcData = .ok cmds) :
    cmds.flatMap FillCmd.written = bytesFrom (start <<< pageShift)
      (Chunks.covered 32 engine.fillMaxBytes (numPages * pageSize)) := by
  simp only [fillBuffer, BitVec.toNat_ofNat] at h
  split at h
  · cases h
  · cases h
    rw [emitFills_written]
    rfl

end Amdgpu
