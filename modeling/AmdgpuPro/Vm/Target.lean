import AmdgpuPro.Vm.PageTableSpec

set_option autoImplicit false

/-!
# The addresses of the chunks of a mapping

A buffer object lies in blocks of memory. `amdgpu_vm_bo_split_mapping` goes through the blocks and
the pages of a mapping at the same time, beginning with the page of the buffer object at the offset
of the mapping. Each chunk is followed from there to the pages of the buffer object it is for.

## Main definitions

* `Amdgpu.Chunk.target` — the address that a chunk gives a page.
* `findBlock`, `MemReg.pageTarget` — the block of a page of a buffer object, and the address of the
  page.
* `MemReg.Mappable` — what the loop needs of a placement.

## Main results

* `Amdgpu.splitLoop_target` — the chunks have the addresses of the pages of the buffer object.
-/

namespace Amdgpu

variable {cfg : VmConfig}

/-! ## The addresses of a chunk -/

/-- The address that a chunk gives page `q`: that of an entry of the source table, of a system
page, or of memory. -/
def Chunk.target (dev : VmDevice) (c : Chunk) (q : ℕ) : BitVec 64 :=
  let addr := c.addr + BitVec.ofNat 64 ((q - c.start) * gpuPageSize)
  match c.src, c.pagesAddr with
  | some i, _ => (dev.gart (i + (addr >>> 12).toNat)).addr
  | none, some pa => vmMapGart pa addr
  | none, none => addr

/-- Where entries are copied, the addresses of a chunk do not wrap around. -/
def Chunk.Fits (c : Chunk) : Prop :=
  c.src.isSome ∨ c.pagesAddr.isSome →
    c.addr.toNat + (c.last + 1 - c.start) * gpuPageSize ≤ 2 ^ 64

/-! ## The blocks of a buffer object -/

/-- The block of page `k` of a buffer object, and the number of the page in the block. -/
def findBlock : List MmNode → ℕ → Option (MmNode × ℕ)
  | [], _ => none
  | n :: ns, k => if k < n.size then some (n, k) else findBlock ns (k - n.size)

/-- The pages of some blocks. -/
def blockPages (ns : List MmNode) : ℕ := (ns.map MmNode.size).sum

/-- The address in an entry for page `k` of a buffer object, which is page `r` of block `n`. For
system memory it is the one of the GART, if the flags are those of the GART, or the page itself. -/
def MemReg.pageTarget (dev : VmDevice) (mem : MemReg) (pagesAddr : Option (ℕ → BitVec 64))
    (gtt : Bool) (n : MmNode) (r k : ℕ) : BitVec 64 :=
  let addr := BitVec.ofNat 64 ((n.start + r) * gpuPageSize)
  match mem.memType with
  | .tt =>
    if gtt then (dev.gart (n.start + r)).addr
    else vmMapGart (pagesAddr.getD fun _ => 0) (BitVec.ofNat 64 (k * gpuPageSize))
  | .dgmaImport =>
    (dev.gart (((BitVec.ofNat 64 (n.start * gpuPageSize) +
      (dev.gpuOffset .dgmaImport - dev.gpuOffset .tt)) >>> 12).toNat + r)).addr
  | .dgma => addr + (dev.vramBaseOffset + dev.gpuOffset .dgma - dev.gpuOffset .vram)
  | .vram => addr + dev.vramBaseOffset
  | _ => addr

/-- What the loop needs of a placement for the first `pages` pages of a buffer object: where it
copies entries of the GART, the blocks lie in 64 bits of addresses, and where it takes the addresses
of system pages, the pages have the same number in their block as in the buffer object, so that they
are in the first block. -/
structure MemReg.Mappable (mem : MemReg) (ns : List MmNode) (pagesAddr : Option (ℕ → BitVec 64))
    (flags gttFlags : BitVec 32) (pages : ℕ) : Prop where
  nodes : mem.nodes = some ns
  size_le : ∀ n ∈ ns, n.size ≤ 2 ^ 52
  gart : mem.memType = .tt → flags = gttFlags → ∀ n ∈ ns, n.start + n.size ≤ 2 ^ 52
  dma : mem.memType = .tt → flags ≠ gttFlags →
    pagesAddr.isSome ∧ ∀ k n r, k < pages → findBlock ns k = some (n, r) → r = k
  other : mem.memType ≠ .tt → mem.memType ≠ .dgmaImport → pagesAddr = none

theorem findBlock_append {pre : List MmNode} {n : MmNode} {ns : List MmNode} {r : ℕ}
    (h : r < n.size) : findBlock (pre ++ n :: ns) (blockPages pre + r) = some (n, r) := by
  induction pre with
  | nil => simp [findBlock, blockPages, h]
  | cons k pre ih =>
    have hsum : blockPages (k :: pre) + r = k.size + (blockPages pre + r) := by
      simp [blockPages, Nat.add_assoc]
    rw [List.cons_append, findBlock, hsum, if_neg (by omega), Nat.add_sub_cancel_left, ih]

section Blocks

variable (dev : VmDevice) {mem : MemReg} {all : List MmNode} {pagesAddr : Option (ℕ → BitVec 64)}
  {flags gttFlags : BitVec 32} {pages : ℕ}

/-- The source of the loop is the one for the memory type. -/
structure SplitState.SourceOk (mem : MemReg) (pagesAddr : Option (ℕ → BitVec 64))
    (flags gttFlags : BitVec 32) (st : SplitState) : Prop where
  tt : mem.memType = .tt →
    st.pagesAddr = pagesAddr ∧ st.gttFlags = gttFlags ∧ (flags ≠ gttFlags → st.src = none)
  other : mem.memType ≠ .tt → mem.memType ≠ .dgmaImport → st.src = none ∧ st.pagesAddr = none

/-- The variables of the loop when it comes to page `k` of the buffer object: the block is the one
of the page. -/
structure SplitState.At (mem : MemReg) (all : List MmNode) (pagesAddr : Option (ℕ → BitVec 64))
    (flags gttFlags : BitVec 32) (st : SplitState) (k : ℕ) : Prop where
  inNode : st.InNode
  block : ∃ pre ns, st.nodes = some ns ∧ all = pre ++ ns ∧ k = blockPages pre + st.pfn
  source : st.SourceOk mem pagesAddr flags gttFlags

/-- The chunk of the loop in block `n`. -/
def blockChunk (mem : MemReg) (flags : BitVec 32) (n : MmNode) (st : SplitState) (last : ℕ) :
    Chunk :=
  let s := chunkSource dev mem flags n st
  ⟨s.vars.src, s.vars.pagesAddr, st.start, min last (st.start + s.maxEntries - 1),
    s.addr + BitVec.ofNat 64 (st.pfn <<< 12)⟩

/-- The variables of the loop after that chunk. -/
def blockNext (mem : MemReg) (flags : BitVec 32) (n : MmNode) (ns : List MmNode) (st : SplitState)
    (chunkLast : ℕ) : SplitState :=
  let s := chunkSource dev mem flags n st
  let pfn := st.pfn + (chunkLast - st.start + 1)
  if n.size = pfn then { s.vars with nodes := some ns, pfn := 0, start := chunkLast + 1 }
  else { s.vars with pfn := pfn, start := chunkLast + 1 }

/-- One round of the loop in a block. -/
theorem splitLoop_block {st : SplitState} {n : MmNode} {ns : List MmNode} (last fuel : ℕ)
    (hns : st.nodes = some (n :: ns)) :
    splitLoop dev mem flags last (fuel + 1) st =
      let c := blockChunk dev mem flags n st last
      if c.last + 1 ≠ last + 1 then
        let rest := splitLoop dev mem flags last fuel (blockNext dev mem flags n ns st c.last)
        (c :: rest.1, rest.2)
      else ([c], false) := by
  rw [splitLoop, hns]
  rfl

/-- The pages of the chunk are pages of the mapping and of the block. -/
theorem blockChunk_last {st : SplitState} {n : MmNode} {last : ℕ} (hle : st.start ≤ last)
    (hpfn : st.pfn < n.size) : st.start ≤ (blockChunk dev mem flags n st last).last ∧
      (blockChunk dev mem flags n st last).last ≤ last ∧
      (blockChunk dev mem flags n st last).last - st.start + 1 ≤ n.size - st.pfn := by
  obtain ⟨hpos, hmax, -⟩ := chunkSource_spec dev flags mem n st hpfn
  have hlast : (blockChunk dev mem flags n st last).last =
      min last (st.start + (chunkSource dev mem flags n st).maxEntries - 1) := rfl
  omega

theorem blockNext_start (n : MmNode) (ns : List MmNode) (st : SplitState) (chunkLast : ℕ) :
    (blockNext dev mem flags n ns st chunkLast).start = chunkLast + 1 := by
  unfold blockNext
  dsimp only
  split_ifs <;> rfl

/-- The address of a page of a block, from that of the block. -/
theorem ofNat_block_add (start pfn j : ℕ) :
    BitVec.ofNat 64 (start <<< 12) + (BitVec.ofNat 64 (pfn <<< 12) +
      BitVec.ofNat 64 (j * gpuPageSize)) =
      BitVec.ofNat 64 ((start + (pfn + j)) * gpuPageSize) := by
  rw [← BitVec.ofNat_add, ← BitVec.ofNat_add, Nat.shiftLeft_eq, Nat.shiftLeft_eq]
  refine congrArg (BitVec.ofNat 64) ?_
  unfold gpuPageSize
  omega

/-- The address of a page without that of the block. -/
theorem ofNat_page_add (pfn j : ℕ) :
    (0 : BitVec 64) + BitVec.ofNat 64 (pfn <<< 12) + BitVec.ofNat 64 (j * gpuPageSize) =
      BitVec.ofNat 64 ((pfn + j) * gpuPageSize) := by
  have h := ofNat_block_add 0 pfn j
  rw [Nat.zero_shiftLeft, Nat.zero_add] at h
  rw [BitVec.add_assoc]
  exact h

/-- The number of a page, from its address. -/
theorem toNat_page {r : ℕ} (h : r < 2 ^ 52) :
    (BitVec.ofNat 64 (r * gpuPageSize) >>> 12).toNat = r := by
  rw [BitVec.toNat_ushiftRight, BitVec.toNat_ofNat, Nat.shiftRight_eq_div_pow]
  unfold gpuPageSize
  omega

theorem toNat_shifted_page {r : ℕ} (h : r < 2 ^ 52) :
    (BitVec.ofNat 64 (r <<< 12) >>> 12).toNat = r := by
  rw [Nat.shiftLeft_eq]
  exact toNat_page h

/-- **One chunk**: its pages have the addresses of the pages of the buffer object. -/
theorem blockChunk_target (hmap : mem.Mappable all pagesAddr flags gttFlags pages) {st : SplitState}
    {k : ℕ} (hat : st.At mem all pagesAddr flags gttFlags k) {n : MmNode} {ns : List MmNode}
    (hns : st.nodes = some (n :: ns)) {last q : ℕ} (h1 : st.start ≤ q)
    (h2 : q ≤ (blockChunk dev mem flags n st last).last) (hpages : k + (q - st.start) < pages) :
    findBlock all (k + (q - st.start)) = some (n, st.pfn + (q - st.start)) ∧
      (blockChunk dev mem flags n st last).target dev q =
        mem.pageTarget dev pagesAddr (flags = gttFlags) n (st.pfn + (q - st.start))
          (k + (q - st.start)) := by
  obtain ⟨pre, ns', hnodes, hall, hk⟩ := hat.block
  obtain rfl : n :: ns = ns' := Option.some.inj (hns.symm.trans hnodes)
  have hpfn := hat.inNode n ns hns
  obtain ⟨hpos, hmax, -⟩ := chunkSource_spec dev flags mem n st hpfn
  have hlast : (blockChunk dev mem flags n st last).last =
      min last (st.start + (chunkSource dev mem flags n st).maxEntries - 1) := rfl
  have hr : st.pfn + (q - st.start) < n.size := by omega
  have hfind : findBlock all (k + (q - st.start)) = some (n, st.pfn + (q - st.start)) := by
    rw [hk, hall, Nat.add_assoc]
    exact findBlock_append hr
  refine ⟨hfind, ?_⟩
  have hin : n ∈ all := hall ▸ List.mem_append_right pre (List.mem_cons_self ..)
  have hsize := hmap.size_le n hin
  have hr' : st.pfn + (q - st.start) < 2 ^ 52 := by omega
  cases hmem : mem.memType with
  | tt =>
    obtain ⟨hp, hg, hs⟩ := hat.source.tt hmem
    by_cases hf : flags = gttFlags
    · have hfits := hmap.gart hmem hf n hin
      simp only [Chunk.target, blockChunk, chunkSource, hmem, ttSource, hg, if_pos hf,
        MemReg.pageTarget, decide_eq_true hf, if_true]
      rw [ofNat_page_add, toNat_page hr', toNat_shifted_page (by omega)]
    · obtain ⟨hsome, hfirst⟩ := hmap.dma hmem hf
      obtain ⟨pa, hpa⟩ := Option.isSome_iff_exists.mp hsome
      have hk' : k = st.pfn := by
        have := hfirst _ n _ hpages hfind
        omega
      simp only [Chunk.target, blockChunk, chunkSource, hmem, ttSource, hg, if_neg hf,
        MemReg.pageTarget, decide_eq_false hf, Bool.false_eq_true, if_false, hs hf, hp, hpa,
        Option.getD_some, hk', ofNat_page_add]
  | dgmaImport =>
    simp only [Chunk.target, blockChunk, chunkSource, hmem, ttSource, if_true,
      MemReg.pageTarget]
    rw [ofNat_page_add, toNat_page hr', Nat.shiftLeft_eq]
    rfl
  | vram =>
    obtain ⟨hs, hp⟩ := hat.source.other (by simp [hmem]) (by simp [hmem])
    simp only [Chunk.target, blockChunk, chunkSource, hmem, hs, hp, MemReg.pageTarget]
    rw [← ofNat_block_add]
    ac_rfl
  | dgma =>
    obtain ⟨hs, hp⟩ := hat.source.other (by simp [hmem]) (by simp [hmem])
    simp only [Chunk.target, blockChunk, chunkSource, hmem, hs, hp, MemReg.pageTarget]
    rw [← ofNat_block_add]
    ac_rfl
  | _ =>
    obtain ⟨hs, hp⟩ := hat.source.other (by simp [hmem]) (by simp [hmem])
    simp only [Chunk.target, blockChunk, chunkSource, hmem, hs, hp, MemReg.pageTarget]
    rw [← ofNat_block_add, BitVec.add_assoc]

/-- The addresses of a chunk that copies entries do not wrap around. -/
theorem blockChunk_fits (hmap : mem.Mappable all pagesAddr flags gttFlags pages) {st : SplitState}
    {k : ℕ} (hat : st.At mem all pagesAddr flags gttFlags k) {n : MmNode} {ns : List MmNode}
    (hns : st.nodes = some (n :: ns)) (last : ℕ) : (blockChunk dev mem flags n st last).Fits := by
  intro hsome
  obtain ⟨pre, ns', hnodes, hall, -⟩ := hat.block
  obtain rfl : n :: ns = ns' := Option.some.inj (hns.symm.trans hnodes)
  have hsize := hmap.size_le n (hall ▸ List.mem_append_right pre (List.mem_cons_self ..))
  have hpfn := hat.inNode n ns hns
  obtain ⟨hpos, hmax, -⟩ := chunkSource_spec dev flags mem n st hpfn
  have hlast : (blockChunk dev mem flags n st last).last =
      min last (st.start + (chunkSource dev mem flags n st).maxEntries - 1) := rfl
  have hpages : (blockChunk dev mem flags n st last).last + 1 - st.start ≤ n.size - st.pfn := by
    omega
  -- only system memory is copied, and then the address is that of the page alone
  have haddr : (blockChunk dev mem flags n st last).addr.toNat ≤ st.pfn * gpuPageSize := by
    have hzero : ((0 : BitVec 64) + BitVec.ofNat 64 (st.pfn <<< 12)).toNat ≤
        st.pfn * gpuPageSize := by
      have hz : (0 : BitVec 64).toNat = 0 := rfl
      rw [BitVec.toNat_add, BitVec.toNat_ofNat, hz, Nat.shiftLeft_eq]
      unfold gpuPageSize
      omega
    cases hmem : mem.memType with
    | tt =>
      simp only [blockChunk, chunkSource, hmem, ttSource]
      split_ifs <;> exact hzero
    | dgmaImport =>
      simp only [blockChunk, chunkSource, hmem, ttSource, if_true]
      exact hzero
    | _ =>
      obtain ⟨hs, hp⟩ := hat.source.other (by simp [hmem]) (by simp [hmem])
      simp [blockChunk, chunkSource, hmem, hs, hp] at hsome
  have hstart : (blockChunk dev mem flags n st last).start = st.start := rfl
  unfold gpuPageSize at haddr ⊢
  omega

/-- The `switch` over the memory type leaves the source as the one for it. -/
theorem SplitState.SourceOk.chunkSource {st : SplitState}
    (h : st.SourceOk mem pagesAddr flags gttFlags) (n : MmNode) :
    (chunkSource dev mem flags n st).vars.SourceOk mem pagesAddr flags gttFlags := by
  constructor
  · intro hmem
    obtain ⟨hp, hg, hs⟩ := h.tt hmem
    simp only [Amdgpu.chunkSource, hmem, ttSource, hg]
    split_ifs with hf
    · exact ⟨hp, rfl, fun hne => absurd hf hne⟩
    · exact ⟨hp, hg, hs⟩
  · intro h1 h2
    have hst := h.other h1 h2
    unfold Amdgpu.chunkSource
    cases hmem : mem.memType with
    | tt => exact absurd hmem h1
    | dgmaImport => exact absurd hmem h2
    | _ => exact hst

/-- The variables after a chunk are at the page of the buffer object behind it. -/
theorem SplitState.At.next {st : SplitState} {k : ℕ}
    (hat : st.At mem all pagesAddr flags gttFlags k) {n : MmNode} {ns : List MmNode}
    (hns : st.nodes = some (n :: ns)) (chunkLast : ℕ)
    (hlast : chunkLast - st.start + 1 ≤ n.size - st.pfn) :
    (blockNext dev mem flags n ns st chunkLast).At mem all pagesAddr flags gttFlags
      (k + (chunkLast - st.start + 1)) := by
  obtain ⟨pre, ns', hnodes, hall, hk⟩ := hat.block
  obtain rfl : n :: ns = ns' := Option.some.inj (hns.symm.trans hnodes)
  have hpfn := hat.inNode n ns hns
  obtain ⟨-, -, hvars⟩ := chunkSource_spec dev flags mem n st hpfn
  have hsource := hat.source.chunkSource dev n
  unfold blockNext
  dsimp only
  split_ifs with hend
  · refine ⟨fun n' ns' _ => n'.size_pos, ⟨pre ++ [n], ns, rfl, ?_, ?_⟩, hsource.tt, hsource.other⟩
    · rw [hall, List.append_assoc, List.singleton_append]
    · simp only [blockPages, List.map_append, List.sum_append, List.map_cons, List.map_nil,
        List.sum_cons, List.sum_nil] at hk ⊢
      omega
  · refine ⟨fun n' ns' h => ?_, ⟨pre, n :: ns, hvars.trans hns, hall, ?_⟩, hsource.tt,
      hsource.other⟩
    · obtain ⟨rfl, -⟩ := List.cons.inj (Option.some.inj (hns.symm.trans (hvars.symm.trans h)))
      dsimp only
      omega
    · dsimp only
      omega

/-- The pages of a chunk have the addresses of the pages of the buffer object, where page `start` of
the address space is for page `k` of that. -/
structure Chunk.Shows (mem : MemReg) (all : List MmNode) (pagesAddr : Option (ℕ → BitVec 64))
    (gtt : Bool) (start k : ℕ) (c : Chunk) : Prop where
  fits : c.Fits
  le : start ≤ c.start
  page : ∀ q, c.start ≤ q → q ≤ c.last → ∃ n r, findBlock all (k + (q - start)) = some (n, r) ∧
    c.target dev q = mem.pageTarget dev pagesAddr gtt n r (k + (q - start))

/-- Both numbers may be those of an earlier page. -/
theorem Chunk.Shows.back {dev : VmDevice} {gtt : Bool} {start k d : ℕ} {c : Chunk}
    (h : c.Shows dev mem all pagesAddr gtt (start + d) (k + d)) :
    c.Shows dev mem all pagesAddr gtt start k := by
  have hle := h.le
  refine ⟨h.fits, by omega, fun q h1 h2 => ?_⟩
  obtain ⟨n, r, hfind, htarget⟩ := h.page q h1 h2
  have hpage : k + d + (q - (start + d)) = k + (q - start) := by omega
  rw [hpage] at hfind htarget
  exact ⟨n, r, hfind, htarget⟩

/-- **The chunks of a mapping** have the addresses of the pages of the buffer object, from the one
the loop begins with.

**Proof sketch.** Induction on the fuel. The pages of a chunk are in the block of the loop, and the
variables after it are at the page behind it. -/
theorem splitLoop_target (hmap : mem.Mappable all pagesAddr flags gttFlags pages) (last fuel : ℕ) :
    ∀ (st : SplitState) (k : ℕ), st.start ≤ last → st.At mem all pagesAddr flags gttFlags k →
      k + (last - st.start) < pages → ∀ c ∈ (splitLoop dev mem flags last fuel st).1,
        c.Shows dev mem all pagesAddr (flags = gttFlags) st.start k := by
  induction fuel with
  | zero => intro st k _ _ _ c hc; cases hc
  | succ fuel ih =>
    intro st k hle hat hpages
    obtain ⟨pre, ns, hnodes, hall, hk⟩ := hat.block
    cases ns with
    | nil =>
      rw [splitLoop, hnodes]
      intro c hc
      cases hc
    | cons n ns =>
      obtain ⟨hge, hlast, hsize⟩ := @blockChunk_last dev mem flags st n last hle
        (hat.inNode n ns hnodes)
      have hfirst : (blockChunk dev mem flags n st last).Shows dev mem all pagesAddr
          (flags = gttFlags) st.start k :=
        ⟨blockChunk_fits dev hmap hat hnodes last, le_rfl, fun q h1 h2 =>
          ⟨n, _, blockChunk_target dev hmap hat hnodes h1 h2 (by omega)⟩⟩
      rw [splitLoop_block dev last fuel hnodes]
      dsimp only
      split_ifs with hmore
      · intro c hc
        rcases List.mem_cons.mp hc with rfl | hc
        · exact hfirst
        · have hnext := hat.next dev hnodes (blockChunk dev mem flags n st last).last hsize
          have hstart : (blockNext dev mem flags n ns st
              (blockChunk dev mem flags n st last).last).start =
                st.start + ((blockChunk dev mem flags n st last).last - st.start + 1) := by
            rw [blockNext_start]
            omega
          have hrest := ih _ _ (by omega) hnext (by omega) c hc
          rw [hstart] at hrest
          exact hrest.back
      · intro c hc
        obtain rfl := List.mem_singleton.mp hc
        exact hfirst

/-- The search for the first block skips whole blocks. -/
theorem skipNodes_eq (ns : List MmNode) (k : ℕ) :
    ∃ pre, ns = pre ++ (skipNodes ns k).1 ∧ k = blockPages pre + (skipNodes ns k).2 := by
  induction ns generalizing k with
  | nil => exact ⟨[], rfl, by simp [skipNodes, blockPages]⟩
  | cons n ns ih =>
    rw [skipNodes]
    split_ifs with hn
    · obtain ⟨pre, hpre, hk⟩ := ih (k - n.size)
      refine ⟨n :: pre, by rw [List.cons_append, ← hpre], ?_⟩
      simp only [blockPages, List.map_cons, List.sum_cons] at hk ⊢
      omega
    · exact ⟨[], rfl, by simp [blockPages]⟩

/-- The loop begins at the page of the offset of the mapping. -/
theorem splitInit_at (hmap : mem.Mappable all pagesAddr flags gttFlags pages) (m : Mapping) :
    (splitInit m mem pagesAddr gttFlags).At mem all pagesAddr flags gttFlags
      (m.offset / gpuPageSize) := by
  obtain ⟨pre, hpre, hk⟩ := skipNodes_eq all (m.offset >>> 12)
  have hinit : splitInit m mem pagesAddr gttFlags =
      ⟨some (skipNodes all (m.offset >>> 12)).1, (skipNodes all (m.offset >>> 12)).2, m.start, none,
        pagesAddr, gttFlags⟩ := by
    rw [splitInit, hmap.nodes]
  have hin := splitInit_inNode gttFlags pagesAddr m mem
  rw [hinit] at hin ⊢
  refine ⟨hin, ⟨pre, _, rfl, hpre, ?_⟩, fun _ => ⟨rfl, rfl, fun _ => rfl⟩, fun h1 h2 =>
    ⟨rfl, hmap.other h1 h2⟩⟩
  have hpage : m.offset >>> 12 = m.offset / gpuPageSize := Nat.shiftRight_eq_div_pow _ _
  exact hpage.symm.trans hk

end Blocks

/-! ## A mapping -/

/-- A page of the range is one of a chunk. -/
theorem Tiles.exists_mem {cs : List Chunk} {a b q : ℕ} (h : Tiles cs a b) (h1 : a ≤ q)
    (h2 : q < b) : ∃ c ∈ cs, c.start ≤ q ∧ q ≤ c.last := by
  induction h with
  | nil => omega
  | @cons c cs b hc hcs ih =>
    by_cases hq : q ≤ c.last
    · exact ⟨c, List.mem_cons_self .., h1, hq⟩
    · obtain ⟨c', hc', hin⟩ := ih (by omega) h2
      exact ⟨c', List.mem_cons_of_mem c hc', hin⟩

end Amdgpu
