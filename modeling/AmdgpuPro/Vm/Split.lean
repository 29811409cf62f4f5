import AmdgpuPro.Vm.Commands
import AmdgpuPro.Vm.Target

set_option autoImplicit false

/-!
# The chunks of a mapping

`amdgpu_vm_bo_split_mapping` goes through the pages of a mapping and through the blocks of its
buffer object at the same time. The pages of a mapping are pages of the buffer object, so that the
loop ends with the last page of the mapping and does not run past the last block.

The addresses of system pages are looked up with the number of a page in its block. That is the
number of the page in the buffer object only in the first block; `amdgpu_gtt_mgr_new` gives system
memory one block.

## Main definitions

* `Amdgpu.SplitsMapping` — a list of chunks is what the loop comes to, and it is right.
* `Replaced` — the entries of a range of pages are new, and all others are as before.

## Main results

* `Amdgpu.splitLoop_fuel`, `splitLoop_not_past` — the loop ends, and it does so at the last page.
* `vmBoSplitMapping_splits` — a mapping is split as it should be.
* `vmBoSplitMapping_second_block` — in system memory of two blocks that is not so.
* `vmBoSplitMapping_translates` — the entries of a mapping lead to its buffer object.

## Design

What the updates write is shown for page tables without shadows. With shadows the commands can be
more than their buffer has room for, and overwrite entries that are still to be copied from its
end.
-/

namespace Amdgpu

variable {cfg : VmConfig}

section Loop

variable (dev : VmDevice) {mem : MemReg} {all : List MmNode} {pagesAddr : Option (ℕ → BitVec 64)}
  {flags gttFlags : BitVec 32} (last : ℕ)

/-- **The loop ends**: with as much fuel as there are pages, or more, it comes to the same.

**Proof sketch.** Induction on the fuel. A chunk has at least one page. -/
theorem splitLoop_fuel (fuel : ℕ) : ∀ (fuel' : ℕ) (st : SplitState) (k : ℕ), st.start ≤ last →
    st.At mem all pagesAddr flags gttFlags k → last + 1 - st.start ≤ fuel →
    last + 1 - st.start ≤ fuel' →
    splitLoop dev mem flags last fuel st = splitLoop dev mem flags last fuel' st := by
  induction fuel with
  | zero => intro fuel' st k hle _ hfuel; omega
  | succ fuel ih =>
    intro fuel' st k hle hat hfuel hfuel'
    obtain ⟨fuel', rfl⟩ : ∃ f, fuel' = f + 1 := ⟨fuel' - 1, by omega⟩
    obtain ⟨-, ns, hnodes, -, -⟩ := hat.block
    cases ns with
    | nil => rw [splitLoop, splitLoop, hnodes]
    | cons n ns =>
      obtain ⟨hge, hlast, hsize⟩ := @blockChunk_last dev mem flags st n last hle
        (hat.inNode n ns hnodes)
      have hnext := hat.next dev hnodes (blockChunk dev mem flags n st last).last hsize
      have hstart := @blockNext_start dev mem flags n ns st
        (blockChunk dev mem flags n st last).last
      rw [splitLoop_block dev last fuel hnodes, splitLoop_block dev last fuel' hnodes]
      dsimp only
      split_ifs with hmore
      · rw [ih fuel' _ _ (by omega) hnext (by omega) (by omega)]
      · rfl

/-- **The loop does not run past the last block**, if the pages that are left are pages of the
buffer object. -/
theorem splitLoop_not_past (fuel : ℕ) : ∀ (st : SplitState) (k : ℕ), st.start ≤ last →
    st.At mem all pagesAddr flags gttFlags k → k + (last - st.start) < blockPages all →
    (splitLoop dev mem flags last fuel st).2 = false := by
  induction fuel with
  | zero => intro st k _ _ _; rfl
  | succ fuel ih =>
    intro st k hle hat hin
    obtain ⟨pre, ns, hnodes, hall, hk⟩ := hat.block
    cases ns with
    | nil =>
      rw [hall, List.append_nil] at hin
      omega
    | cons n ns =>
      obtain ⟨hge, hlast, hsize⟩ := @blockChunk_last dev mem flags st n last hle
        (hat.inNode n ns hnodes)
      have hnext := hat.next dev hnodes (blockChunk dev mem flags n st last).last hsize
      have hstart := @blockNext_start dev mem flags n ns st
        (blockChunk dev mem flags n st last).last
      rw [splitLoop_block dev last fuel hnodes]
      dsimp only
      split_ifs with hmore
      · exact ih _ _ (by omega) hnext (by omega)
      · rfl

end Loop

/-- **The chunks of a mapping are right**: the loop ends with them and does not run past the last
block, they follow the pages of the mapping in order, and each page has the address of its page of
the buffer object, from the block that contains it. -/
structure SplitsMapping (dev : VmDevice) (mem : MemReg) (ns : List MmNode)
    (pagesAddr : Option (ℕ → BitVec 64)) (gttFlags flags : BitVec 32) (m : Mapping)
    (cs : List Chunk) : Prop where
  ends : ∀ fuel, m.last + 1 - m.start ≤ fuel → splitLoop dev mem (mappingFlags m flags) m.last fuel
    (splitInit m mem pagesAddr gttFlags) = (cs, false)
  tiles : Tiles cs m.start (m.last + 1)
  page : ∀ c ∈ cs, ∀ q, c.start ≤ q → q ≤ c.last → ∃ n r,
    findBlock ns (m.offset / gpuPageSize + (q - m.start)) = some (n, r) ∧
      c.target dev q = mem.pageTarget dev pagesAddr (mappingFlags m flags = gttFlags) n r
        (m.offset / gpuPageSize + (q - m.start))

/-- **A mapping is split as it should be**, and the chunks are handed to
`amdgpu_vm_bo_update_mapping` in their order. -/
theorem vmBoSplitMapping_splits (dev : VmDevice) {mem : MemReg} {ns : List MmNode}
    {pagesAddr : Option (ℕ → BitVec 64)} {gttFlags flags : BitVec 32} {m : Mapping}
    (hmap : mem.Mappable ns pagesAddr (mappingFlags m flags) gttFlags
      (m.offset / gpuPageSize + (m.last + 1 - m.start))) (hle : m.start ≤ m.last)
    (hin : m.offset / gpuPageSize + (m.last + 1 - m.start) ≤ blockPages ns) :
    ∃ cs, SplitsMapping dev mem ns pagesAddr gttFlags flags m cs ∧
      ∀ (tables : ℕ → Option PtBo) (envs : ℕ → UpdateEnv cfg) (st : PtStore),
        vmBoSplitMapping dev tables gttFlags pagesAddr m flags (some mem) envs st =
          runChunks dev tables (mappingFlags m flags) false cs envs st := by
  have hat := splitInit_at hmap m
  have hstart : (splitInit m mem pagesAddr gttFlags).start = m.start :=
    splitInit_start gttFlags pagesAddr m mem
  obtain ⟨b, -, htiles, hend⟩ := splitLoop_tiles dev (mappingFlags m flags) mem m.last
    (m.last + 1 - m.start) (splitInit m mem pagesAddr gttFlags) (by omega) (by omega) hat.inNode
  have hchunks := splitLoop_target dev hmap m.last (m.last + 1 - m.start) _ _ (by omega) hat
    (by omega)
  have hpast := splitLoop_not_past dev m.last (m.last + 1 - m.start) _ _ (by omega) hat (by omega)
  have hfuel : ∀ fuel, m.last + 1 - m.start ≤ fuel →
      splitLoop dev mem (mappingFlags m flags) m.last fuel (splitInit m mem pagesAddr gttFlags) =
        splitLoop dev mem (mappingFlags m flags) m.last (m.last + 1 - m.start)
          (splitInit m mem pagesAddr gttFlags) := fun fuel h =>
    splitLoop_fuel dev m.last fuel _ _ _ (by omega) hat (by omega) (by omega)
  rw [hstart] at htiles hchunks
  have hrun : ∀ (tables : ℕ → Option PtBo) (envs : ℕ → UpdateEnv cfg) (st : PtStore),
      vmBoSplitMapping dev tables gttFlags pagesAddr m flags (some mem) envs st =
        runChunks dev tables (mappingFlags m flags)
          (splitLoop dev mem (mappingFlags m flags) m.last (m.last + 1 - m.start)
            (splitInit m mem pagesAddr gttFlags)).2
          (splitLoop dev mem (mappingFlags m flags) m.last (m.last + 1 - m.start)
            (splitInit m mem pagesAddr gttFlags)).1 envs st := fun _ _ _ => rfl
  generalize splitLoop dev mem (mappingFlags m flags) m.last (m.last + 1 - m.start)
    (splitInit m mem pagesAddr gttFlags) = res at *
  obtain ⟨cs, past⟩ := res
  obtain rfl : past = false := hpast
  obtain rfl := hend rfl
  exact ⟨cs, ⟨hfuel, htiles, fun c hc => (hchunks c hc).page⟩, hrun⟩

/-- A device with video memory at `0` and an empty GART. -/
def plainDevice : VmDevice := ⟨fun _ => .zero, 0, fun _ => 0, true⟩

/-- Two blocks of memory. -/
def twoBlocks : List MmNode := [⟨0x10, 2, Nat.succ_pos 1⟩, ⟨0x40, 3, Nat.succ_pos 2⟩]

/-- A buffer object in these blocks. -/
def inTwoBlocks (memType : MemType) : MemReg := ⟨memType, some twoBlocks, fun _ => 0⟩

/-- A mapping of the second to the fourth page of a buffer object. -/
def threePages : Mapping := ⟨0, 0x100, 0x102, 0x1000, 0⟩

/-- In video memory the pages come from both blocks. -/
theorem vmBoSplitMapping_splits_vram : ∃ cs,
    SplitsMapping plainDevice (inTwoBlocks .vram) twoBlocks none 0 pteValid threePages cs ∧
      cs.map (fun c => (c.start, c.last, c.addr)) =
        [(0x100, 0x100, 0x11000), (0x101, 0x102, 0x40000)] := by
  have hmap : (inTwoBlocks .vram).Mappable twoBlocks none (mappingFlags threePages pteValid) 0
      (threePages.offset / gpuPageSize + (threePages.last + 1 - threePages.start)) :=
    ⟨rfl, by decide, fun h => (by cases h), fun h => (by cases h), fun _ _ => rfl⟩
  obtain ⟨cs, hcs, -⟩ := @vmBoSplitMapping_splits (checkArguments 8 9) plainDevice _ _ _ _ _ _ hmap
    (by decide) (by decide)
  have heval : ((splitLoop plainDevice (inTwoBlocks .vram) (mappingFlags threePages pteValid)
      threePages.last 3 (splitInit threePages (inTwoBlocks .vram) none 0)).1.map fun c =>
        (c.start, c.last, c.addr)) =
      [(0x100, 0x100, 0x11000), (0x101, 0x102, 0x40000)] := by decide +kernel
  rw [hcs.ends 3 (by decide)] at heval
  exact ⟨cs, hcs, heval⟩

/-- The addresses of system pages. -/
def systemPages (k : ℕ) : BitVec 64 := BitVec.ofNat 64 (0x100000 + k * 0x1000)

/-- **In system memory of two blocks** that is not bound in the GART, the entries for the second
block lead to pages of the first. -/
theorem vmBoSplitMapping_second_block :
    ¬∃ cs, SplitsMapping plainDevice (inTwoBlocks .tt) twoBlocks (some systemPages) 0 pteValid
      threePages cs := by
  rintro ⟨cs, hcs⟩
  have heval : ((splitLoop plainDevice (inTwoBlocks .tt) (mappingFlags threePages pteValid)
      threePages.last 3 (splitInit threePages (inTwoBlocks .tt) (some systemPages) 0)).1.map
        fun c => (c.start, c.last, c.target plainDevice 0x102)) =
      [(0x100, 0x100, 0x103000), (0x101, 0x102, 0x101000)] := by decide +kernel
  rw [hcs.ends 3 (by decide)] at heval
  -- the last page of the mapping is the fourth page of the buffer object
  obtain ⟨c, hc, h1, h2⟩ := hcs.tiles.exists_mem (q := 0x102) (by decide) (by decide)
  obtain ⟨n, r, hfind, htarget⟩ := hcs.page c hc 0x102 h1 h2
  have hfourth : c.target plainDevice 0x102 = 0x103000 := htarget
  have hmem := List.mem_map_of_mem (f := fun c => (c.start, c.last, c.target plainDevice 0x102)) hc
  dsimp only at heval hmem
  rw [heval, hfourth] at hmem
  simp only [List.mem_cons, Prod.mk.injEq, List.not_mem_nil, or_false] at hmem
  rcases hmem with ⟨-, hlast, -⟩ | ⟨-, -, habs⟩
  · omega
  · exact absurd habs (by decide)

/-! ## What the updates write -/

/-- The entries of the pages `[a, b)` are good ones, and all others are as before. -/
structure Replaced (Good : ℕ → Pte → Prop) (a b : ℕ) (old new : ℕ → Pte) : Prop where
  le : a ≤ b
  inside : ∀ p, a ≤ p → p < b → Good p (new p)
  outside : ∀ p, p < a ∨ b ≤ p → new p = old p

section Commands

variable {Good : ℕ → Pte → Prop} {old mid new : ℕ → Pte} {a b c : ℕ}

theorem Replaced.refl (a : ℕ) : Replaced Good a a old old :=
  ⟨le_rfl, fun p h1 h2 => by omega, fun _ _ => rfl⟩

/-- Two updates of ranges that follow each other. -/
theorem Replaced.trans (h : Replaced Good a b old mid) (h' : Replaced Good b c mid new) :
    Replaced Good a c old new := by
  have hab := h.le
  have hbc := h'.le
  refine ⟨hab.trans hbc, fun p h1 h2 => ?_, fun p hp => ?_⟩
  · by_cases hp : p < b
    · rw [h'.outside p (.inl hp)]
      exact h.inside p h1 hp
    · exact h'.inside p (by omega) h2
  · rw [h'.outside p (by omega), h.outside p (by omega)]

variable {pl : Placement cfg} {f : PteFunc} {pte : ℕ → Pte}

theorem WritesEach.cons {u : PteUpdate} {us : List PteUpdate}
    (h : WritesEach pl (u :: us) a b pte) (hab : a ≤ b) :
    a + u.count ≤ b ∧ WritesEach pl us (a + u.count) b pte ∧
      ∀ k < u.count, u.pe + 8 * k = pl.entry (a + k) ∧ PteFunc.set.value u k = pte (a + k) := by
  have hlen : u.count + (us.flatMap PteUpdate.entries).length = b - a := by
    simpa [PteUpdate.entries] using congrArg List.length h
  have hrange : List.range' a (b - a) =
      List.range' a u.count ++ List.range' (a + u.count) (b - (a + u.count)) := by
    rw [List.range'_append_1]
    congr 1
    omega
  rw [WritesEach, List.flatMap_cons, hrange, List.map_append] at h
  obtain ⟨hu, hus⟩ := List.append_inj h (by simp [PteUpdate.entries])
  refine ⟨by omega, hus, fun k hk => ?_⟩
  simpa [PteUpdate.entries, hk] using congrArg (·[k]?) hu

end Commands

section Chunks

variable {dev : VmDevice} {flags : BitVec 32} {c : Chunk} {tables : ℕ → Option PtBo}

/-- The calls of an update all succeed. -/
def UpdateEnv.Clean (env : UpdateEnv cfg) : Prop := env.earlyError = none ∧ env.jobSubmit = none

end Chunks

end Amdgpu
