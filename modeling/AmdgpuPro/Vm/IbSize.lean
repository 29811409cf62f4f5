import AmdgpuPro.Cs.Ib
import AmdgpuPro.Vm.Commands
import Mathlib.Algebra.Order.BigOperators.Group.List

set_option autoImplicit false

/-!
# The size of the buffer for a page table update

`amdgpu_vm_bo_update_mapping` allocates an indirect buffer for the commands of an update, and
reserves one command for each page table of the range, or for each 2048 entries. The commands are
emitted twice if page tables have shadows: once for the shadows, and once for the tables. When the
entries are system pages they are staged at the end of the buffer, and the commands copy them from
there.

## Main definitions

* `Amdgpu.vmUpdateIb` — the buffer that `amdgpu_vm_bo_update_mapping` fills.
* `UpdateIb.Fits` — what was emitted is within the buffer and before the staged entries.
* `rangeDwords` — the words of one pass if no two page tables are adjacent.

## Main results

* `Amdgpu.length_passWords_le` — a pass never takes more than `rangeDwords`.
* `length_passWords_spaced` — it takes that much with gaps between the page tables.
* `vmUpdateIb_fits_iff` — with shadows, a range fits for every layout of the page tables if and only
  if twice that much does.
* `vmUpdateIb_overflow` — ten page tables of 512 entries are too much.

## Design

Page tables have shadows if the device backs them up, which is decided by a module parameter; so
either all of them have one or none has.
-/

namespace Amdgpu

variable {cfg : VmConfig}

/-! ## The words of a command -/

/-- `SDMA_PKT_HEADER_OP` and `SDMA_PKT_HEADER_SUB_OP` -/
def sdmaPktHeader (op subOp : BitVec 32) : BitVec 32 := (op &&& 0xFF) ||| ((subOp &&& 0xFF) <<< 8)

/-- `sdma_v3_0_vm_copy_pte` -/
def sdmaVmCopyPte (pe src : BitVec 64) (count : ℕ) : List (BitVec 32) :=
  [sdmaPktHeader 1 0, BitVec.ofNat 32 (count * 8), 0, lower32Bits src, upper32Bits src,
    lower32Bits pe, upper32Bits pe]

/-- `sdma_v3_0_vm_write_pte` -/
def sdmaVmWritePte (pe value : BitVec 64) (count incr : ℕ) : List (BitVec 32) :=
  [sdmaPktHeader 2 0, lower32Bits pe, upper32Bits pe, BitVec.ofNat 32 (count * 2)] ++
    (List.range count).flatMap fun k =>
      [lower32Bits (value + BitVec.ofNat 64 (k * incr)),
        upper32Bits (value + BitVec.ofNat 64 (k * incr))]

/-- `sdma_v3_0_vm_set_pte_pde` -/
def sdmaVmSetPtePde (pe addr : BitVec 64) (count incr : ℕ) (flags : BitVec 32) :
    List (BitVec 32) :=
  [sdmaPktHeader 12 0, lower32Bits pe, upper32Bits pe, flags, 0, lower32Bits addr,
    upper32Bits addr, BitVec.ofNat 32 incr, 0, BitVec.ofNat 32 count]

/-- `amdgpu_vm_do_set_ptes` -/
def vmDoSetPtes (u : PteUpdate) : List (BitVec 32) :=
  if u.count < 3 then
    sdmaVmWritePte (BitVec.ofNat 64 u.pe) (u.dst ||| u.flags.setWidth 64) u.count gpuPageSize
  else sdmaVmSetPtePde (BitVec.ofNat 64 u.pe) u.dst u.count gpuPageSize u.flags

/-- `amdgpu_vm_do_copy_ptes` -/
def vmDoCopyPtes (src : BitVec 64) (u : PteUpdate) : List (BitVec 32) :=
  sdmaVmCopyPte (BitVec.ofNat 64 u.pe) (src + (u.dst >>> 12) * 8) u.count

/-- `sdma_v3_0_ring_pad_ib`; `burstNop` is a property of the engine. -/
def sdmaRingPadIb (burstNop : Bool) (ib : List (BitVec 32)) : List (BitVec 32) :=
  let padCount := (8 - ib.length % 8) % 8
  ib ++ (List.range padCount).map fun i =>
    if burstNop && i = 0 then
      sdmaPktHeader 0 0 ||| ((BitVec.ofNat 32 (padCount - 1) &&& 0x3FFF) <<< 16)
    else sdmaPktHeader 0 0

/-! ## The buffer -/

/-- `ndw`, a word of 32 bits -/
def updateNdw (cfg : VmConfig) (src : Option ℕ) (pagesAddr : Option (ℕ → BitVec 64)) (nptes : ℕ) :
    ℕ :=
  let ncmds := nptes / 2 ^ min cfg.blockSize 11 + 1
  (match src, pagesAddr with
    | some _, _ => 64 + ncmds * 7
    | none, some _ => 64 + ncmds * 7 + nptes * 2
    | none, none => 64 + ncmds * 10 + 2 * 10) % 0x100000000

/-- Where the page tables, the GART table and the buffer lie. -/
structure UpdateLayout (cfg : VmConfig) where
  place : Placement cfg
  shadowPlace : Placement cfg
  /-- `adev->gart.table_addr` -/
  gartTableAddr : BitVec 64
  /-- `ib->gpu_addr` -/
  ibGpuAddr : BitVec 64
  burstNop : Bool

/-- The buffer for an update. -/
structure UpdateIb where
  /-- the number of words that are allocated -/
  ndw : ℕ
  /-- the index of the staged entries -/
  staged : Option ℕ
  /-- the words that are emitted from the beginning on -/
  words : List (BitVec 32)

/-- **The buffer is large enough**: what was emitted is within it and does not reach the staged
entries. -/
structure UpdateIb.Fits (ib : UpdateIb) : Prop where
  within : ib.words.length ≤ ib.ndw
  beforeStaged : ∀ i, ib.staged = some i → ib.words.length ≤ i

section Buffer

variable (dev : VmDevice) (tables : ℕ → Option PtBo) (src : Option ℕ)
  (pagesAddr : Option (ℕ → BitVec 64)) (start last : ℕ) (flags : BitVec 32) (addr : BitVec 64)

/-- The index of the staged entries: `ndw - nptes * 2` -/
def updateStaged (cfg : VmConfig) (nptes : ℕ) : Option ℕ :=
  match src, pagesAddr with
  | none, some _ =>
    some ((0x100000000 + updateNdw cfg src pagesAddr nptes - nptes * 2 % 0x100000000) % 0x100000000)
  | _, _ => none

/-- `params->func` as a function that emits words; `params->src` is in the GART table or in the
buffer. -/
def emitUpdate (lay : UpdateLayout cfg) (nptes : ℕ) (u : PteUpdate) : List (BitVec 32) :=
  match src, pagesAddr with
  | some i, _ => vmDoCopyPtes (lay.gartTableAddr + BitVec.ofNat 64 (8 * i)) u
  | none, some _ =>
    vmDoCopyPtes (lay.ibGpuAddr +
      BitVec.ofNat 64 (4 * (updateStaged src pagesAddr cfg nptes).getD 0)) u
  | none, none => vmDoSetPtes u

/-- The buffer that `amdgpu_vm_bo_update_mapping` fills; `none` is the use of a missing table. -/
def vmUpdateIb (lay : UpdateLayout cfg) : Option UpdateIb := do
  let nptes := (last - start + 1) % 0x100000000
  let copied := (pteFunc dev src pagesAddr flags addr).2.1
  let dst := (pteFunc dev src pagesAddr flags addr).2.2
  let shadowUs ← vmFragPtes lay.shadowPlace tables true copied start (last + 1) dst flags
  let us ← vmFragPtes lay.place tables false copied start (last + 1) dst flags
  some ⟨updateNdw cfg src pagesAddr nptes, updateStaged src pagesAddr cfg nptes,
    sdmaRingPadIb lay.burstNop
      ((shadowUs ++ us).flatMap (emitUpdate src pagesAddr lay nptes))⟩

end Buffer

/-! ## How many words a pass takes -/

/-- The number of words of a command with `count` entries. -/
def cmdDwords (copied : Bool) (count : ℕ) : ℕ :=
  if copied then 7 else if count < 3 then 4 + 2 * count else 10

/-- The number of words of a range if each page table needs a command of its own. -/
def PtesRange.dwords (cfg : VmConfig) (copied : Bool) (r : PtesRange) : ℕ :=
  ((tableParts cfg r.start r.last).map fun p => cmdDwords copied p.2).sum

/-- **The number of words of a pass** over the pages `[start, last)` if each page table needs
commands of its own. -/
def rangeDwords (cfg : VmConfig) (copied : Bool) (start last : ℕ) (flags : BitVec 32) : ℕ :=
  ((fragRanges copied start last flags).map (PtesRange.dwords cfg copied)).sum

theorem length_vmDoSetPtes (u : PteUpdate) : (vmDoSetPtes u).length = cmdDwords false u.count := by
  have hset : cmdDwords false u.count = if u.count < 3 then 4 + 2 * u.count else 10 :=
    if_neg Bool.false_ne_true
  rw [hset, vmDoSetPtes]
  split
  · simp only [sdmaVmWritePte, List.length_append, List.length_flatMap, List.length_cons,
      List.length_nil, List.map_const', List.length_range, List.sum_replicate_nat]
    omega
  · rfl

theorem length_sdmaRingPadIb (burstNop : Bool) (ib : List (BitVec 32)) :
    (sdmaRingPadIb burstNop ib).length = (ib.length + 7) / 8 * 8 := by
  simp only [sdmaRingPadIb, List.length_append, List.length_map, List.length_range]
  omega

/-- Every emitted command has its number of words. -/
theorem length_emitUpdate (dev : VmDevice) (src : Option ℕ) (pagesAddr : Option (ℕ → BitVec 64))
    (flags : BitVec 32) (addr : BitVec 64) (lay : UpdateLayout cfg) (nptes : ℕ) (u : PteUpdate) :
    (emitUpdate src pagesAddr lay nptes u).length =
      cmdDwords (pteFunc dev src pagesAddr flags addr).2.1 u.count := by
  cases src with
  | some i => rfl
  | none =>
    cases pagesAddr with
    | some pa => rfl
    | none => exact length_vmDoSetPtes u

/-- A joined command does not take more words than the two it is joined from. -/
theorem cmdDwords_add_le (copied : Bool) {m n : ℕ} (hm : 0 < m) (hn : 0 < n) :
    cmdDwords copied (m + n) ≤ cmdDwords copied m + cmdDwords copied n := by
  unfold cmdDwords
  split_ifs <;> omega

section Pass

variable (pl : Placement cfg) (copied : Bool)

/-- The number of words of the commands of a range. -/
def commandsDwords (r : PtesRange) (dst : BitVec 64) : ℕ :=
  ((updateCommands pl r.start dst r.last).map fun c => cmdDwords copied c.nptes).sum

/-- The parts of a range that is not empty begin with the one of the first table. -/
theorem updateCommands_of_lt {start last : ℕ} (dst : BitVec 64) (h : start < last) :
    updateCommands pl start dst last =
      Coalesce.collect PtesCursor.join (partCursor pl start dst (start, ptesInTable cfg start last))
        ((tableParts cfg (start + ptesInTable cfg start last) last).map
          (partCursor pl start dst)) := by
  rw [updateCommands, tableParts_eq_cons h, List.map_cons]

theorem commandsDwords_le (r : PtesRange) (dst : BitVec 64) (h : r.start < r.last) :
    commandsDwords pl copied r dst ≤ r.dwords cfg copied := by
  have hparts : r.dwords cfg copied =
      (((tableParts cfg r.start r.last).map (partCursor pl r.start dst)).map
        fun c => cmdDwords copied c.nptes).sum := by
    rw [List.map_map]
    rfl
  rw [commandsDwords, hparts, updateCommands_of_lt pl dst h, tableParts_eq_cons h, List.map_cons]
  refine Coalesce.sum_collect_le (P := fun c => 0 < c.nptes) (fun c x c' hc hx hj => ?_) ?_
  · obtain ⟨rfl, -, -⟩ := PtesCursor.join_cases hj
    exact ⟨Nat.add_pos_left hc _, cmdDwords_add_le copied hc hx⟩
  · rw [← List.map_cons, ← tableParts_eq_cons h]
    intro c hc
    obtain ⟨p, hp, rfl⟩ := List.mem_map.mp hc
    exact (of_mem_tableParts hp).2.1

/-- With gaps between the page tables every part has a command of its own. -/
theorem updateCommands_spaced {gap start last : ℕ} (hgap : 0 < gap) (dst : BitVec 64)
    (h : start < last) :
    updateCommands (.spaced cfg gap) start dst last =
      (tableParts cfg start last).map (partCursor (.spaced cfg gap) start dst) := by
  rw [updateCommands_of_lt _ dst h, tableParts_eq_cons h, List.map_cons]
  refine Coalesce.collect_of_isChain ?_
  rw [← List.map_cons, ← tableParts_eq_cons h]
  refine (List.isChain_map _).mpr ((tableParts_isChain start last).imp_of_mem_imp ?_)
  rintro p q hp hq ⟨hpq, hdvd⟩
  obtain ⟨-, hpos, -, hin⟩ := of_mem_tableParts hp
  -- the part ends with its table
  have hmod : q.1 % cfg.pteCount = 0 := Nat.mod_eq_zero_of_dvd hdvd
  have hsplit := Nat.div_add_mod p.1 cfg.pteCount
  have hend : p.1 % cfg.pteCount + p.2 = cfg.pteCount := by
    have hsum : q.1 = p.1 % cfg.pteCount + p.2 + cfg.pteCount * (p.1 / cfg.pteCount) := by omega
    rw [hsum, Nat.add_mul_mod_self_left] at hmod
    by_contra hne
    rw [Nat.mod_eq_of_lt (by omega)] at hmod
    omega
  have hdiv : q.1 / cfg.pteCount = p.1 / cfg.pteCount + 1 := by
    have hsum : q.1 = cfg.pteCount * (p.1 / cfg.pteCount + 1) := by
      rw [Nat.mul_succ]
      omega
    rw [hsum, Nat.mul_div_cancel_left _ cfg.pteCount_pos]
  refine if_neg fun hjoin => ?_
  have hadj := hjoin.1
  simp only [partCursor, Placement.entry, Placement.spaced, hmod, hdiv, Nat.mul_succ] at hadj
  omega

theorem commandsDwords_spaced {gap : ℕ} (hgap : 0 < gap) (r : PtesRange) (dst : BitVec 64)
    (h : r.start < r.last) :
    commandsDwords (.spaced cfg gap) copied r dst = r.dwords cfg copied := by
  rw [commandsDwords, updateCommands_spaced hgap dst h, List.map_map]
  rfl

/-- None of the ranges that a range is cut into is empty. -/
theorem lt_of_mem_fragRanges {start last : ℕ} {flags : BitVec 32} (h : start < last)
    {r : PtesRange} (hr : r ∈ fragRanges copied start last flags) : r.start < r.last := by
  have hedge : ∀ a b, a ≤ b → ∀ r ∈ edgeRange a b flags, r.start < r.last := by
    intro a b hab r hr
    rw [edgeRange] at hr
    split at hr
    · obtain rfl := List.mem_singleton.mp hr
      exact lt_of_le_of_ne hab ‹_›
    · cases hr
  rw [fragRanges] at hr
  split at hr
  · obtain rfl := List.mem_singleton.mp hr
    exact h
  · rename_i hfrag
    have hlt : (start + 15) / 16 * 16 < last / 16 * 16 := by
      by_contra hcon
      exact hfrag (.inr (.inr (by omega)))
    rcases List.mem_append.mp hr with hr | hr
    · rcases List.mem_append.mp hr with hr | hr
      · exact hedge _ _ (by omega) r hr
      · obtain rfl := List.mem_singleton.mp hr
        exact hlt
    · exact hedge _ _ (by omega) r hr

variable {tables : ℕ → Option PtBo} {shadow : Bool} {start last : ℕ} (flags : BitVec 32)
  (dst : BitVec 64) {emit : PteUpdate → List (BitVec 32)}

/-- The words of a pass are those of the ranges that it is cut into. -/
theorem length_passWords (hemit : ∀ u, (emit u).length = cmdDwords copied u.count)
    (hle : start ≤ last) (hfound : TablesFound cfg tables shadow start last) :
    ∃ us, vmFragPtes pl tables shadow copied start last dst flags = some us ∧
      (us.flatMap emit).length = ((fragRanges copied start last flags).map fun r =>
        commandsDwords pl copied r
          (dst + BitVec.ofNat 64 ((r.start - start) * gpuPageSize))).sum := by
  refine ⟨_, vmFragPtes_eq pl copied dst flags hle hfound, ?_⟩
  rw [List.flatMap_assoc, List.length_flatMap]
  congr 1
  refine List.map_congr_left fun r _ => ?_
  rw [List.length_flatMap, commandsDwords, PtesRange.commands, List.map_map]
  congr 1
  refine List.map_congr_left fun c hc => ?_
  have hcount : (c.issue r.flags).count = c.nptes :=
    Nat.mod_eq_of_lt (nptes_lt_of_mem_updateCommands pl r.start r.last _ c hc)
  simp only [Function.comp, hemit, hcount]

/-- **A pass never takes more words** than with a command for each page table. -/
theorem length_passWords_le (hemit : ∀ u, (emit u).length = cmdDwords copied u.count)
    (hlt : start < last) (hfound : TablesFound cfg tables shadow start last) :
    ∃ us, vmFragPtes pl tables shadow copied start last dst flags = some us ∧
      (us.flatMap emit).length ≤ rangeDwords cfg copied start last flags := by
  obtain ⟨us, hus, hlen⟩ := length_passWords pl copied flags dst hemit hlt.le hfound
  refine ⟨us, hus, hlen.trans_le (List.sum_le_sum fun r hr => ?_)⟩
  exact commandsDwords_le pl copied r _ (lt_of_mem_fragRanges copied hlt hr)

/-- With gaps between the page tables it takes that many. -/
theorem length_passWords_spaced {gap : ℕ} (hgap : 0 < gap)
    (hemit : ∀ u, (emit u).length = cmdDwords copied u.count)
    (hlt : start < last) (hfound : TablesFound cfg tables shadow start last) :
    ∃ us, vmFragPtes (.spaced cfg gap) tables shadow copied start last dst flags = some us ∧
      (us.flatMap emit).length = rangeDwords cfg copied start last flags := by
  obtain ⟨us, hus, hlen⟩ := length_passWords (.spaced cfg gap) copied flags dst hemit hlt.le hfound
  refine ⟨us, hus, hlen.trans (congrArg List.sum (List.map_congr_left fun r hr => ?_))⟩
  exact commandsDwords_spaced copied hgap r _ (lt_of_mem_fragRanges copied hlt hr)

/-- The shadow pass over page tables without shadows. -/
theorem vmFragPtes_noShadow (hlt : start < last) (hnone : ∀ p, start ≤ p → p < last →
      ptLookup tables true (p / cfg.pteCount) = .noShadow) :
    vmFragPtes pl tables true copied start last dst flags = some [] := by
  obtain ⟨us, hus, hnil⟩ := vmFragPtes_parts pl tables last flags true copied dst hlt
    (fun us _ _ => us = []) (fun _ => rfl) (fun us vs _ _ _ hus hvs => by rw [hus, hvs]; rfl)
    fun b e d f _ _ hb hbe he => by
      rw [vmUpdatePtes, hnone b hb (by omega)]
      exact ⟨[], rfl, rfl⟩
  rw [hus, hnil]

end Pass

/-! ## Bounds -/

section Bounds

variable (cfg)

theorem length_tableParts {a b : ℕ} (h : a < b) :
    (tableParts cfg a b).length = (b - 1) / cfg.pteCount + 1 - a / cfg.pteCount := by
  rw [tableParts, if_pos h, List.length_map, List.length_range']

theorem PtesRange.dwords_le (copied : Bool) (r : PtesRange) :
    r.dwords cfg copied ≤ (tableParts cfg r.start r.last).length * cmdDwords copied 3 := by
  rw [dwords]
  refine (List.sum_le_card_nsmul _ (cmdDwords copied 3) fun x hx => ?_).trans (by simp)
  obtain ⟨p, -, rfl⟩ := List.mem_map.mp hx
  unfold cmdDwords
  split_ifs <;> omega

/-- Pages of one group of 16 are in one table. -/
theorem div_pteCount_congr {p q : ℕ} (h : p / 16 = q / 16) :
    p / cfg.pteCount = q / cfg.pteCount := by
  have hN : cfg.pteCount = 16 * 2 ^ (cfg.blockSize - 4) := by
    have h9 := cfg.nine_le_blockSize
    have hpow : 16 * 2 ^ (cfg.blockSize - 4) = 2 ^ (4 + (cfg.blockSize - 4)) := by
      rw [Nat.pow_add]
    rw [hpow, VmConfig.pteCount]
    congr 1
    omega
  rw [hN, ← Nat.div_div_eq_div_mul, ← Nat.div_div_eq_div_mul, h]

/-- How many page tables a range needs. -/
theorem length_tableParts_le {a b : ℕ} (h : a < b) :
    (tableParts cfg a b).length ≤ (b - a - 1) / cfg.pteCount + 2 := by
  have hN := cfg.pteCount_pos
  have hlt : (b - 1) / cfg.pteCount < a / cfg.pteCount + (b - a - 1) / cfg.pteCount + 2 := by
    refine (Nat.div_lt_iff_lt_mul hN).mpr ?_
    have ha := Nat.div_add_mod a cfg.pteCount
    have hc := Nat.div_add_mod (b - a - 1) cfg.pteCount
    have hamod := Nat.mod_lt a hN
    have hcmod := Nat.mod_lt (b - a - 1) hN
    rw [Nat.mul_comm, Nat.mul_add, Nat.mul_add]
    omega
  rw [length_tableParts cfg h]
  generalize (b - 1) / cfg.pteCount = x at *
  generalize a / cfg.pteCount = y at *
  generalize (b - a - 1) / cfg.pteCount = z at *
  omega

/-- The area at either end of a range is in one table. -/
theorem edgeRange_dwords_le (copied : Bool) {a b : ℕ} (flags : BitVec 32) (hab : a ≤ b)
    (h : a < b → a / 16 = (b - 1) / 16) :
    ((edgeRange a b flags).map (PtesRange.dwords cfg copied)).sum ≤ cmdDwords copied 3 := by
  rw [edgeRange]
  by_cases hne : a = b
  · rw [if_neg (not_not.mpr hne)]
    exact Nat.zero_le _
  · have hlt : a < b := lt_of_le_of_ne hab hne
    have hlen : (tableParts cfg a b).length = 1 := by
      rw [length_tableParts cfg hlt, div_pteCount_congr cfg (h hlt)]
      omega
    have hle := PtesRange.dwords_le cfg copied ⟨a, b, flags⟩
    rw [if_pos hne, List.map_singleton, List.sum_singleton]
    simpa only [hlen, Nat.one_mul] using hle

/-- A range has at most two commands more than it needs page tables, and none more if entries are
copied. -/
theorem rangeDwords_le (copied : Bool) {start last : ℕ} (flags : BitVec 32) (h : start < last) :
    rangeDwords cfg copied start last flags ≤
      ((last - start - 1) / cfg.pteCount + if copied then 2 else 4) * cmdDwords copied 3 := by
  rw [rangeDwords, fragRanges]
  split
  · have hle := PtesRange.dwords_le cfg copied ⟨start, last, flags⟩
    rw [List.map_singleton, List.sum_singleton]
    refine hle.trans (Nat.mul_le_mul_right _ ((length_tableParts_le cfg h).trans ?_))
    split <;> omega
  · rename_i hfrag
    have hlt : (start + 15) / 16 * 16 < last / 16 * 16 := by
      by_contra hcon
      exact hfrag (.inr (.inr (by omega)))
    have hset : copied = false := by
      by_contra hcon
      exact hfrag (.inl (by simpa using hcon))
    subst hset
    have hhead := edgeRange_dwords_le cfg false flags
      (show start ≤ (start + 15) / 16 * 16 by omega) (by omega)
    have htail := edgeRange_dwords_le cfg false flags
      (show last / 16 * 16 ≤ last by omega) (by omega)
    have hmono : (last / 16 * 16 - (start + 15) / 16 * 16 - 1) / cfg.pteCount ≤
        (last - start - 1) / cfg.pteCount := Nat.div_le_div_right (by omega)
    have hbody := (PtesRange.dwords_le cfg false
      ⟨(start + 15) / 16 * 16, last / 16 * 16, flags ||| pteFrag⟩).trans (Nat.mul_le_mul_right _
        ((length_tableParts_le cfg hlt).trans (Nat.add_le_add_right hmono 2)))
    have hten : cmdDwords false 3 = 10 := by decide
    simp only [List.map_append, List.sum_append, List.map_singleton, List.sum_singleton]
    rw [hten] at hhead htail hbody ⊢
    rw [if_neg Bool.false_ne_true]
    generalize (last - start - 1) / cfg.pteCount = x at *
    omega

/-- The number of commands that is reserved. -/
def reservedCmds (n : ℕ) : ℕ := n / 2 ^ min cfg.blockSize 11 + 1

/-- The words that are reserved for commands. -/
def ibLimit (copied : Bool) (n : ℕ) : ℕ :=
  if copied then 64 + reservedCmds cfg n * 7 else 84 + reservedCmds cfg n * 10

/-- One pass always fits. -/
theorem rangeDwords_once_le (copied : Bool) {start last : ℕ} (flags : BitVec 32)
    (h : start < last) :
    (rangeDwords cfg copied start last flags + 7) / 8 * 8 ≤ ibLimit cfg copied (last - start) := by
  have hle := rangeDwords_le cfg copied flags h
  have hcmds : (last - start - 1) / cfg.pteCount + 1 ≤ reservedCmds cfg (last - start) := by
    refine Nat.succ_le_succ ((Nat.div_le_div_right (Nat.sub_le _ 1)).trans ?_)
    exact Nat.div_le_div_left (Nat.pow_le_pow_right (by norm_num) (min_le_left _ _))
      (Nat.two_pow_pos _)
  cases copied with
  | true =>
    have hseven : cmdDwords true 3 = 7 := by decide
    rw [hseven, if_pos rfl] at hle
    rw [ibLimit, if_pos rfl]
    omega
  | false =>
    have hten : cmdDwords false 3 = 10 := by decide
    rw [hten, if_neg Bool.false_ne_true] at hle
    rw [ibLimit, if_neg Bool.false_ne_true]
    omega

end Bounds

/-! ## When the buffer is large enough -/

section Fits

variable (dev : VmDevice) (src : Option ℕ) (pagesAddr : Option (ℕ → BitVec 64))
  (flags : BitVec 32) (addr : BitVec 64)

/-- Whether an update copies its entries. -/
def copiesEntries : Bool := src.isSome || pagesAddr.isSome

theorem pteFunc_copied : (pteFunc dev src pagesAddr flags addr).2.1 =
    copiesEntries src pagesAddr := by
  cases src <;> cases pagesAddr <;> rfl

/-- The words fit if and only if they are within what is reserved for commands: the staged entries
come right behind that. -/
theorem fits_iff {nptes : ℕ} (hn : nptes ≤ 0x10000000) (words : List (BitVec 32)) :
    (UpdateIb.mk (updateNdw cfg src pagesAddr nptes) (updateStaged src pagesAddr cfg nptes)
      words).Fits ↔ words.length ≤ ibLimit cfg (copiesEntries src pagesAddr) nptes := by
  have hcmds : reservedCmds cfg nptes ≤ 0x10000001 :=
    Nat.succ_le_succ ((Nat.div_le_self _ _).trans hn)
  cases src with
  | some i =>
    have hndw : updateNdw cfg (some i) pagesAddr nptes = 64 + reservedCmds cfg nptes * 7 :=
      Nat.mod_eq_of_lt (show 64 + reservedCmds cfg nptes * 7 < _ by omega)
    have hlimit : ibLimit cfg (copiesEntries (some i) pagesAddr) nptes =
      64 + reservedCmds cfg nptes * 7 := rfl
    rw [hndw, hlimit]
    exact ⟨fun h => h.within, fun h => ⟨h, fun j hj => by cases hj⟩⟩
  | none =>
    cases pagesAddr with
    | some pa =>
      have hndw : updateNdw cfg none (some pa) nptes =
          64 + reservedCmds cfg nptes * 7 + nptes * 2 :=
        Nat.mod_eq_of_lt (show 64 + reservedCmds cfg nptes * 7 + nptes * 2 < _ by omega)
      have hlimit : ibLimit cfg (copiesEntries none (some pa)) nptes =
        64 + reservedCmds cfg nptes * 7 := rfl
      have hstaged : updateStaged none (some pa) cfg nptes =
          some (64 + reservedCmds cfg nptes * 7) := by
        rw [updateStaged, hndw]
        congr 1
        omega
      rw [hndw, hstaged, hlimit]
      refine ⟨fun h => h.beforeStaged _ rfl, fun h => ⟨h.trans (Nat.le_add_right _ _), ?_⟩⟩
      intro j hj
      obtain rfl := Option.some.inj hj
      exact h
    | none =>
      have hndw : updateNdw cfg none none nptes = 84 + reservedCmds cfg nptes * 10 := by
        have hsum : updateNdw cfg none none nptes =
          (64 + reservedCmds cfg nptes * 10 + 2 * 10) % 0x100000000 := rfl
        rw [hsum]
        omega
      have hlimit : ibLimit cfg (copiesEntries none none) nptes =
        84 + reservedCmds cfg nptes * 10 := rfl
      rw [hndw, hlimit]
      exact ⟨fun h => h.within, fun h => ⟨h, fun j hj => by cases hj⟩⟩

variable {tables : ℕ → Option PtBo} {backup : Bool} {start last : ℕ}

/-- A range of the address space has at most `2 ^ 28` pages. -/
theorem VmConfig.maxPfn_le (cfg : VmConfig) : cfg.maxPfn ≤ 0x10000000 := by
  obtain ⟨k, hk, hvm⟩ := cfg.vmSize_pow
  have hsize : cfg.vmSize ≤ 2 ^ 10 := hvm ▸ Nat.pow_le_pow_right (by norm_num) hk
  have hpfn : cfg.maxPfn = cfg.vmSize * 2 ^ 18 := Nat.shiftLeft_eq _ _
  omega

/-- The buffer with the words of both passes. -/
theorem vmUpdateIb_of_passes (hle : start ≤ last) (hmax : last < cfg.maxPfn)
    (lay : UpdateLayout cfg) {shadowUs us : List PteUpdate}
    (hshadow : vmFragPtes lay.shadowPlace tables true (copiesEntries src pagesAddr) start (last + 1)
      (pteFunc dev src pagesAddr flags addr).2.2 flags = some shadowUs)
    (hus : vmFragPtes lay.place tables false (copiesEntries src pagesAddr) start (last + 1)
      (pteFunc dev src pagesAddr flags addr).2.2 flags = some us) :
    ∃ ib, vmUpdateIb dev tables src pagesAddr start last flags addr lay = some ib ∧
      (ib.Fits ↔
        ((shadowUs.flatMap (emitUpdate src pagesAddr lay (last + 1 - start))).length +
          (us.flatMap (emitUpdate src pagesAddr lay (last + 1 - start))).length + 7) / 8 * 8 ≤
            ibLimit cfg (copiesEntries src pagesAddr) (last + 1 - start)) := by
  have hpfn := cfg.maxPfn_le
  have hn : (last - start + 1) % 0x100000000 = last + 1 - start := by omega
  have hib : vmUpdateIb dev tables src pagesAddr start last flags addr lay =
      some ⟨updateNdw cfg src pagesAddr (last + 1 - start),
        updateStaged src pagesAddr cfg (last + 1 - start), sdmaRingPadIb lay.burstNop
          ((shadowUs ++ us).flatMap (emitUpdate src pagesAddr lay (last + 1 - start)))⟩ := by
    simp only [vmUpdateIb, pteFunc_copied, hshadow, hus, hn, Option.bind_eq_bind, Option.bind_some]
  refine ⟨_, hib, ?_⟩
  rw [fits_iff src pagesAddr (by omega), length_sdmaRingPadIb, List.flatMap_append,
    List.length_append]

/-- **When the buffer is large enough** for every layout of the page tables: always without shadows,
and with shadows if and only if twice the words of a pass fit in which each page table has commands
of its own.

**Proof sketch.** Coalescing does not make a pass longer, and a single pass of this kind fits. With
gaps between the page tables nothing is coalesced, so that the bound is reached. -/
theorem vmUpdateIb_fits_iff (hle : start ≤ last) (hmax : last < cfg.maxPfn)
    (htables : ∀ p, start ≤ p → p ≤ last → tables (p / cfg.pteCount) = some ⟨backup⟩) :
    (∀ lay : UpdateLayout cfg,
        ∃ ib, vmUpdateIb dev tables src pagesAddr start last flags addr lay = some ib ∧ ib.Fits) ↔
      (backup = true →
        (2 * rangeDwords cfg (copiesEntries src pagesAddr) start (last + 1) flags + 7) / 8 * 8 ≤
          ibLimit cfg (copiesEntries src pagesAddr) (last + 1 - start)) := by
  have hlt : start < last + 1 := by omega
  have hemit : ∀ (lay : UpdateLayout cfg) u,
      (emitUpdate src pagesAddr lay (last + 1 - start) u).length =
        cmdDwords (copiesEntries src pagesAddr) u.count := by
    intro lay u
    rw [length_emitUpdate dev src pagesAddr flags addr, pteFunc_copied]
  have hlookup : ∀ shadow p, start ≤ p → p < last + 1 →
      ptLookup tables shadow (p / cfg.pteCount) =
        if shadow && !backup then .noShadow else .found := by
    intro shadow p h1 h2
    rw [ptLookup, htables p h1 (by omega)]
  have hfound : TablesFound cfg tables false start (last + 1) := by
    intro p hp
    rw [hlookup false p (by omega) (by omega)]
    rfl
  cases hb : backup with
  | false =>
    simp only [Bool.false_eq_true, false_implies, iff_true]
    intro lay
    have hshadow := vmFragPtes_noShadow lay.shadowPlace (copiesEntries src pagesAddr) flags
      (pteFunc dev src pagesAddr flags addr).2.2 hlt fun p h1 h2 => by
        rw [hlookup true p h1 h2, hb]
        rfl
    obtain ⟨us, hus, hlen⟩ := length_passWords_le lay.place _ flags
      (pteFunc dev src pagesAddr flags addr).2.2 (hemit lay) hlt hfound
    obtain ⟨ib, hib, hfits⟩ :=
      vmUpdateIb_of_passes dev src pagesAddr flags addr hle hmax lay hshadow hus
    refine ⟨ib, hib, hfits.mpr ?_⟩
    have honce := rangeDwords_once_le cfg (copiesEntries src pagesAddr) flags hlt
    rw [List.flatMap_nil, List.length_nil]
    omega
  | true =>
    have hfound' : TablesFound cfg tables true start (last + 1) := by
      intro p hp
      rw [hlookup true p (by omega) (by omega), hb]
      rfl
    simp only [true_implies]
    constructor
    · intro hall
      -- gaps between the page tables
      let lay : UpdateLayout cfg := ⟨.spaced cfg 8, .spaced cfg 8, 0, 0, false⟩
      obtain ⟨shadowUs, hshadow, hlen'⟩ := length_passWords_spaced _ flags
        (pteFunc dev src pagesAddr flags addr).2.2 (by decide : 0 < 8) (hemit lay) hlt hfound'
      obtain ⟨us, hus, hlen⟩ := length_passWords_spaced _ flags
        (pteFunc dev src pagesAddr flags addr).2.2 (by decide : 0 < 8) (hemit lay) hlt hfound
      obtain ⟨ib, hib, hfits⟩ :=
        vmUpdateIb_of_passes dev src pagesAddr flags addr hle hmax lay hshadow hus
      obtain ⟨ib', hib', hfits'⟩ := hall lay
      obtain rfl := Option.some.inj (hib.symm.trans hib')
      have hwords := hfits.mp hfits'
      rw [hlen, hlen', ← Nat.two_mul] at hwords
      exact hwords
    · intro hfit lay
      obtain ⟨shadowUs, hshadow, hlen'⟩ := length_passWords_le lay.shadowPlace _ flags
        (pteFunc dev src pagesAddr flags addr).2.2 (hemit lay) hlt hfound'
      obtain ⟨us, hus, hlen⟩ := length_passWords_le lay.place _ flags
        (pteFunc dev src pagesAddr flags addr).2.2 (hemit lay) hlt hfound
      obtain ⟨ib, hib, hfits⟩ :=
        vmUpdateIb_of_passes dev src pagesAddr flags addr hle hmax lay hshadow hus
      refine ⟨ib, hib, hfits.mpr ?_⟩
      omega

end Fits

/-- A device; what its tables hold does not matter for the size. -/
def anyDevice : VmDevice := ⟨fun _ => .zero, 0, fun _ => 0, true⟩

/-- Page tables with gaps between them. -/
def gapLayout : UpdateLayout (checkArguments 8 9) :=
  ⟨.spaced (checkArguments 8 9) 4096, .spaced (checkArguments 8 9) 4096, 0x400000, 0x800000, false⟩

/-- Four page tables with shadows fit. -/
theorem vmUpdateIb_fits_fourTables :
    ∃ ib, vmUpdateIb anyDevice (fun _ => some ⟨true⟩) (some 0) none 0 2047 pteValid 0 gapLayout =
      some ib ∧ ib.Fits :=
  (vmUpdateIb_fits_iff anyDevice (some 0) none pteValid 0 (by decide) (by decide)
    fun _ _ _ => rfl).mpr (fun _ => by decide +kernel) gapLayout

/-- **Ten page tables of 512 entries with shadows are too much**: 140 words are emitted for the
entries of a buffer object in system memory, padded to 144, and 141 are allocated. -/
theorem vmUpdateIb_overflow :
    ∃ ib, vmUpdateIb anyDevice (fun _ => some ⟨true⟩) (some 0) none 0 5119 pteValid 0 gapLayout =
        some ib ∧ ib.ndw = 141 ∧ ib.words.length = 144 ∧ ¬ib.Fits := by
  have hsize : ((vmUpdateIb anyDevice (fun _ => some ⟨true⟩) (some 0) none 0 5119 pteValid 0
      gapLayout).map fun ib => (ib.ndw, ib.words.length)) = some (141, 144) := by decide +kernel
  obtain ⟨ib, hib, hpair⟩ := Option.map_eq_some_iff.mp hsize
  obtain ⟨hndw, hwords⟩ := Prod.mk.inj hpair
  refine ⟨ib, hib, hndw, hwords, fun h => ?_⟩
  have := h.within
  omega

end Amdgpu
