import AmdgpuPro.Lib.Coalesce
import AmdgpuPro.Vm.PageTableSpec
import Mathlib.Data.List.Nodup

set_option autoImplicit false

/-!
# The commands of a page table update

`amdgpu_vm_update_ptes` cuts a range into the parts that the page tables have of it, and coalesces
the parts of tables that are adjacent in memory. Here the commands are described in these terms: as
the list of the parts, coalesced. This gives the number of commands and the entries that they write,
one by one.

## Main definitions

* `Amdgpu.tableParts` — the parts of a range, table by table.
* `PteUpdate.entries` — the entries that a command writes.
* `UpdatesExactly` — commands that write the entries of a range, each once.
* `InFragment` — pages that may have fragment bits.

## Main results

* `Amdgpu.vmUpdatePtes_eq` — the commands of `amdgpu_vm_update_ptes` are the coalesced parts.
* `vmUpdatePtes_exact_iff` — the update is exact, with commands of bounded size, if and only if no
  page table has more pages of the range than a command may have.
* `vmUpdatePtes_not_exact` — a page table of `2 ^ 20` entries is too large.
* `vmFragPtes_refines` — `amdgpu_vm_frag_ptes` writes the same entries, up to fragment bits that are
  right.
-/

namespace Amdgpu

open Coalesce

variable {cfg : VmConfig}

/-! ## The parts of a range -/

/-- How many pages of `[a, b)` table number `i` has. -/
def pagesInTable (cfg : VmConfig) (a b i : ℕ) : ℕ :=
  min b ((i + 1) * cfg.pteCount) - max a (i * cfg.pteCount)

/-- The parts that the page tables have of `[a, b)`, each with its first page and its length. -/
def tableParts (cfg : VmConfig) (a b : ℕ) : List (ℕ × ℕ) :=
  if a < b then
    (List.range' (a / cfg.pteCount) ((b - 1) / cfg.pteCount + 1 - a / cfg.pteCount)).map fun i =>
      (max a (i * cfg.pteCount), pagesInTable cfg a b i)
  else []

theorem tableParts_of_le {a b : ℕ} (h : b ≤ a) : tableParts cfg a b = [] :=
  if_neg (by omega)

/-- The part of the first table is what the driver computes. -/
theorem pagesInTable_div {a b : ℕ} (h : a < b) :
    pagesInTable cfg a b (a / cfg.pteCount) = ptesInTable cfg a b := by
  have hN := cfg.pteCount_pos
  have hsmall := cfg.pteCount_lt
  have ha := Nat.div_add_mod a cfg.pteCount
  have hb := Nat.div_add_mod b cfg.pteCount
  have hamod := Nat.mod_lt a hN
  have hbmod := Nat.mod_lt b hN
  rw [pagesInTable, ptesInTable, Nat.succ_mul, Nat.mul_comm (a / cfg.pteCount)]
  split_ifs with ht
  · rw [ht] at ha
    rw [Nat.mod_eq_of_lt (by omega), ht]
    omega
  · have hlt : a / cfg.pteCount < b / cfg.pteCount :=
      lt_of_le_of_ne (Nat.div_le_div_right h.le) ht
    have hstep : cfg.pteCount * (a / cfg.pteCount) + cfg.pteCount
        ≤ cfg.pteCount * (b / cfg.pteCount) := by
      rw [← Nat.mul_succ]; exact Nat.mul_le_mul_left _ hlt
    rw [Nat.mod_eq_of_lt (by omega)]
    omega

/-- **The parts, one after the other**, as the loop of the driver finds them. -/
theorem tableParts_eq_cons {a b : ℕ} (h : a < b) :
    tableParts cfg a b =
      (a, ptesInTable cfg a b) :: tableParts cfg (a + ptesInTable cfg a b) b := by
  have hN := cfg.pteCount_pos
  have ha := Nat.div_add_mod a cfg.pteCount
  have hle : a / cfg.pteCount ≤ (b - 1) / cfg.pteCount := Nat.div_le_div_right (by omega)
  obtain ⟨hpos, hend, hin⟩ := ptesInTable_spec cfg h
  have hfirst : max a (a / cfg.pteCount * cfg.pteCount) = a :=
    max_eq_left (Nat.div_mul_le_self a _)
  obtain ⟨t, ht⟩ : ∃ t, (b - 1) / cfg.pteCount + 1 - a / cfg.pteCount = t + 1 :=
    ⟨(b - 1) / cfg.pteCount - a / cfg.pteCount, by omega⟩
  conv_lhs => rw [tableParts, if_pos h, ht, List.range'_succ, List.map_cons, hfirst,
    pagesInTable_div h]
  congr 1
  rcases Nat.lt_or_ge (a + ptesInTable cfg a b) b with hlt | hge
  · -- the next table
    have hnext := ptesInTable_of_lt cfg hlt
    have hdiv : (a + ptesInTable cfg a b) / cfg.pteCount = a / cfg.pteCount + 1 := by
      rw [hnext]
      exact add_sub_mod_div a
    have hmul : a + ptesInTable cfg a b = (a / cfg.pteCount + 1) * cfg.pteCount := by
      rw [hnext, Nat.succ_mul, Nat.mul_comm]
      have := Nat.mod_lt a hN
      omega
    rw [tableParts, if_pos hlt, hdiv]
    have hcount : (b - 1) / cfg.pteCount + 1 - (a / cfg.pteCount + 1) = t := by omega
    rw [hcount]
    refine List.map_congr_left fun i hi => ?_
    have hile : a / cfg.pteCount + 1 ≤ i := (List.mem_range'_1.mp hi).1
    have hmono := Nat.mul_le_mul_right cfg.pteCount hile
    rw [pagesInTable, pagesInTable, max_eq_right (by omega), max_eq_right (by omega)]
  · have hlast : (b - 1) / cfg.pteCount < a / cfg.pteCount + 1 := by
      refine (Nat.div_lt_iff_lt_mul hN).mpr ?_
      rw [Nat.succ_mul, Nat.mul_comm]
      omega
    have hzero : t = 0 := by omega
    rw [hzero, tableParts_of_le hge]
    rfl

/-- What holds of all parts by the steps of the driver. -/
theorem tableParts_induction {b : ℕ} {Q : ℕ → List (ℕ × ℕ) → Prop} (hnil : ∀ a, b ≤ a → Q a [])
    (hcons : ∀ a, a < b → Q (a + ptesInTable cfg a b) (tableParts cfg (a + ptesInTable cfg a b) b) →
      Q a ((a, ptesInTable cfg a b) :: tableParts cfg (a + ptesInTable cfg a b) b)) (a : ℕ) :
    Q a (tableParts cfg a b) := by
  induction hd : b - a using Nat.strong_induction_on generalizing a with
  | _ d ih =>
    rcases Nat.lt_or_ge a b with hlt | hge
    · obtain ⟨hpos, hend, -⟩ := ptesInTable_spec cfg hlt
      rw [tableParts_eq_cons hlt]
      exact hcons a hlt (ih _ (by omega) _ rfl)
    · rw [tableParts_of_le hge]
      exact hnil a hge

/-- A part is not empty and lies in the range and in one table. -/
theorem of_mem_tableParts {a b : ℕ} {p : ℕ × ℕ} (hp : p ∈ tableParts cfg a b) :
    a ≤ p.1 ∧ 0 < p.2 ∧ p.1 + p.2 ≤ b ∧ p.1 % cfg.pteCount + p.2 ≤ cfg.pteCount := by
  revert p
  refine @tableParts_induction cfg b (fun a l => ∀ p ∈ l, a ≤ p.1 ∧ 0 < p.2 ∧ p.1 + p.2 ≤ b ∧
    p.1 % cfg.pteCount + p.2 ≤ cfg.pteCount) (fun a _ p hp => by cases hp) ?_ a
  intro a hlt ih p hp
  obtain ⟨hpos, hend, hin⟩ := ptesInTable_spec cfg hlt
  rcases List.mem_cons.mp hp with rfl | hp
  · exact ⟨le_rfl, hpos, hend, hin⟩
  · obtain ⟨h1, h2, h3, h4⟩ := ih p hp
    exact ⟨by omega, h2, h3, h4⟩

/-- The parts follow one another, and all but the first begin with their table. -/
theorem tableParts_isChain (a b : ℕ) :
    List.IsChain (fun p q : ℕ × ℕ => q.1 = p.1 + p.2 ∧ cfg.pteCount ∣ q.1)
      (tableParts cfg a b) := by
  refine @tableParts_induction cfg b (fun _ l => List.IsChain (fun p q : ℕ × ℕ =>
    q.1 = p.1 + p.2 ∧ cfg.pteCount ∣ q.1) l) (fun _ _ => .nil) ?_ a
  intro a hlt ih
  rcases Nat.lt_or_ge (a + ptesInTable cfg a b) b with hmore | hge
  · rw [tableParts_eq_cons hmore] at ih ⊢
    refine List.isChain_cons_cons.mpr ⟨⟨rfl, a / cfg.pteCount + 1, ?_⟩, ih⟩
    have hsplit := Nat.div_add_mod a cfg.pteCount
    have hmod := Nat.mod_lt a cfg.pteCount_pos
    rw [ptesInTable_of_lt cfg hmore, Nat.mul_succ]
    omega
  · rw [tableParts_of_le hge]
    exact .singleton _

/-- The parts make up the range. -/
theorem flatMap_tableParts (a b : ℕ) :
    (tableParts cfg a b).flatMap (fun p => List.range' p.1 p.2) = List.range' a (b - a) := by
  refine @tableParts_induction cfg b
    (fun a l => l.flatMap (fun p => List.range' p.1 p.2) = List.range' a (b - a)) ?_ ?_ a
  · intro a h
    rw [Nat.sub_eq_zero_of_le h]
    rfl
  · intro a hlt ih
    obtain ⟨hpos, hend, -⟩ := ptesInTable_spec cfg hlt
    rw [List.flatMap_cons, ih, List.range'_append_1]
    congr 1
    omega

theorem exists_of_mem_tableParts {a b : ℕ} {p : ℕ × ℕ} (hp : p ∈ tableParts cfg a b) :
    ∃ i, pagesInTable cfg a b i = p.2 := by
  rw [tableParts] at hp
  split_ifs at hp
  · obtain ⟨i, -, rfl⟩ := List.mem_map.mp hp
    exact ⟨i, rfl⟩
  · cases hp

/-- A table with pages of the range has a part of it. -/
theorem mem_tableParts {a b i : ℕ} (h : 0 < pagesInTable cfg a b i) :
    (max a (i * cfg.pteCount), pagesInTable cfg a b i) ∈ tableParts cfg a b := by
  have hN := cfg.pteCount_pos
  rw [pagesInTable] at h
  have hab : a < b := by omega
  rw [tableParts, if_pos hab]
  refine List.mem_map.mpr ⟨i, List.mem_range'_1.mpr ⟨?_, ?_⟩, rfl⟩
  · have : a < (i + 1) * cfg.pteCount := by omega
    exact Nat.lt_succ_iff.mp ((Nat.div_lt_iff_lt_mul hN).mpr this)
  · have hi : i ≤ (b - 1) / cfg.pteCount := (Nat.le_div_iff_mul_le hN).mpr (by omega)
    have ha : a / cfg.pteCount ≤ (b - 1) / cfg.pteCount := Nat.div_le_div_right (by omega)
    omega

/-- Page tables in their order, with gaps between them. -/
def Placement.spaced (cfg : VmConfig) (gap : ℕ) : Placement cfg where
  addr i := (8 * cfg.pteCount + gap) * i
  disjoint i j hij := by
    have hnext : ∀ k l, k < l →
        (8 * cfg.pteCount + gap) * k + 8 * cfg.pteCount ≤ (8 * cfg.pteCount + gap) * l := by
      intro k l hkl
      have := Nat.mul_le_mul_left (8 * cfg.pteCount + gap) hkl
      rw [Nat.mul_succ] at this
      omega
    rcases Nat.lt_or_gt_of_ne hij with h | h
    · exact .inl (hnext i j h)
    · exact .inr (hnext j i h)

/-! ## The commands are the coalesced parts -/

section Commands

variable (pl : Placement cfg) (start : ℕ) (dst : BitVec 64)

/-- A command for the part of a table is joined to the pending one, if it follows that in memory and
both together are not too many. -/
def PtesCursor.join (c x : PtesCursor) : Option PtesCursor :=
  if c.peStart + 8 * c.nptes = x.peStart ∧ c.nptes + x.nptes ≤ vmMaxUpdateSize then
    some { c with nptes := c.nptes + x.nptes }
  else none

/-- What joining gives: the first command with the entries of both. -/
theorem PtesCursor.join_cases {c x c' : PtesCursor} (h : c.join x = some c') :
    c' = { c with nptes := c.nptes + x.nptes } ∧ c.peStart + 8 * c.nptes = x.peStart ∧
      c.nptes + x.nptes ≤ vmMaxUpdateSize := by
  rw [PtesCursor.join] at h
  split_ifs at h with hc
  exact ⟨(Option.some.inj h).symm, hc⟩

/-- The command for a part. -/
def partCursor (p : ℕ × ℕ) : PtesCursor := ⟨pl.entry p.1, p.2, walkDst cfg start dst p.1⟩

/-- The commands for a range before they are issued. The command for an empty range has no
entries. -/
def updateCommands (last : ℕ) : List PtesCursor :=
  match (tableParts cfg start last).map (partCursor pl start dst) with
  | [] => [⟨pl.entry start, 0, dst⟩]
  | c :: cs => collect PtesCursor.join c cs

/-- The table of each page of a range is found; an empty range has one for its start. -/
def TablesFound (cfg : VmConfig) (tables : ℕ → Option PtBo) (shadow : Bool) (start last : ℕ) :
    Prop :=
  ∀ p, p = start ∨ start ≤ p ∧ p < last → ptLookup tables shadow (p / cfg.pteCount) = .found

variable {tables : ℕ → Option PtBo} {shadow : Bool} {last : ℕ} (flags : BitVec 32)

/-- The walk from page `addr` on issues the pending command and the parts of the rest, coalesced.

**Proof sketch.** Induction on the fuel: one iteration of the loop takes the first part of the
rest. -/
theorem updatePtesLoop_eq (fuel : ℕ) :
    ∀ (addr : ℕ) (d : BitVec 64) (cur : PtesCursor), last - addr ≤ fuel → addr ≤ last →
      start ≤ addr → (addr < last → cfg.pteCount ∣ addr ∧ d = walkDst cfg start dst addr) →
      (∀ p, addr ≤ p → p < last → ptLookup tables shadow (p / cfg.pteCount) = .found) →
      updatePtesLoop pl tables shadow last flags fuel addr d cur =
        some ((collect PtesCursor.join cur
          ((tableParts cfg addr last).map (partCursor pl start dst))).map (·.issue flags)) := by
  induction fuel with
  | zero =>
    intro addr d cur hfuel hle _ _ _
    rw [tableParts_of_le (by omega), updatePtesLoop]
    rfl
  | succ fuel ih =>
    intro addr d cur hfuel hle hstart haddr hfound
    rw [updatePtesLoop]
    split_ifs with hlt
    · obtain ⟨hpos, hend, -⟩ := ptesInTable_spec cfg hlt
      obtain ⟨hdvd, rfl⟩ := haddr hlt
      obtain ⟨-, hmore⟩ := walkDst_table (d := dst) hstart hlt (.inr hdvd)
      have hrec := fun cur => ih (addr + ptesInTable cfg addr last)
        (advanceDst (walkDst cfg start dst addr) (ptesInTable cfg addr last)) cur (by omega) hend
        (by omega) hmore (fun p h1 h2 => hfound p (by omega) h2)
      rw [hfound addr le_rfl hlt, tableParts_eq_cons hlt, List.map_cons]
      dsimp only
      split_ifs with hjoin
      · have hsome : cur.join (partCursor pl start dst (addr, ptesInTable cfg addr last)) =
            some { cur with nptes := cur.nptes + ptesInTable cfg addr last } := if_pos hjoin
        rw [hrec, collect_cons_of_some hsome]
      · have hnone : cur.join (partCursor pl start dst (addr, ptesInTable cfg addr last)) = none :=
          if_neg hjoin
        rw [hrec, collect_cons_of_none hnone]
        rfl
    · rw [tableParts_of_le (by omega)]
      rfl

/-- **The commands of `amdgpu_vm_update_ptes`** are the coalesced parts of the range. -/
theorem vmUpdatePtes_eq (hle : start ≤ last) (hfound : TablesFound cfg tables shadow start last) :
    vmUpdatePtes pl tables shadow start last dst flags =
      some ((updateCommands pl start dst last).map (·.issue flags)) := by
  rw [vmUpdatePtes, hfound start (.inl rfl), updateCommands]
  rcases Nat.lt_or_ge start last with hlt | hge
  · obtain ⟨hpos, hend, -⟩ := ptesInTable_spec cfg hlt
    obtain ⟨-, hmore⟩ := walkDst_table (d := dst) le_rfl hlt (.inl rfl)
    rw [walkDst_start] at hmore
    rw [tableParts_eq_cons hlt, List.map_cons]
    dsimp only
    rw [updatePtesLoop_eq pl start dst flags _ _ _ _ (by omega) hend (by omega) hmore
      (fun p h1 h2 => hfound p (.inr ⟨by omega, h2⟩)), partCursor, walkDst_start]
  · obtain rfl : start = last := by omega
    rw [tableParts_of_le le_rfl, Nat.sub_self]
    have hzero : ptesInTable cfg start start = 0 := by
      rw [ptesInTable, if_pos rfl, Nat.sub_self, Nat.zero_mod]
    dsimp only
    rw [hzero]
    rfl

end Commands

/-! ## The entries that are written -/

/-- The entries that a command writes, each with its address. -/
def PteUpdate.entries (u : PteUpdate) : List (ℕ × Pte) :=
  (List.range u.count).map fun k => (u.pe + 8 * k, PteFunc.set.value u k)

/-- The entry of page `p` of a range with destinations that follow one another. -/
def linearPte (start : ℕ) (dst : BitVec 64) (flags : BitVec 32) (p : ℕ) : Pte :=
  ⟨dst + BitVec.ofNat 64 ((p - start) * gpuPageSize), flags⟩

/-- The commands write the entries of the pages `[start, last)` in their order, each once. -/
def WritesEach (pl : Placement cfg) (us : List PteUpdate) (start last : ℕ) (pte : ℕ → Pte) : Prop :=
  us.flatMap PteUpdate.entries =
    (List.range' start (last - start)).map fun p => (pl.entry p, pte p)

/-- **The commands write exactly the entries of the range**, each once, with destinations that
follow one another, and none of them is too large. -/
structure UpdatesExactly (pl : Placement cfg) (us : List PteUpdate) (start last : ℕ)
    (dst : BitVec 64) (flags : BitVec 32) : Prop where
  each : WritesEach pl us start last (linearPte start dst flags)
  once : ((us.flatMap PteUpdate.entries).map Prod.fst).Nodup
  small : ∀ u ∈ us, u.count ≤ vmMaxUpdateSize

/-- The entries of different pages are at different addresses. -/
theorem Placement.entry_injective (pl : Placement cfg) : Function.Injective pl.entry := by
  intro p q h
  exact pl.eq_of_entry_close h.le (by omega)

/-- No address is written twice. -/
theorem WritesEach.nodup {pl : Placement cfg} {us : List PteUpdate} {start last : ℕ}
    {pte : ℕ → Pte} (h : WritesEach pl us start last pte) :
    ((us.flatMap PteUpdate.entries).map Prod.fst).Nodup := by
  rw [h, List.map_map]
  exact List.Nodup.map pl.entry_injective List.nodup_range'

section Entries

variable (pl : Placement cfg) (start last : ℕ) (dst : BitVec 64) (flags : BitVec 32)

/-- The entries of a command before it is issued. -/
private def cursorEntries (c : PtesCursor) : List (ℕ × Pte) :=
  (List.range c.nptes).map fun k =>
    (c.peStart + 8 * k, ⟨c.dst + BitVec.ofNat 64 (k * gpuPageSize), flags⟩)

private theorem issue_entries {c : PtesCursor} (h : c.nptes < 2 ^ 32) :
    (c.issue flags).entries = cursorEntries flags c := by
  have hcount : (c.issue flags).count = c.nptes := Nat.mod_eq_of_lt h
  rw [PteUpdate.entries, hcount]
  rfl

/-- Joined commands write the entries of both. -/
private theorem cursorEntries_join {c x c' : PtesCursor}
    (hdst : x.dst = c.dst + BitVec.ofNat 64 (c.nptes * gpuPageSize)) (h : c.join x = some c') :
    cursorEntries flags c' = cursorEntries flags c ++ cursorEntries flags x := by
  obtain ⟨rfl, hpe, -⟩ := PtesCursor.join_cases h
  simp only [cursorEntries, List.range_add, List.map_append, List.map_map]
  congr 1
  refine List.map_congr_left fun k _ => ?_
  have haddr : c.peStart + 8 * (c.nptes + k) = x.peStart + 8 * k := by omega
  simp only [Function.comp, haddr, hdst, Nat.add_mul, BitVec.ofNat_add, BitVec.add_assoc]

/-- What holds of the commands for the parts and is kept by joining holds of all commands. -/
theorem forall_mem_updateCommands {P : PtesCursor → Prop} (hempty : P ⟨pl.entry start, 0, dst⟩)
    (hpart : ∀ p ∈ tableParts cfg start last, P (partCursor pl start dst p))
    (hjoin : ∀ c x c', P c → P x → PtesCursor.join c x = some c' → P c') :
    ∀ c ∈ updateCommands pl start dst last, P c := by
  have hparts : ∀ c ∈ (tableParts cfg start last).map (partCursor pl start dst), P c := by
    intro c hc
    obtain ⟨p, hp, rfl⟩ := List.mem_map.mp hc
    exact hpart p hp
  rw [updateCommands]
  cases hl : (tableParts cfg start last).map (partCursor pl start dst) with
  | nil => exact fun c hc => List.mem_singleton.mp hc ▸ hempty
  | cons c cs =>
    rw [hl] at hparts
    exact forall_mem_collect hjoin hparts

/-- The number of entries of a command fits in 32 bits. -/
theorem nptes_lt_of_mem_updateCommands :
    ∀ c ∈ updateCommands pl start dst last, c.nptes < 2 ^ 32 := by
  have hN := cfg.pteCount_le
  refine forall_mem_updateCommands pl start last dst (by simp) (fun p hp => ?_)
    fun c x c' _ _ hj => ?_
  · obtain ⟨-, -, -, hin⟩ := of_mem_tableParts hp
    simp only [partCursor]
    omega
  · obtain ⟨rfl, -, hmax⟩ := PtesCursor.join_cases hj
    exact hmax.trans_lt (by decide)

/-- The part of a table is in a command that has at least as many entries. -/
theorem exists_le_of_mem_tableParts {p : ℕ × ℕ} (hp : p ∈ tableParts cfg start last) :
    ∃ c ∈ updateCommands pl start dst last, p.2 ≤ c.nptes := by
  have hmem : partCursor pl start dst p ∈
      (tableParts cfg start last).map (partCursor pl start dst) := List.mem_map_of_mem hp
  rw [updateCommands]
  cases hl : (tableParts cfg start last).map (partCursor pl start dst) with
  | nil =>
    rw [hl] at hmem
    cases hmem
  | cons c cs =>
    rw [hl] at hmem
    refine @exists_le_of_mem _ PtesCursor.join c cs PtesCursor.nptes (fun c x c' hj => ?_) _ hmem
    obtain ⟨rfl, -, -⟩ := PtesCursor.join_cases hj
    exact ⟨Nat.le_add_right _ _, Nat.le_add_left _ _⟩

/-- **The entries of the commands** are those of the range, if no page comes after a whole table of
`2 ^ 20` entries. -/
theorem updateCommands_writesEach (h : NoWholeTable cfg start last) :
    WritesEach pl ((updateCommands pl start dst last).map (·.issue flags)) start last
      (linearPte start dst flags) := by
  have hdst : ∀ p ∈ tableParts cfg start last, walkDst cfg start dst p.1 =
      dst + BitVec.ofNat 64 ((p.1 - start) * gpuPageSize) := by
    intro p hp
    obtain ⟨-, hpos, hend, -⟩ := of_mem_tableParts hp
    exact walkDst_eq h (by omega)
  -- the part of a table
  have hpart : ∀ p ∈ tableParts cfg start last, cursorEntries flags (partCursor pl start dst p) =
      (List.range' p.1 p.2).map fun q => (pl.entry q, linearPte start dst flags q) := by
    intro p hp
    obtain ⟨hle, -, -, hin⟩ := of_mem_tableParts hp
    have hspan := pl.spans_in_table hin
    rw [cursorEntries, partCursor, hdst p hp, List.range'_eq_map_range, List.map_map]
    refine List.map_congr_left fun k hk => ?_
    have hsum : (p.1 + k - start) * gpuPageSize =
        (p.1 - start) * gpuPageSize + k * gpuPageSize := by
      rw [← Nat.add_mul]
      congr 1
      omega
    simp only [Function.comp, linearPte, hspan k (List.mem_range.mp hk), hsum, BitVec.ofNat_add,
      BitVec.add_assoc]
  have hissue : ((updateCommands pl start dst last).map (·.issue flags)).flatMap
      PteUpdate.entries = (updateCommands pl start dst last).flatMap (cursorEntries flags) := by
    rw [List.flatMap_map]
    exact List.flatMap_congr fun c hc =>
      issue_entries flags (nptes_lt_of_mem_updateCommands pl start last dst c hc)
  have hall : ((tableParts cfg start last).map (partCursor pl start dst)).flatMap
      (cursorEntries flags) = (List.range' start (last - start)).map fun q =>
        (pl.entry q, linearPte start dst flags q) := by
    rw [List.flatMap_map, List.flatMap_congr hpart, ← List.map_flatMap, flatMap_tableParts]
  rw [WritesEach, hissue, ← hall, updateCommands]
  -- parts follow one another, also in their destinations
  have hchain : List.IsChain (fun c x : PtesCursor =>
      x.dst = c.dst + BitVec.ofNat 64 (c.nptes * gpuPageSize))
        ((tableParts cfg start last).map (partCursor pl start dst)) := by
    refine (List.isChain_map _).mpr ((tableParts_isChain start last).imp_of_mem_imp ?_)
    rintro p q hp hq ⟨hpq, -⟩
    obtain ⟨hle, -, -, -⟩ := of_mem_tableParts hp
    have hsum : (q.1 - start) * gpuPageSize = (p.1 - start) * gpuPageSize + p.2 * gpuPageSize := by
      rw [← Nat.add_mul]
      congr 1
      omega
    simp only [partCursor]
    rw [hdst p hp, hdst q hq, hsum, BitVec.ofNat_add, BitVec.add_assoc]
  cases hl : (tableParts cfg start last).map (partCursor pl start dst) with
  | nil => rfl
  | cons c cs =>
    rw [hl] at hchain
    refine flatMap_collect (fun c x c' hR hj => cursorEntries_join flags hR hj) ?_ hchain
    intro c x c' y hcx hj hxy
    obtain ⟨rfl, -, -⟩ := PtesCursor.join_cases hj
    rw [hxy, hcx, Nat.add_mul, BitVec.ofNat_add, BitVec.add_assoc]

end Entries

/-! ## Exact updates -/

section Exact

variable (pl : Placement cfg) {tables : ℕ → Option PtBo} {shadow : Bool} {start last : ℕ}

/-- A range that has at most `0x3FFFF` pages in each table has no page after a whole table of
`2 ^ 20` entries. -/
theorem noWholeTable_of_pagesInTable_le
    (h : ∀ i, pagesInTable cfg start last i ≤ vmMaxUpdateSize) : NoWholeTable cfg start last := by
  intro hfull j hj
  have hpages := h j
  rw [pagesInTable, hfull, max_eq_right hj, vmMaxUpdateSize] at hpages
  omega

/-- **An update is exact, with commands that are not too large,** if and only if no page table has
more pages of the range than a command may have.

**Proof sketch.** Joining respects the limit, so that a command is too large only if the part of a
table is. A range without such a part has no whole table of `2 ^ 20` entries, and then the
destinations are right. -/
theorem vmUpdatePtes_exact_iff (dst : BitVec 64) (flags : BitVec 32) (hle : start ≤ last)
    (hfound : TablesFound cfg tables shadow start last) :
    (∃ us, vmUpdatePtes pl tables shadow start last dst flags = some us ∧
        UpdatesExactly pl us start last dst flags) ↔
      ∀ i, pagesInTable cfg start last i ≤ vmMaxUpdateSize := by
  rw [vmUpdatePtes_eq pl start dst flags hle hfound]
  constructor
  · rintro ⟨us, hus, hexact⟩ i
    obtain rfl := Option.some.inj hus
    rcases Nat.eq_zero_or_pos (pagesInTable cfg start last i) with hzero | hpos
    · rw [hzero]
      exact Nat.zero_le _
    · obtain ⟨c, hc, hsize⟩ := exists_le_of_mem_tableParts pl start last dst (mem_tableParts hpos)
      have hcount : (c.issue flags).count = c.nptes :=
        Nat.mod_eq_of_lt (nptes_lt_of_mem_updateCommands pl start last dst c hc)
      have hmax := hexact.small _ (List.mem_map_of_mem hc)
      rw [hcount] at hmax
      exact hsize.trans hmax
  · intro hpages
    have heach := updateCommands_writesEach pl start last dst flags
      (noWholeTable_of_pagesInTable_le hpages)
    refine ⟨_, rfl, heach, heach.nodup, ?_⟩
    intro u hu
    obtain ⟨c, hc, rfl⟩ := List.mem_map.mp hu
    refine (Nat.mod_le _ _).trans ?_
    refine forall_mem_updateCommands pl start last dst (P := fun c => c.nptes ≤ vmMaxUpdateSize)
      (Nat.zero_le _) (fun p hp => ?_) (fun c x c' _ _ hj => ?_) c hc
    · obtain ⟨i, hi⟩ := exists_of_mem_tableParts hp
      exact hi.symm.trans_le (hpages i)
    · obtain ⟨rfl, -, hmax⟩ := PtesCursor.join_cases hj
      exact hmax

/-- The pages of four tables of the smallest size, which are adjacent in memory. -/
theorem vmUpdatePtes_exact_smallest :
    ∃ us, vmUpdatePtes (.spaced (checkArguments 8 9) 0) (fun _ => some ⟨false⟩) false 0 2048 0
        pteValid = some us ∧
      UpdatesExactly (.spaced (checkArguments 8 9) 0) us 0 2048 0 pteValid := by
  refine (vmUpdatePtes_exact_iff _ 0 pteValid (Nat.zero_le _) fun p _ => rfl).mpr fun i => ?_
  rw [pagesInTable]
  exact (Nat.sub_le _ _).trans ((min_le_left _ _).trans (by decide))

/-- **A page table of `2 ^ 20` entries is too large**: the command for it has more than `0x3FFFF`
entries, and the page behind it gets the destination of its first page. -/
theorem vmUpdatePtes_not_exact :
    vmUpdatePtes (.spaced (checkArguments 1024 20) 0) (fun _ => some ⟨false⟩) false 0 0x100001 0
        pteValid = some [⟨0, 0, 0x100000, pteValid⟩, ⟨0x800000, 0, 1, pteValid⟩] ∧
      ¬∃ us, vmUpdatePtes (.spaced (checkArguments 1024 20) 0) (fun _ => some ⟨false⟩) false 0
          0x100001 0 pteValid = some us ∧
        UpdatesExactly (.spaced (checkArguments 1024 20) 0) us 0 0x100001 0 pteValid := by
  have hus : vmUpdatePtes (.spaced (checkArguments 1024 20) 0) (fun _ => some ⟨false⟩) false 0
      0x100001 0 pteValid = some [⟨0, 0, 0x100000, pteValid⟩, ⟨0x800000, 0, 1, pteValid⟩] := by
    rfl
  refine ⟨hus, ?_⟩
  rintro ⟨us, hsome, hexact⟩
  obtain rfl := Option.some.inj (hus.symm.trans hsome)
  exact absurd (hexact.small _ List.mem_cons_self) (by decide)

end Exact

/-! ## Fragments -/

/-- Page `p` is in a fragment: its aligned group of 16 pages lies in the range, all entries of the
group are valid, and their destinations follow one another. -/
structure InFragment (pte : ℕ → Pte) (start last p : ℕ) : Prop where
  start_le : start ≤ p / 16 * 16
  le_last : p / 16 * 16 + 16 ≤ last
  valid : ∀ k < 16, (pte (p / 16 * 16 + k)).Valid
  contiguous : ∀ k < 16, (pte (p / 16 * 16 + k)).addr =
    (pte (p / 16 * 16)).addr + BitVec.ofNat 64 (k * gpuPageSize)

/-- The pages that get fragment bits, if any do. -/
def fragmentPage (start last p : ℕ) : Bool := (start + 15) / 16 * 16 ≤ p && p < last / 16 * 16

theorem linearPte_contiguous {start p : ℕ} (dst : BitVec 64) (flags flags' : BitVec 32) (k : ℕ)
    (h : start ≤ p) : (linearPte start dst flags (p + k)).addr =
      (linearPte start dst flags' p).addr + BitVec.ofNat 64 (k * gpuPageSize) := by
  have hsum : (p + k - start) * gpuPageSize = (p - start) * gpuPageSize + k * gpuPageSize := by
    rw [← Nat.add_mul]
    congr 1
    omega
  rw [linearPte, linearPte, hsum, BitVec.ofNat_add, BitVec.add_assoc]

/-- A range with the flags of its entries. -/
structure PtesRange where
  start : ℕ
  last : ℕ
  flags : BitVec 32

/-- The commands of a range. -/
def PtesRange.commands (r : PtesRange) (pl : Placement cfg) (dst : BitVec 64) : List PteUpdate :=
  (updateCommands pl r.start dst r.last).map (·.issue r.flags)

/-- The area at either end of a range. -/
def edgeRange (start last : ℕ) (flags : BitVec 32) : List PtesRange :=
  if start ≠ last then [⟨start, last, flags⟩] else []

/-- The ranges that `amdgpu_vm_frag_ptes` cuts its range into. -/
def fragRanges (copied : Bool) (start last : ℕ) (flags : BitVec 32) : List PtesRange :=
  if copied = true ∨ flags &&& pteValid = 0 ∨ last / 16 * 16 ≤ (start + 15) / 16 * 16 then
    [⟨start, last, flags⟩]
  else edgeRange start ((start + 15) / 16 * 16) flags ++
    [⟨(start + 15) / 16 * 16, last / 16 * 16, flags ||| pteFrag⟩] ++
    edgeRange (last / 16 * 16) last flags

section Fragments

variable (pl : Placement cfg) {tables : ℕ → Option PtBo} {shadow : Bool} {start last : ℕ}

theorem WritesEach.append {us vs : List PteUpdate} {a b c : ℕ} {pte : ℕ → Pte}
    (h : WritesEach pl us a b pte) (h' : WritesEach pl vs b c pte) (hab : a ≤ b) (hbc : b ≤ c) :
    WritesEach pl (us ++ vs) a c pte := by
  obtain ⟨d, rfl⟩ := Nat.exists_eq_add_of_le hab
  obtain ⟨e, rfl⟩ := Nat.exists_eq_add_of_le hbc
  have hsum : a + d + e - a = d + e := by omega
  rw [WritesEach, Nat.add_sub_cancel_left] at h h'
  rw [WritesEach, List.flatMap_append, h, h', hsum, ← List.range'_append_1, List.map_append]

theorem WritesEach.congr {us : List PteUpdate} {a b : ℕ} {pte pte' : ℕ → Pte}
    (h : WritesEach pl us a b pte) (heq : ∀ p, a ≤ p → p < b → pte p = pte' p) :
    WritesEach pl us a b pte' := by
  rw [WritesEach, h]
  refine List.map_congr_left fun p hp => ?_
  have := List.mem_range'_1.mp hp
  rw [heq p this.1 (by omega)]

/-- The area at either end of a range, which may be empty. -/
theorem updateEdge_eq (dst : BitVec 64) (flags : BitVec 32) (hle : start ≤ last)
    (hfound : ∀ p, start ≤ p → p < last → ptLookup tables shadow (p / cfg.pteCount) = .found) :
    updateEdge pl tables shadow start last dst flags =
      some ((edgeRange start last flags).flatMap fun r => r.commands pl dst) := by
  rw [updateEdge, edgeRange]
  by_cases hne : start = last
  · subst hne
    simp
  · have hlt : start < last := by omega
    rw [if_pos hne, if_pos hne, List.flatMap_singleton, PtesRange.commands]
    exact vmUpdatePtes_eq pl start dst flags hle fun p hp => hfound p (by omega) (by omega)

/-- **The commands of `amdgpu_vm_frag_ptes`** are those of the ranges it cuts its range into. -/
theorem vmFragPtes_eq (copied : Bool) (dst : BitVec 64) (flags : BitVec 32) (hle : start ≤ last)
    (hfound : TablesFound cfg tables shadow start last) :
    vmFragPtes pl tables shadow copied start last dst flags =
      some ((fragRanges copied start last flags).flatMap fun r =>
        r.commands pl (dst + BitVec.ofNat 64 ((r.start - start) * gpuPageSize))) := by
  have hself : dst + BitVec.ofNat 64 ((start - start) * gpuPageSize) = dst := by simp
  have hedge : ∀ (a b : ℕ) (f : BitVec 32), (edgeRange a b f).flatMap (fun r =>
      r.commands pl (dst + BitVec.ofNat 64 ((r.start - start) * gpuPageSize))) =
        (edgeRange a b f).flatMap fun r =>
          r.commands pl (dst + BitVec.ofNat 64 ((a - start) * gpuPageSize)) := by
    intro a b f
    rw [edgeRange]
    split
    · rw [List.flatMap_singleton, List.flatMap_singleton]
    · rw [List.flatMap_nil, List.flatMap_nil]
  rw [vmFragPtes, fragRanges]
  dsimp only
  by_cases hplain : copied = true ∨ flags &&& pteValid = 0 ∨
      last / 16 * 16 ≤ (start + 15) / 16 * 16
  · rw [if_pos hplain, if_pos hplain, List.flatMap_singleton, PtesRange.commands, hself]
    exact vmUpdatePtes_eq pl start dst flags hle hfound
  · have hlt : (start + 15) / 16 * 16 < last / 16 * 16 := by
      by_contra hcon
      exact hplain (.inr (.inr (by omega)))
    have hin : ∀ p, start ≤ p → p < last → ptLookup tables shadow (p / cfg.pteCount) = .found :=
      fun p h1 h2 => hfound p (.inr ⟨h1, h2⟩)
    have hsum : dst + BitVec.ofNat 64 (((start + 15) / 16 * 16 - start) * gpuPageSize) +
        BitVec.ofNat 64 ((last / 16 * 16 - (start + 15) / 16 * 16) * gpuPageSize) =
          dst + BitVec.ofNat 64 ((last / 16 * 16 - start) * gpuPageSize) := by
      rw [BitVec.add_assoc, ← BitVec.ofNat_add, ← Nat.add_mul]
      congr 3
      omega
    rw [if_neg hplain, if_neg hplain, hsum,
      updateEdge_eq pl dst flags (by omega) fun p h1 h2 => hin p h1 (by omega),
      vmUpdatePtes_eq pl ((start + 15) / 16 * 16) _ _ hlt.le
        fun p hp => hin p (by omega) (by omega),
      updateEdge_eq pl _ flags (by omega) fun p h1 h2 => hin p (by omega) h2]
    rw [List.flatMap_append, List.flatMap_append, hedge, hedge, hself, List.flatMap_singleton]
    rfl

/-- A range inside of another one, with the destination of its first page. -/
theorem PtesRange.commands_writesEach (r : PtesRange) (dst : BitVec 64)
    (hwhole : NoWholeTable cfg start last) (hstart : start ≤ r.start) (hlast : r.last ≤ last) :
    WritesEach pl (r.commands pl (dst + BitVec.ofNat 64 ((r.start - start) * gpuPageSize)))
      r.start r.last (linearPte start dst r.flags) := by
  refine (updateCommands_writesEach pl r.start r.last _ r.flags
    (hwhole.mono hstart hlast)).congr pl fun p hp _ => ?_
  have hsum : (p - start) * gpuPageSize =
      (r.start - start) * gpuPageSize + (p - r.start) * gpuPageSize := by
    rw [← Nat.add_mul]
    congr 1
    omega
  rw [linearPte, linearPte, hsum, BitVec.ofNat_add, BitVec.add_assoc]

theorem edgeRange_writesEach {a b : ℕ} (dst : BitVec 64) (flags : BitVec 32)
    (hwhole : NoWholeTable cfg start last) (hstart : start ≤ a) (hlast : b ≤ last) :
    WritesEach pl ((edgeRange a b flags).flatMap fun r =>
        r.commands pl (dst + BitVec.ofNat 64 ((r.start - start) * gpuPageSize)))
      a b (linearPte start dst flags) := by
  rw [edgeRange]
  by_cases hne : a = b
  · subst hne
    rw [if_neg (not_not.mpr rfl), WritesEach, Nat.sub_self]
    rfl
  · rw [if_pos hne, List.flatMap_singleton]
    exact PtesRange.commands_writesEach pl ⟨a, b, flags⟩ dst hwhole hstart hlast

/-- The entries of a range with fragments. -/
theorem fragRanges_writesEach {copied : Bool} (dst : BitVec 64) (flags : BitVec 32)
    (hwhole : NoWholeTable cfg start last)
    (hfrag : ¬(copied = true ∨ flags &&& pteValid = 0 ∨
      last / 16 * 16 ≤ (start + 15) / 16 * 16)) :
    WritesEach pl ((fragRanges copied start last flags).flatMap fun r =>
        r.commands pl (dst + BitVec.ofNat 64 ((r.start - start) * gpuPageSize)))
      start last fun p => linearPte start dst
        (if fragmentPage start last p then flags ||| pteFrag else flags) p := by
  have hlt : (start + 15) / 16 * 16 < last / 16 * 16 := by
    by_contra hle
    exact hfrag (.inr (.inr (by omega)))
  have hbody := PtesRange.commands_writesEach pl
    ⟨(start + 15) / 16 * 16, last / 16 * 16, flags ||| pteFrag⟩ dst hwhole (by simp only; omega)
    (by simp only; omega)
  have hhead := edgeRange_writesEach (b := (start + 15) / 16 * 16) pl dst flags hwhole le_rfl
    (by omega)
  have htail := edgeRange_writesEach (a := last / 16 * 16) pl dst flags hwhole (by omega) le_rfl
  rw [fragRanges, if_neg hfrag, List.flatMap_append, List.flatMap_append, List.flatMap_singleton]
  refine ((hhead.congr pl ?_).append pl (hbody.congr pl ?_) ?_ ?_).append pl
    (htail.congr pl ?_) ?_ ?_
  · intro p _ hp
    have hnot : fragmentPage start last p = false := by
      simp only [fragmentPage, Bool.and_eq_false_iff, decide_eq_false_iff_not]
      omega
    simp [hnot]
  · intro p h1 h2
    have hyes : fragmentPage start last p = true := by
      simp only [fragmentPage, Bool.and_eq_true, decide_eq_true_eq]
      exact ⟨h1, h2⟩
    simp [hyes]
  · omega
  · exact hlt.le
  · intro p hp _
    have hnot : fragmentPage start last p = false := by
      simp only [fragmentPage, Bool.and_eq_false_iff, decide_eq_false_iff_not]
      omega
    simp [hnot]
  · exact (show start ≤ last / 16 * 16 by omega)
  · exact (show last / 16 * 16 ≤ last by omega)

/-- **`amdgpu_vm_frag_ptes` writes the entries of `amdgpu_vm_update_ptes`** up to fragment bits, and
sets these only in fragments: in aligned groups of 16 valid pages inside of the range whose
destinations follow one another. Where entries are copied, the commands are the same.

**Proof sketch.** The range is cut at multiples of 16 pages, and each part begins with the
destination of its first page. Only the entries of the part in the middle get fragment bits, and it
consists of whole groups. -/
theorem vmFragPtes_refines (copied : Bool) (dst : BitVec 64) (flags : BitVec 32)
    (hblock : cfg.blockSize ≤ 12) (hle : start ≤ last)
    (hfound : TablesFound cfg tables shadow start last) :
    ∃ us vs, vmFragPtes pl tables shadow copied start last dst flags = some us ∧
      vmUpdatePtes pl tables shadow start last dst flags = some vs ∧
      (copied = true → us = vs) ∧
      ∃ pte pte' : ℕ → Pte, WritesEach pl us start last pte ∧ WritesEach pl vs start last pte' ∧
        ∀ p, start ≤ p → p < last → (pte p).addr = (pte' p).addr ∧
          ((pte p).flags = (pte' p).flags ∨
            (pte p).flags = (pte' p).flags ||| pteFrag ∧ InFragment pte start last p) := by
  have hwhole : NoWholeTable cfg start last := by
    intro hfull
    have hle : cfg.pteCount ≤ 2 ^ 12 := Nat.pow_le_pow_right (by norm_num) hblock
    omega
  have hplain := vmUpdatePtes_eq pl start dst flags hle hfound
  have heach := updateCommands_writesEach pl start last dst flags hwhole
  by_cases hfrag : copied = true ∨ flags &&& pteValid = 0 ∨ last / 16 * 16 ≤ (start + 15) / 16 * 16
  · refine ⟨_, _, ?_, hplain, fun _ => rfl, _, _, heach, heach, fun p _ _ => ⟨rfl, .inl rfl⟩⟩
    rw [vmFragPtes]
    simp only [if_pos hfrag, hplain]
  · have hwrites := fragRanges_writesEach pl dst flags hwhole hfrag
    refine ⟨_, _, vmFragPtes_eq pl copied dst flags hle hfound, hplain,
      fun hcopied => absurd (.inl hcopied) hfrag, _, _, hwrites, heach,
      fun p hp hplast => ⟨rfl, ?_⟩⟩
    by_cases hpage : fragmentPage start last p = true
    · right
      have hvalid : flags &&& pteValid ≠ 0 := fun h => hfrag (.inr (.inl h))
      have hgroup : (start + 15) / 16 * 16 ≤ p ∧ p < last / 16 * 16 := by
        simpa only [fragmentPage, Bool.and_eq_true, decide_eq_true_eq] using hpage
      refine ⟨by simp [linearPte, hpage], by omega, by omega, fun k hk => ?_, fun k hk => ?_⟩
      · rw [Pte.Valid, linearPte]
        split
        · rw [or_pteFrag_and_pteValid]
          exact hvalid
        · exact hvalid
      · exact linearPte_contiguous dst _ _ k (by omega)
    · left
      simp [linearPte, hpage]

/-- A range of four tables of the smallest size, not aligned at either end. -/
theorem vmFragPtes_refines_smallest :
    ∃ us vs, vmFragPtes (.spaced (checkArguments 8 9) 0) (fun _ => some ⟨false⟩) false false 3 2045
        0 pteValid = some us ∧
      vmUpdatePtes (.spaced (checkArguments 8 9) 0) (fun _ => some ⟨false⟩) false 3 2045 0
        pteValid = some vs ∧
      (false = true → us = vs) ∧
      ∃ pte pte' : ℕ → Pte, WritesEach (.spaced (checkArguments 8 9) 0) us 3 2045 pte ∧
        WritesEach (.spaced (checkArguments 8 9) 0) vs 3 2045 pte' ∧
        ∀ p, 3 ≤ p → p < 2045 → (pte p).addr = (pte' p).addr ∧
          ((pte p).flags = (pte' p).flags ∨
            (pte p).flags = (pte' p).flags ||| pteFrag ∧ InFragment pte 3 2045 p) :=
  vmFragPtes_refines _ false 0 pteValid (by decide) (by decide) fun p _ => rfl

end Fragments

end Amdgpu
