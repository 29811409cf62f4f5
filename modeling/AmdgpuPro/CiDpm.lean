import Mathlib.Data.List.Basic

set_option autoImplicit false

/-!
# Memory controller registers of Sea Islands parts

The VBIOS has a table of memory controller registers with one row of values for each range of memory
clocks. The driver copies it, appends columns for registers that go with a special register of the
table, marks the columns whose values differ from row to row, and uploads the addresses and the
values of the marked columns to the SMC.

## Main definitions

* `CiDpm.ciPopulateMcRegAddresses`, `ciConvertMcRegTableEntryToSmc` — what is uploaded.
* `columnsBefore` — how many columns the special registers before a column append when the memory is
  not GDDR5.

## Main results

* `CiDpm.special_written_iff` — which columns are written.
* `mcRegTable_safe_iff` — the columns stay within the arrays exactly if no `MC_SEQ_MISC1` is met
  with two columns left; addresses and values always belong together.

## Design

The arrays are functions, so a write behind the end of an array is a write like any other, and
`CiDpm.SpecialRun.written` lists the columns in the order in which they were written.
-/

namespace CiDpm

/-! ## The tables -/

/-- `SMU7_DISCRETE_MC_REGISTER_ARRAY_SIZE` -/
def smu7DiscreteMcRegisterArraySize : ℕ := 16

/-- `MAX_AC_TIMING_ENTRIES` -/
def maxAcTimingEntries : ℕ := 16

/-- `SMU7_Discrete_MCRegisterAddress` -/
structure McRegisterAddress where
  s0 : ℕ
  s1 : ℕ
  deriving DecidableEq, Repr

/-- `struct ci_mc_reg_entry`: the values of all registers up to a memory clock -/
structure McRegEntry where
  mclkMax : ℕ
  mcData : ℕ → BitVec 32

/-- `struct atom_mc_reg_table` -/
structure AtomMcRegTable where
  last : ℕ
  numEntries : ℕ
  entry : ℕ → McRegEntry
  s1 : ℕ → ℕ

/-- `struct ci_mc_reg_table` -/
structure CiMcRegTable where
  last : ℕ
  numEntries : ℕ
  validFlag : BitVec 16
  entry : ℕ → McRegEntry
  address : ℕ → McRegisterAddress

/-! ## Registers -/

def mmMcSeqMisc1 : ℕ := 0xa81
def mmMcSeqReserveM : ℕ := 0xa82
def mmMcPmgCmdEmrs : ℕ := 0xa83
def mmMcPmgCmdMrs : ℕ := 0xaab
def mmMcPmgCmdMrs1 : ℕ := 0xad1
def mmMcPmgAutoCmd : ℕ := 0xa34
def mmMcSeqPmgCmdEmrsLp : ℕ := 0xaa1
def mmMcSeqPmgCmdMrsLp : ℕ := 0xaa2
def mmMcSeqPmgCmdMrs1Lp : ℕ := 0xad2
def mmMcSeqWrCtlD0 : ℕ := 0xa2f
def mmMcSeqWrCtlD1 : ℕ := 0xa30
def mmMcSeqWrCtl2 : ℕ := 0xad5
def mmMcSeqCasTiming : ℕ := 0xa29
def mmMcSeqMiscTiming : ℕ := 0xa2a
def mmMcSeqMisc0 : ℕ := 0xa80

/-- The registers with a copy for the low power state, and their copies. -/
def lowPowerCopies : List (ℕ × ℕ) :=
  [(0xa28, 0xa9b), (0xd8e, 0xd8f), (0xd83, 0xd84), (0xd85, 0xd86), (0xd81, 0xd82),
    (mmMcSeqCasTiming, 0xa9c), (mmMcSeqMiscTiming, 0xa9d), (0xa2b, 0xa9e), (0xd8c, 0xd8d),
    (0xd8a, 0xd8b), (0xa2d, 0xac7), (0xa2e, 0xac8), (mmMcSeqWrCtlD0, 0xa9f),
    (mmMcSeqWrCtlD1, 0xaa0), (mmMcPmgCmdEmrs, mmMcSeqPmgCmdEmrsLp),
    (mmMcPmgCmdMrs, mmMcSeqPmgCmdMrsLp), (mmMcPmgCmdMrs1, mmMcSeqPmgCmdMrs1Lp), (0xa2c, 0xad3),
    (0xad7, 0xad8), (mmMcSeqWrCtl2, 0xad6)]

/-- `ci_check_s0_mc_reg_index` -/
def ciCheckS0McRegIndex (inReg : ℕ) : Option ℕ := lowPowerCopies.lookup inReg

/-! ## Before the special registers -/

/-- `ci_copy_vbios_mc_reg_table`; `none` is `-EINVAL` -/
def ciCopyVbiosMcRegTable (table : AtomMcRegTable) (ciTable : CiMcRegTable) :
    Option CiMcRegTable :=
  if table.last > smu7DiscreteMcRegisterArraySize then none
  else if table.numEntries > maxAcTimingEntries then none
  else some
    { ciTable with
      last := table.last
      numEntries := table.numEntries
      address := fun i =>
        if i < table.last then { ciTable.address i with s1 := table.s1 i } else ciTable.address i
      entry := fun i =>
        if i < table.numEntries then
          { mclkMax := (table.entry i).mclkMax
            mcData := fun j =>
              if j < table.last then (table.entry i).mcData j else (ciTable.entry i).mcData j }
        else ciTable.entry i }

/-- `ci_set_s0_mc_reg_index` -/
def ciSetS0McRegIndex (table : CiMcRegTable) : CiMcRegTable :=
  { table with
    address := fun i =>
      if i < table.last then
        { table.address i with
          s0 := (ciCheckS0McRegIndex (table.address i).s1).getD (table.address i).s1 }
      else table.address i }

/-- The value that `ci_register_patching_mc_seq` stores for one register in one row. -/
def patchedValue (s1 mclkMax : ℕ) (data : BitVec 32) : BitVec 32 :=
  let slow := mclkMax = 125000
  let fast := mclkMax = 137500
  if s1 = mmMcSeqMisc1 then
    if slow ∨ fast then (data &&& 0xFFFFFFF8) ||| 0x00000007 else data
  else if s1 = mmMcSeqWrCtlD0 ∨ s1 = mmMcSeqWrCtlD1 then
    if slow ∨ fast then (data &&& 0xFFFF0F00) ||| 0x0000D0DD else data
  else if s1 = mmMcSeqWrCtl2 then
    if slow ∨ fast then 0 else data
  else if s1 = mmMcSeqCasTiming then
    if slow then (data &&& 0xFFE0FE0F) ||| 0x000C0140
    else if fast then (data &&& 0xFFE0FE0F) ||| 0x000C0150
    else data
  else if s1 = mmMcSeqMiscTiming then
    if slow then (data &&& 0xFFFFFFE0) ||| 0x00000030
    else if fast then (data &&& 0xFFFFFFE0) ||| 0x00000035
    else data
  else data

/-- `ci_register_patching_mc_seq`; `none` is `-EINVAL`. -/
def ciRegisterPatchingMcSeq (device : ℕ) (rreg : ℕ → BitVec 32) (table : CiMcRegTable) :
    Option CiMcRegTable :=
  if rreg mmMcSeqMisc0 &&& 0x0000f00 = 0x300 ∧ (device = 0x67B0 ∨ device = 0x67B1) then
    if 0 < table.last ∧ table.last ≥ smu7DiscreteMcRegisterArraySize then none
    else some
      { table with
        entry := fun k =>
          if k < table.numEntries then
            { table.entry k with
              mcData := fun i =>
                if i < table.last then
                  patchedValue (table.address i).s1 (table.entry k).mclkMax
                    ((table.entry k).mcData i)
                else (table.entry k).mcData i }
          else table.entry k }
  else some table

/-- The part of `ci_initialize_mc_reg_table` before the special registers. -/
def preparedTable (device : ℕ) (rreg : ℕ → BitVec 32) (vbios : AtomMcRegTable)
    (ciTable : CiMcRegTable) : Option CiMcRegTable :=
  (ciCopyVbiosMcRegTable vbios ciTable).bind fun copied =>
    ciRegisterPatchingMcSeq device rreg (ciSetS0McRegIndex copied)

/-- Preparing keeps the number of columns and their registers. -/
structure Prepared (vbios : AtomMcRegTable) (table : CiMcRegTable) : Prop where
  last_eq : table.last = vbios.last
  last_le : table.last ≤ 16
  s1_eq : ∀ i < vbios.last, (table.address i).s1 = vbios.s1 i

/-- The copy of the table of the BIOS. -/
theorem Prepared.of_copy {vbios : AtomMcRegTable} {ciTable copied : CiMcRegTable}
    (h : ciCopyVbiosMcRegTable vbios ciTable = some copied) : Prepared vbios copied := by
  unfold ciCopyVbiosMcRegTable smu7DiscreteMcRegisterArraySize at h
  split_ifs at h with hlast hentries
  obtain rfl := Option.some.inj h
  exact ⟨rfl, Nat.le_of_not_lt hlast, fun i hi => by simp [hi]⟩

/-- With the indices, -/
theorem Prepared.s0 {vbios : AtomMcRegTable} {table : CiMcRegTable} (h : Prepared vbios table) :
    Prepared vbios (ciSetS0McRegIndex table) := by
  refine ⟨h.last_eq, h.last_le, fun i hi => ?_⟩
  rw [← h.s1_eq i hi]
  unfold ciSetS0McRegIndex
  dsimp only
  split_ifs <;> rfl

/-- and with the patches. -/
theorem Prepared.patched {vbios : AtomMcRegTable} {device : ℕ} {rreg : ℕ → BitVec 32}
    {table patched : CiMcRegTable} (h : Prepared vbios table)
    (hpatch : ciRegisterPatchingMcSeq device rreg table = some patched) :
    Prepared vbios patched := by
  unfold ciRegisterPatchingMcSeq at hpatch
  split_ifs at hpatch
  · obtain rfl := Option.some.inj hpatch
    exact ⟨h.last_eq, h.last_le, h.s1_eq⟩
  · obtain rfl := Option.some.inj hpatch
    exact h

/-- All of it. -/
theorem preparedTable_prepared {device : ℕ} {rreg : ℕ → BitVec 32} {vbios : AtomMcRegTable}
    {ciTable table : CiMcRegTable} (h : preparedTable device rreg vbios ciTable = some table) :
    Prepared vbios table := by
  obtain ⟨copied, hcopied, hpatched⟩ := Option.bind_eq_some_iff.mp h
  exact (Prepared.of_copy hcopied).s0.patched hpatched

/-! ## Special registers -/

/-- The loop of `ci_set_mc_special_registers`: the table, the next free column, the columns written
so far, and whether it returned `-EINVAL` -/
structure SpecialRun where
  table : CiMcRegTable
  j : ℕ
  written : List ℕ
  failed : Bool

namespace SpecialRun

/-- `return -EINVAL` -/
def fail (r : SpecialRun) : SpecialRun := { r with failed := true }

/-- One appended column: its address, and in every row a value made from column `i`. -/
def append (r : SpecialRun) (i : ℕ) (address : McRegisterAddress)
    (value : BitVec 32 → BitVec 32) : SpecialRun :=
  { r with
    table := { r.table with
      address := Function.update r.table.address r.j address
      entry := fun k =>
        if k < r.table.numEntries then
          { r.table.entry k with
            mcData := Function.update (r.table.entry k).mcData r.j
              (value ((r.table.entry k).mcData i)) }
        else r.table.entry k }
    j := r.j + 1
    written := r.written ++ [r.j] }

/-- `r'` has `k` columns more than `r`. -/
structure Grown (r r' : SpecialRun) (k : ℕ) : Prop where
  j_eq : r'.j = r.j + k
  written_eq : r'.written = r.written ++ List.range' r.j k
  address_eq : ∀ c < r.j, r'.table.address c = r.table.address c
  failed_eq : r'.failed = r.failed

/-- Nothing is appended. -/
theorem Grown.refl (r : SpecialRun) : Grown r r 0 :=
  ⟨rfl, (List.append_nil _).symm, fun _ _ => rfl, rfl⟩

/-- An appended column does not touch the columns in use. -/
theorem Grown.append {r r' : SpecialRun} {k : ℕ} (h : Grown r r' k) (i : ℕ)
    (address : McRegisterAddress) (value : BitVec 32 → BitVec 32) :
    Grown r (r'.append i address value) (k + 1) := by
  refine ⟨?_, ?_, fun c hc => ?_, h.failed_eq⟩
  · change r'.j + 1 = _
    rw [h.j_eq, Nat.add_assoc]
  · change r'.written ++ [r'.j] = _
    rw [h.written_eq, h.j_eq, List.range'_1_concat, List.append_assoc]
  · have hne : c ≠ r'.j := by
      rw [h.j_eq]
      omega
    exact (Function.update_of_ne hne _ _).trans (h.address_eq c hc)

/-- When all writes were inside. -/
theorem Grown.written_iff {r r' : SpecialRun} {k : ℕ} (h : Grown r r' k) (hj : r.j ≤ 16) :
    (∀ c ∈ r'.written, c < 16) ↔ (∀ c ∈ r.written, c < 16) ∧ r.j + k ≤ 16 := by
  rw [h.written_eq, List.forall_mem_append]
  refine and_congr_right fun _ => ?_
  simp only [List.mem_range'_1]
  refine ⟨fun hall => ?_, fun hle c hc => by omega⟩
  by_contra hover
  have := hall (max r.j 16) (by omega)
  omega

/-- The column of `MC_PMG_CMD_EMRS` -/
def appendEmrs (rreg : ℕ → BitVec 32) (r : SpecialRun) (i : ℕ) : SpecialRun :=
  r.append i ⟨mmMcSeqPmgCmdEmrsLp, mmMcPmgCmdEmrs⟩ fun data =>
    (rreg mmMcPmgCmdEmrs &&& 0xffff0000) ||| ((data &&& 0xffff0000) >>> 16)

/-- The column of `MC_PMG_CMD_MRS` -/
def appendMrs (gddr5 : Bool) (rreg : ℕ → BitVec 32) (r : SpecialRun) (i : ℕ) : SpecialRun :=
  r.append i ⟨mmMcSeqPmgCmdMrsLp, mmMcPmgCmdMrs⟩ fun data =>
    (rreg mmMcPmgCmdMrs &&& 0xffff0000) ||| (data &&& 0x0000ffff) |||
      (if gddr5 then 0 else 0x100)

/-- The column of `MC_PMG_AUTO_CMD` -/
def appendAutoCmd (r : SpecialRun) (i : ℕ) : SpecialRun :=
  r.append i ⟨mmMcPmgAutoCmd, mmMcPmgAutoCmd⟩ fun data => (data &&& 0xffff0000) >>> 16

/-- The column of `MC_PMG_CMD_MRS1` -/
def appendMrs1 (rreg : ℕ → BitVec 32) (r : SpecialRun) (i : ℕ) : SpecialRun :=
  r.append i ⟨mmMcSeqPmgCmdMrs1Lp, mmMcPmgCmdMrs1⟩ fun data =>
    (rreg mmMcPmgCmdMrs1 &&& 0xffff0000) ||| (data &&& 0x0000ffff)

/-- One column of `ci_set_mc_special_registers`. -/
def specialColumn (gddr5 : Bool) (rreg : ℕ → BitVec 32) (r : SpecialRun) (i : ℕ) : SpecialRun :=
  if r.failed then r
  else if r.j ≥ smu7DiscreteMcRegisterArraySize then r.fail
  else if (r.table.address i).s1 = mmMcSeqMisc1 then
    let emrs := r.appendEmrs rreg i
    if emrs.j ≥ smu7DiscreteMcRegisterArraySize then emrs.fail
    else
      let mrs := emrs.appendMrs gddr5 rreg i
      if mrs.j > smu7DiscreteMcRegisterArraySize then mrs.fail
      else if gddr5 then mrs
      else
        let auto := mrs.appendAutoCmd i
        if auto.j > smu7DiscreteMcRegisterArraySize then auto.fail else auto
  else if (r.table.address i).s1 = mmMcSeqReserveM then
    let mrs1 := r.appendMrs1 rreg i
    if mrs1.j > smu7DiscreteMcRegisterArraySize then mrs1.fail else mrs1
  else r

/-- The table that `ci_set_mc_special_registers` leaves when it returns 0 -/
def result (r : SpecialRun) : Option CiMcRegTable :=
  if r.failed then none else some { r.table with last := r.j }

end SpecialRun

open SpecialRun

/-- `ci_set_mc_special_registers` -/
def ciSetMcSpecialRegisters (gddr5 : Bool) (rreg : ℕ → BitVec 32) (table : CiMcRegTable) :
    SpecialRun :=
  (List.range table.last).foldl (specialColumn gddr5 rreg) ⟨table, table.last, [], false⟩

/-- How many columns a register appends. -/
def appends (gddr5 : Bool) (s1 : ℕ) : ℕ :=
  if s1 = mmMcSeqMisc1 then (if gddr5 then 2 else 3)
  else if s1 = mmMcSeqReserveM then 1
  else 0

/-- How many columns the first `n` registers append. -/
def columnsBefore (gddr5 : Bool) (s1 : ℕ → ℕ) : ℕ → ℕ
  | 0 => 0
  | n + 1 => columnsBefore gddr5 s1 n + appends gddr5 (s1 n)

/-- A register met with two columns left although it appends three. The test after the second one
lets it pass, since the test is for more than the size and not for the size. -/
def Overruns (gddr5 : Bool) (s1 j : ℕ) : Prop :=
  gddr5 = false ∧ s1 = mmMcSeqMisc1 ∧ j = 14

/-- What one column does -/
structure ColumnStep (gddr5 : Bool) (s1 : ℕ) (r r' : SpecialRun) : Prop where
  j_le : r.j ≤ r'.j
  address_eq : ∀ c < r.j, r'.table.address c = r.table.address c
  j_eq : r'.failed = false → r'.j = r.j + appends gddr5 s1 ∧ r'.j ≤ 16
  failed_le : r'.failed = true → 16 ≤ r.j + appends gddr5 s1
  written_iff : (∀ c ∈ r'.written, c < 16) ↔
    (∀ c ∈ r.written, c < 16) ∧ ¬Overruns gddr5 s1 r.j

/-- The column is done with as many columns as its register appends. -/
theorem SpecialRun.Grown.columnStep {gddr5 : Bool} {s1 : ℕ} {r r' : SpecialRun} {k : ℕ}
    (h : Grown r r' k) (hrun : r.failed = false) (hk : appends gddr5 s1 = k)
    (hle : r.j + k ≤ 16) (hfits : ¬Overruns gddr5 s1 r.j) : ColumnStep gddr5 s1 r r' := by
  have hj := h.j_eq
  refine ⟨by omega, h.address_eq, fun _ => by omega, fun hfailed => ?_, ?_⟩
  · rw [h.failed_eq, hrun] at hfailed
    cases hfailed
  · rw [h.written_iff (by omega), and_congr_right_iff]
    exact fun _ => iff_of_true hle hfits

/-- The column ends with `-EINVAL` after `k` columns. -/
theorem SpecialRun.Grown.columnStep_fail {gddr5 : Bool} {s1 : ℕ} {r r' : SpecialRun} {k : ℕ}
    (h : Grown r r' k) (hj : r.j ≤ 16) (hfull : 16 ≤ r.j + appends gddr5 s1)
    (hfits : r.j + k ≤ 16 ↔ ¬Overruns gddr5 s1 r.j) : ColumnStep gddr5 s1 r r'.fail := by
  have hj' := h.j_eq
  refine ⟨?_, h.address_eq, nofun, fun _ => hfull, ?_⟩
  · change r.j ≤ r'.j
    omega
  · rw [← hfits]
    exact h.written_iff hj

/-- The register is the first of a group that needs three columns, or two with GDDR5 memory. -/
theorem misc1_step (gddr5 : Bool) (rreg : ℕ → BitVec 32) {r : SpecialRun} (i : ℕ)
    (hrun : r.failed = false) (hj : r.j < 16) (hs1 : (r.table.address i).s1 = mmMcSeqMisc1) :
    ColumnStep gddr5 mmMcSeqMisc1 r (r.specialColumn gddr5 rreg i) := by
  have happends : appends gddr5 mmMcSeqMisc1 = if gddr5 then 2 else 3 := if_pos rfl
  have hemrs : Grown r (r.appendEmrs rreg i) 1 := (Grown.refl r).append i _ _
  have hmrs : Grown r ((r.appendEmrs rreg i).appendMrs gddr5 rreg i) 2 := hemrs.append i _ _
  have hauto : Grown r (((r.appendEmrs rreg i).appendMrs gddr5 rreg i).appendAutoCmd i) 3 :=
    hmrs.append i _ _
  have hfull : ¬r.j ≥ smu7DiscreteMcRegisterArraySize := Nat.not_le_of_lt hj
  unfold specialColumn
  rw [if_neg (by simp [hrun]), if_neg hfull, if_pos hs1]
  dsimp only
  rw [hemrs.j_eq, hmrs.j_eq, hauto.j_eq]
  have hsize : smu7DiscreteMcRegisterArraySize = 16 := rfl
  split_ifs with hone htwo hgddr5 hthree
  · -- one column was left
    refine hemrs.columnStep_fail (Nat.le_of_lt hj) ?_ (iff_of_true hj ?_)
    · rw [happends]
      split <;> omega
    · exact fun hover => absurd hover.2.2 (by omega)
  · omega
  · -- GDDR5: two columns
    refine hmrs.columnStep hrun (by rw [happends, if_pos hgddr5]) (by omega) fun hover => ?_
    exact Bool.false_ne_true (hover.1.symm.trans hgddr5)
  · -- the third column is behind the end of the arrays
    have hj14 : r.j = 14 := by omega
    refine hauto.columnStep_fail (Nat.le_of_lt hj) ?_ (iff_of_false (by omega) ?_)
    · rw [happends, if_neg hgddr5]
      omega
    · exact not_not_intro ⟨by simpa using hgddr5, rfl, hj14⟩
  · refine hauto.columnStep hrun (by rw [happends, if_neg hgddr5]) (by omega) fun hover => ?_
    exact absurd hover.2.2 (by omega)

/-- The register needs one column. -/
theorem reserveM_step (gddr5 : Bool) (rreg : ℕ → BitVec 32) {r : SpecialRun} (i : ℕ)
    (hrun : r.failed = false) (hj : r.j < 16) (hs1 : (r.table.address i).s1 = mmMcSeqReserveM) :
    ColumnStep gddr5 mmMcSeqReserveM r (r.specialColumn gddr5 rreg i) := by
  have hne : mmMcSeqReserveM ≠ mmMcSeqMisc1 := by decide
  have happends : appends gddr5 mmMcSeqReserveM = 1 := by
    rw [appends, if_neg hne, if_pos rfl]
  have hmrs1 : Grown r (r.appendMrs1 rreg i) 1 := (Grown.refl r).append i _ _
  have hfull : ¬r.j ≥ smu7DiscreteMcRegisterArraySize := Nat.not_le_of_lt hj
  have hroom : ¬r.j + 1 > smu7DiscreteMcRegisterArraySize := Nat.not_lt_of_le hj
  unfold specialColumn
  rw [if_neg (by simp [hrun]), if_neg hfull, if_neg (by rw [hs1]; exact hne), if_pos hs1]
  dsimp only
  rw [hmrs1.j_eq, if_neg hroom]
  exact hmrs1.columnStep hrun happends hj fun hover => hne hover.2.1

/-- Step lemma: the column of a register while the loop has not returned. -/
theorem specialColumn_step (gddr5 : Bool) (rreg : ℕ → BitVec 32) {r : SpecialRun} (i : ℕ)
    (hrun : r.failed = false) :
    ColumnStep gddr5 (r.table.address i).s1 r (r.specialColumn gddr5 rreg i) := by
  by_cases hfull : 16 ≤ r.j
  · have hcolumn : r.specialColumn gddr5 rreg i = r.fail := by
      rw [specialColumn, if_neg (by simp [hrun])]
      exact if_pos hfull
    rw [hcolumn]
    refine ⟨Nat.le_refl _, fun _ _ => rfl, nofun, fun _ => Nat.le_add_right_of_le hfull, ?_⟩
    exact (and_iff_left fun hover => absurd hover.2.2 (by omega)).symm
  have hj : r.j < 16 := Nat.lt_of_not_le hfull
  by_cases hmisc1 : (r.table.address i).s1 = mmMcSeqMisc1
  · rw [hmisc1]
    exact misc1_step gddr5 rreg i hrun hj hmisc1
  by_cases hreserve : (r.table.address i).s1 = mmMcSeqReserveM
  · rw [hreserve]
    exact reserveM_step gddr5 rreg i hrun hj hreserve
  have hcolumn : r.specialColumn gddr5 rreg i = r := by
    have hroom : ¬r.j ≥ smu7DiscreteMcRegisterArraySize := hfull
    rw [specialColumn, if_neg (by simp [hrun]), if_neg hroom, if_neg hmisc1, if_neg hreserve]
  have happends : appends gddr5 (r.table.address i).s1 = 0 := by
    rw [appends, if_neg hmisc1, if_neg hreserve]
  rw [hcolumn]
  exact (Grown.refl r).columnStep hrun happends (Nat.le_of_lt hj) fun hover => hmisc1 hover.2.1

/-- The loop after `n` of the columns of a table -/
structure AfterColumns (gddr5 : Bool) (table : CiMcRegTable) (s1 : ℕ → ℕ) (n : ℕ)
    (r : SpecialRun) : Prop where
  last_le : table.last ≤ r.j
  address_eq : ∀ c < table.last, r.table.address c = table.address c
  j_eq : r.failed = false → r.j = table.last + columnsBefore gddr5 s1 n ∧ r.j ≤ 16
  failed_le : r.failed = true → 16 ≤ table.last + columnsBefore gddr5 s1 n
  written_iff : (∀ c ∈ r.written, c < 16) ↔
    ∀ i < n, ¬Overruns gddr5 (s1 i) (table.last + columnsBefore gddr5 s1 i)

/-- One more column: the loop runs it, or it has returned and the count is beyond the arrays. -/
theorem AfterColumns.step {gddr5 : Bool} {table : CiMcRegTable} {s1 : ℕ → ℕ} {n : ℕ}
    {r : SpecialRun} (rreg : ℕ → BitVec 32) (h : AfterColumns gddr5 table s1 n r)
    (hn : n < table.last) (hs1 : (table.address n).s1 = s1 n) :
    AfterColumns gddr5 table s1 (n + 1) (r.specialColumn gddr5 rreg n) := by
  by_cases hfailed : r.failed = true
  · have hcolumn : r.specialColumn gddr5 rreg n = r := if_pos hfailed
    have hcount := h.failed_le hfailed
    rw [hcolumn]
    refine ⟨h.last_le, h.address_eq, fun hrun => ?_, fun _ => ?_, ?_⟩
    · rw [hfailed] at hrun
      cases hrun
    · exact Nat.le_trans hcount (Nat.add_le_add_left (Nat.le_add_right _ _) _)
    · rw [h.written_iff, Nat.forall_lt_succ_right]
      refine ⟨fun hall => ⟨hall, fun hover => ?_⟩, fun hall => hall.1⟩
      have := hover.2.2
      omega
  · have hrun : r.failed = false := by simpa using hfailed
    have hj := (h.j_eq hrun).1
    have hstep := specialColumn_step gddr5 rreg n hrun
    rw [h.address_eq n hn, hs1] at hstep
    refine ⟨Nat.le_trans h.last_le hstep.j_le, fun c hc => ?_, fun hnext => ?_, fun hnext => ?_, ?_⟩
    · rw [hstep.address_eq c (Nat.lt_of_lt_of_le hc h.last_le), h.address_eq c hc]
    · have hnextj := hstep.j_eq hnext
      refine ⟨?_, hnextj.2⟩
      rw [hnextj.1, hj, columnsBefore, Nat.add_assoc]
    · have hnextj := hstep.failed_le hnext
      rw [hj] at hnextj
      rw [columnsBefore, ← Nat.add_assoc]
      exact hnextj
    · rw [hstep.written_iff, h.written_iff, hj, Nat.forall_lt_succ_right]

/-- Run lemma: every number of columns. -/
theorem afterColumns (gddr5 : Bool) (rreg : ℕ → BitVec 32) {table : CiMcRegTable} {s1 : ℕ → ℕ}
    (hlast : table.last ≤ 16) (hs1 : ∀ i < table.last, (table.address i).s1 = s1 i) {n : ℕ}
    (hn : n ≤ table.last) :
    AfterColumns gddr5 table s1 n
      ((List.range n).foldl (specialColumn gddr5 rreg) ⟨table, table.last, [], false⟩) := by
  induction n with
  | zero =>
    refine ⟨Nat.le_refl _, fun _ _ => rfl, fun _ => ⟨rfl, hlast⟩, nofun, ?_⟩
    simp
  | succ n ih =>
    rw [List.range_succ, List.foldl_append, List.foldl_cons, List.foldl_nil]
    exact (ih (Nat.le_of_succ_le hn)).step rreg hn (hs1 n hn)

/-- The written columns are within the arrays exactly if no column overruns them. -/
theorem special_written_iff (gddr5 : Bool) (rreg : ℕ → BitVec 32) {vbios : AtomMcRegTable}
    {table : CiMcRegTable} (h : Prepared vbios table) :
    (∀ c ∈ (ciSetMcSpecialRegisters gddr5 rreg table).written, c < 16) ↔
      ∀ i < vbios.last,
        ¬Overruns gddr5 (vbios.s1 i) (vbios.last + columnsBefore gddr5 vbios.s1 i) := by
  have hs1 : ∀ i < table.last, (table.address i).s1 = vbios.s1 i := by
    rw [h.last_eq]
    exact h.s1_eq
  have hafter := (afterColumns gddr5 rreg h.last_le hs1 (Nat.le_refl _)).written_iff
  rw [h.last_eq] at hafter
  rw [ciSetMcSpecialRegisters, h.last_eq]
  exact hafter

/-- A table that is left fits into the arrays. -/
theorem result_last_le (gddr5 : Bool) (rreg : ℕ → BitVec 32) {table left : CiMcRegTable}
    (hlast : table.last ≤ 16)
    (hleft : (ciSetMcSpecialRegisters gddr5 rreg table).result = some left) : left.last ≤ 16 := by
  have hafter := @afterColumns gddr5 rreg table (fun i => (table.address i).s1) hlast
    (fun _ _ => rfl) table.last (Nat.le_refl _)
  rw [← ciSetMcSpecialRegisters] at hafter
  unfold SpecialRun.result at hleft
  split_ifs at hleft with hfailed
  obtain rfl := Option.some.inj hleft
  exact (hafter.j_eq (by simpa using hfailed)).2

/-! ## Uploading -/

/-- `ci_set_valid_flag` -/
def ciSetValidFlag (table : CiMcRegTable) : CiMcRegTable :=
  { table with
    validFlag := (List.range table.last).foldl (fun flag i =>
      if (List.range table.numEntries).any fun j =>
          1 ≤ j && (table.entry (j - 1)).mcData i != (table.entry j).mcData i then
        flag ||| (1 <<< i)
      else flag) table.validFlag }

/-- `ci_populate_mc_reg_addresses`: the addresses in the order of their indices; `none` is
`-EINVAL` -/
def ciPopulateMcRegAddresses (table : CiMcRegTable) : Option (List McRegisterAddress) :=
  (List.range table.last).foldlM (fun addresses j =>
    if table.validFlag.getLsbD j then
      if addresses.length ≥ smu7DiscreteMcRegisterArraySize then none
      else some (addresses ++ [table.address j])
    else some addresses) []

/-- `ci_convert_mc_registers`: the values in the order of their indices -/
def ciConvertMcRegisters (entry : McRegEntry) (numEntries : ℕ) (validFlag : BitVec 16) :
    List (BitVec 32) :=
  (List.range numEntries).foldl (fun values j =>
    if validFlag.getLsbD j then values ++ [entry.mcData j] else values) []

/-- The row for a memory clock: the first that reaches it, or the last one. -/
def rowFor (table : CiMcRegTable) (memoryClock : ℕ) : ℕ :=
  let i := ((List.range table.numEntries).find? fun i =>
    memoryClock ≤ (table.entry i).mclkMax).getD table.numEntries
  if i = table.numEntries ∧ i > 0 then i - 1 else i

/-- `ci_convert_mc_reg_table_entry_to_smc` -/
def ciConvertMcRegTableEntryToSmc (table : CiMcRegTable) (memoryClock : ℕ) : List (BitVec 32) :=
  ciConvertMcRegisters (table.entry (rowFor table memoryClock)) table.last table.validFlag

/-- There is one list of columns of the table behind the addresses and behind the values of every
memory clock. -/
def Paired (table : CiMcRegTable) : Prop :=
  ∃ columns : List ℕ, (∀ c ∈ columns, c < table.last) ∧
    ciPopulateMcRegAddresses table = some (columns.map table.address) ∧
    ∀ memoryClock, ciConvertMcRegTableEntryToSmc table memoryClock =
      columns.map (table.entry (rowFor table memoryClock)).mcData

/-- The marked columns among the first `n` -/
def marked (validFlag : BitVec 16) (n : ℕ) : List ℕ :=
  (List.range n).filter fun j => validFlag.getLsbD j

/-- One column more. -/
theorem marked_succ (validFlag : BitVec 16) (n : ℕ) :
    marked validFlag (n + 1) =
      if validFlag.getLsbD n then marked validFlag n ++ [n] else marked validFlag n := by
  unfold marked
  rw [List.range_succ, List.filter_append, List.filter_singleton]
  cases validFlag.getLsbD n <;> simp

/-- There are at most that many. -/
theorem marked_length_le (validFlag : BitVec 16) (n : ℕ) : (marked validFlag n).length ≤ n := by
  have := List.length_filter_le (fun j => validFlag.getLsbD j) (List.range n)
  rwa [List.length_range] at this

/-- The marked columns are uploaded. -/
theorem convert_eq_marked (entry : McRegEntry) (n : ℕ) (validFlag : BitVec 16) :
    ciConvertMcRegisters entry n validFlag = (marked validFlag n).map entry.mcData := by
  induction n with
  | zero => rfl
  | succ n ih =>
    rw [ciConvertMcRegisters] at ih ⊢
    rw [List.range_succ, List.foldl_append, List.foldl_cons, List.foldl_nil, ih, marked_succ]
    split <;> simp

/-- No more than 16 columns never exceed the array of the addresses. -/
theorem populate_eq_marked (table : CiMcRegTable) {n : ℕ} (hn : n ≤ 16) :
    ciPopulateMcRegAddresses { table with last := n } =
      some ((marked table.validFlag n).map table.address) := by
  induction n with
  | zero => rfl
  | succ n ih =>
    have ih := ih (Nat.le_of_succ_le hn)
    have hlength := marked_length_le table.validFlag n
    rw [ciPopulateMcRegAddresses] at ih ⊢
    dsimp only at ih ⊢
    rw [List.range_succ, List.foldlM_append, ih, marked_succ]
    have hroom : ¬(marked table.validFlag n).length ≥ smu7DiscreteMcRegisterArraySize := by
      simp only [smu7DiscreteMcRegisterArraySize]
      omega
    by_cases hvalid : table.validFlag.getLsbD n = true
    · simp [hvalid, hroom]
    · simp [hvalid]

/-- A table of legal length. -/
theorem paired_of_last_le {table : CiMcRegTable} (hlast : table.last ≤ 16) : Paired table := by
  refine ⟨marked table.validFlag table.last, fun c hc => ?_, populate_eq_marked table hlast,
    fun memoryClock => convert_eq_marked _ _ _⟩
  exact List.mem_range.mp (List.mem_of_mem_filter hc)

/-! ## The whole table -/

/-- Only columns of the arrays are written, and what is uploaded belongs together. -/
def Safe (run : SpecialRun) : Prop :=
  (∀ c ∈ run.written, c < smu7DiscreteMcRegisterArraySize) ∧
    ∀ left, run.result = some left → Paired (ciSetValidFlag left)

/-- For every table that the driver accepts: the special registers stay within the arrays, and
addresses and values belong together, exactly if the memory is GDDR5 or no `MC_SEQ_MISC1` of the
table is met when 14 columns are in use. -/
theorem mcRegTable_safe_iff (gddr5 : Bool) (device : ℕ) (rreg : ℕ → BitVec 32)
    (vbios : AtomMcRegTable) (ciTable table : CiMcRegTable)
    (haccepted : preparedTable device rreg vbios ciTable = some table) :
    Safe (ciSetMcSpecialRegisters gddr5 rreg table) ↔
      gddr5 = true ∨ ∀ i < vbios.last, vbios.s1 i = mmMcSeqMisc1 →
        vbios.last + columnsBefore false vbios.s1 i ≠ 14 := by
  have hprepared := preparedTable_prepared haccepted
  have hpaired : ∀ left, (ciSetMcSpecialRegisters gddr5 rreg table).result = some left →
      Paired (ciSetValidFlag left) := by
    intro left hleft
    have hlast : left.last ≤ 16 := result_last_le gddr5 rreg hprepared.last_le hleft
    exact paired_of_last_le hlast
  have hwritten := special_written_iff gddr5 rreg hprepared
  unfold Safe
  rw [and_iff_left hpaired]
  refine hwritten.trans ?_
  cases gddr5 with
  | true =>
    simp [Overruns]
  | false =>
    simp [Overruns]

/-- A table with one register of interest and `last` columns -/
def misc1Table (last : ℕ) : AtomMcRegTable :=
  ⟨last, 1, fun _ => ⟨0, fun _ => 0⟩, fun i => if i = 0 then mmMcSeqMisc1 else 0⟩

/-- A table without columns -/
def emptyCiTable : CiMcRegTable := ⟨0, 0, 0, fun _ => ⟨0, fun _ => 0⟩, fun _ => ⟨0, 0⟩⟩

/-- With 13 columns there is room. -/
theorem mcRegTable_safe_thirteen : ∃ table,
    preparedTable 0 (fun _ => 0) (misc1Table 13) emptyCiTable = some table ∧
      Safe (ciSetMcSpecialRegisters false (fun _ => 0) table) :=
  ⟨_, rfl, (mcRegTable_safe_iff false 0 (fun _ => 0) (misc1Table 13) emptyCiTable _ rfl).mpr
    (.inr (by decide))⟩

/-- Fourteen columns and memory that is not GDDR5: the first register appends the columns 14, 15
and 16. -/
theorem special_overrun : ∃ table,
    preparedTable 0 (fun _ => 0) (misc1Table 14) emptyCiTable = some table ∧
      (ciSetMcSpecialRegisters false (fun _ => 0) table).written = [14, 15, 16] ∧
      ¬Safe (ciSetMcSpecialRegisters false (fun _ => 0) table) := by
  refine ⟨_, rfl, by decide, fun hsafe => ?_⟩
  have := hsafe.1 16 (by decide)
  exact absurd this (by decide)

end CiDpm
