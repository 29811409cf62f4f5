import AmdgpuPro.Vm.Walk

set_option autoImplicit false

/-!
# The parts of a page table update

`amdgpu_vm_bo_split_mapping` cuts a mapping into chunks, `amdgpu_vm_frag_ptes` cuts the range of a
chunk into parts with and without fragment bits, and `amdgpu_vm_update_ptes` goes through the page
tables of a part.

## Main definitions

* `Amdgpu.Placement.Spans` — the entries of consecutive pages lie consecutively in memory.
* `Tiles` — a list of chunks follows a page range, chunk by chunk.

## Main results

* `Amdgpu.vmFragPtes_parts` — what holds of every part holds of a range.
* `splitLoop_tiles` — the chunks follow the range of the mapping.
-/

namespace Amdgpu

variable {cfg : VmConfig}

/-! ## Entries in memory -/

namespace Placement

variable (pl : Placement cfg)

/-- The entries of the pages `a, a + 1, …, a + c - 1` lie consecutively from `pe` on. -/
def Spans (a pe c : ℕ) : Prop := ∀ k < c, pl.entry (a + k) = pe + 8 * k

/-- Two entries less than one entry size apart are the same entry.

**Proof sketch.** Entries of different tables are at least an entry apart because the tables do
not overlap; entries of one table are multiples of eight bytes apart. -/
theorem eq_of_entry_close {p q : ℕ} (h : pl.entry p ≤ pl.entry q)
    (h' : pl.entry q < pl.entry p + 8) : p = q := by
  have hp := Nat.mod_lt p cfg.pteCount_pos
  have hq := Nat.mod_lt q cfg.pteCount_pos
  unfold entry at h h'
  by_cases ht : p / cfg.pteCount = q / cfg.pteCount
  · rw [ht] at h h'
    have hm : p % cfg.pteCount = q % cfg.pteCount := by omega
    rw [← Nat.div_add_mod p cfg.pteCount, ← Nat.div_add_mod q cfg.pteCount, ht, hm]
  · rcases pl.disjoint _ _ ht with hd | hd <;> omega

/-- Entries of one table lie consecutively. -/
theorem spans_in_table {a c : ℕ} (h : a % cfg.pteCount + c ≤ cfg.pteCount) :
    pl.Spans a (pl.entry a) c := by
  intro k hk
  have hlt : a % cfg.pteCount + k < cfg.pteCount := by omega
  have hsplit := Nat.div_add_mod a cfg.pteCount
  have hak : a + k = a % cfg.pteCount + k + cfg.pteCount * (a / cfg.pteCount) := by omega
  have hd : (a + k) / cfg.pteCount = a / cfg.pteCount := by
    rw [hak, Nat.add_mul_div_left _ _ cfg.pteCount_pos, Nat.div_eq_of_lt hlt, Nat.zero_add]
  have hm : (a + k) % cfg.pteCount = a % cfg.pteCount + k := by
    rw [hak, Nat.add_mul_mod_self_left, Nat.mod_eq_of_lt hlt]
  rw [entry, entry, hd, hm]
  omega

end Placement

/-! ## The walk over the page tables -/

/-- The entries to update in one table: at least one, not past the range, not past the
table. -/
theorem ptesInTable_spec (cfg : VmConfig) {a b : ℕ} (h : a < b) :
    0 < ptesInTable cfg a b ∧ a + ptesInTable cfg a b ≤ b ∧
      a % cfg.pteCount + ptesInTable cfg a b ≤ cfg.pteCount := by
  have hn := cfg.pteCount_pos
  have hmod := Nat.mod_lt a hn
  have hsmall := cfg.pteCount_lt
  have ha := Nat.div_add_mod a cfg.pteCount
  have hb := Nat.div_add_mod b cfg.pteCount
  have hbmod := Nat.mod_lt b hn
  unfold ptesInTable
  split_ifs with ht
  · rw [ht] at ha
    rw [Nat.mod_eq_of_lt (by omega)]
    omega
  · have hlt : a / cfg.pteCount < b / cfg.pteCount :=
      lt_of_le_of_ne (Nat.div_le_div_right h.le) ht
    have hstep : cfg.pteCount * (a / cfg.pteCount) + cfg.pteCount
        ≤ cfg.pteCount * (b / cfg.pteCount) := by
      rw [← Nat.mul_succ]; exact Nat.mul_le_mul_left _ hlt
    rw [Nat.mod_eq_of_lt (by omega)]
    omega

/-- The entries to update in a table that is not the last one: all up to its end. -/
theorem ptesInTable_of_lt (cfg : VmConfig) {a b : ℕ} (h : a + ptesInTable cfg a b < b) :
    ptesInTable cfg a b = cfg.pteCount - a % cfg.pteCount := by
  have hsmall := cfg.pteCount_lt
  have ha := Nat.div_add_mod a cfg.pteCount
  have hb := Nat.div_add_mod b cfg.pteCount
  have hbmod := Nat.mod_lt b cfg.pteCount_pos
  unfold ptesInTable at h ⊢
  split_ifs at h ⊢ with ht
  · rw [ht] at ha
    rw [Nat.mod_eq_of_lt (by omega)] at h
    omega
  · exact Nat.mod_eq_of_lt (by omega)

/-- The destinations of one table, and of the first page of the next one. -/
theorem walkDst_table {start a b : ℕ} {d : BitVec 64} (hle : start ≤ a) (hlt : a < b)
    (ha : a = start ∨ cfg.pteCount ∣ a) :
    (∀ k < ptesInTable cfg a b, walkDst cfg start d a + BitVec.ofNat 64 (k * gpuPageSize) =
      walkDst cfg start d (a + k)) ∧
    (a + ptesInTable cfg a b < b → cfg.pteCount ∣ a + ptesInTable cfg a b ∧
      advanceDst (walkDst cfg start d a) (ptesInTable cfg a b) =
        walkDst cfg start d (a + ptesInTable cfg a b)) := by
  obtain ⟨-, -, hin⟩ := ptesInTable_spec cfg hlt
  have hsplit := Nat.div_add_mod a cfg.pteCount
  refine ⟨fun k hk => (walkDst_add hle ?_).symm, fun hnext => ⟨?_, ?_⟩⟩
  · have heq : a + k = cfg.pteCount * (a / cfg.pteCount) + (a % cfg.pteCount + k) := by omega
    have hzero : (a % cfg.pteCount + k) / cfg.pteCount = 0 := Nat.div_eq_of_lt (by omega)
    rw [heq, Nat.mul_add_div cfg.pteCount_pos, hzero, Nat.add_zero]
  · refine ⟨a / cfg.pteCount + 1, ?_⟩
    rw [ptesInTable_of_lt cfg hnext, Nat.mul_succ]
    have hmod := Nat.mod_lt a cfg.pteCount_pos
    omega
  · rw [ptesInTable_of_lt cfg hnext]
    exact (walkDst_next hle ha).symm

section Walk

variable (pl : Placement cfg) (tables : ℕ → Option PtBo) (last : ℕ) (flags : BitVec 32)

/-- Fragment bits do not change the valid bit. -/
theorem or_pteFrag_and_pteValid (flags : BitVec 32) :
    (flags ||| pteFrag) &&& pteValid = flags &&& pteValid := by
  have h : pteFrag &&& pteValid = 0 := by decide
  rw [BitVec.and_comm, BitVec.and_or_distrib_left, BitVec.and_comm pteValid pteFrag, h,
    BitVec.and_comm]
  simp

/-- `amdgpu_vm_frag_ptes` cuts the range into at most three parts, each handled by
`amdgpu_vm_update_ptes`: whatever holds of the commands of every part of the range and passes
from adjacent parts to their union holds of its result. -/
theorem vmFragPtes_parts (shadow copied : Bool) {start : ℕ} (dst : BitVec 64) (h : start < last)
    (Q : List PteUpdate → ℕ → ℕ → Prop) (hnil : ∀ a, Q [] a a)
    (happend : ∀ us vs a b c, Q us a b → Q vs b c → Q (us ++ vs) a c)
    (part : ∀ (b e : ℕ) (d : BitVec 64) (f : BitVec 32), f &&& pteValid = flags &&& pteValid →
      d = dst + BitVec.ofNat 64 ((b - start) * gpuPageSize) → start ≤ b → b < e → e ≤ last →
      ∃ us, vmUpdatePtes pl tables shadow b e d f = some us ∧ Q us b e) :
    ∃ us, vmFragPtes pl tables shadow copied start last dst flags = some us ∧ Q us start last := by
  -- a part at either end may be empty
  have opt : ∀ (b e : ℕ) (d : BitVec 64), d = dst + BitVec.ofNat 64 ((b - start) * gpuPageSize) →
      start ≤ b → b ≤ e → e ≤ last →
      ∃ us, updateEdge pl tables shadow b e d flags = some us ∧ Q us b e := by
    intro b e d hd hb hbe he
    rw [updateEdge]
    by_cases hne : b = e
    · subst hne
      exact ⟨[], if_neg (not_not.mpr rfl), hnil b⟩
    · rw [if_pos hne]
      exact part b e d flags rfl hd hb (lt_of_le_of_ne hbe hne) he
  have hself : dst = dst + BitVec.ofNat 64 ((start - start) * gpuPageSize) := by simp
  unfold vmFragPtes
  dsimp only
  by_cases hplain : copied = true ∨ flags &&& pteValid = 0 ∨ last / 16 * 16 ≤ (start + 15) / 16 * 16
  · rw [if_pos hplain]
    exact part start last dst flags rfl hself le_rfl h le_rfl
  · rw [if_neg hplain]
    have hfrag : (start + 15) / 16 * 16 < last / 16 * 16 := by
      by_contra hle
      exact hplain (.inr (.inr (by omega)))
    obtain ⟨head, hhead, hq1⟩ :=
      opt start ((start + 15) / 16 * 16) dst hself le_rfl (by omega) (by omega)
    obtain ⟨body, hbody, hq2⟩ := part ((start + 15) / 16 * 16) (last / 16 * 16)
      (dst + BitVec.ofNat 64 (((start + 15) / 16 * 16 - start) * gpuPageSize))
      (flags ||| pteFrag) (or_pteFrag_and_pteValid flags) rfl (by omega) hfrag (by omega)
    have hsum : ((start + 15) / 16 * 16 - start) * gpuPageSize +
        (last / 16 * 16 - (start + 15) / 16 * 16) * gpuPageSize =
          (last / 16 * 16 - start) * gpuPageSize := by
      rw [← Nat.add_mul]
      congr 1
      omega
    obtain ⟨tail, htail, hq3⟩ := opt (last / 16 * 16) last
      (dst + BitVec.ofNat 64 (((start + 15) / 16 * 16 - start) * gpuPageSize) +
        BitVec.ofNat 64 ((last / 16 * 16 - (start + 15) / 16 * 16) * gpuPageSize))
      (by rw [BitVec.add_assoc, ← BitVec.ofNat_add, hsum]) (by omega) (by omega) le_rfl
    refine ⟨head ++ body ++ tail, ?_, happend _ _ _ _ _ (happend _ _ _ _ _ hq1 hq2) hq3⟩
    simp only [hhead, hbody, htail, Option.bind_eq_bind, Option.bind_some]

end Walk

/-! ## The chunks of a mapping -/

section Update

variable (dev : VmDevice) (tables : ℕ → Option PtBo) (src : Option ℕ)
  (pagesAddr : Option (ℕ → BitVec 64)) (flags : BitVec 32)

/-- The chunks `cs` follow the pages `[a, b)` without a gap, each of them nonempty. -/
inductive Tiles : List Chunk → ℕ → ℕ → Prop
  | nil (a : ℕ) : Tiles [] a a
  | cons {c : Chunk} {cs : List Chunk} {b : ℕ} (hc : c.start ≤ c.last)
      (hcs : Tiles cs (c.last + 1) b) : Tiles (c :: cs) c.start b

/-- The block under the cursor of the split loop contains the page of the cursor. -/
def SplitState.InNode (st : SplitState) : Prop :=
  ∀ n ns, st.nodes = some (n :: ns) → st.pfn < n.size

/-- The `switch` over the memory type moves no cursor and allows between one page and the rest
of the block. -/
theorem chunkSource_spec (mem : MemReg) (n : MmNode) (st : SplitState) (h : st.pfn < n.size) :
    0 < (chunkSource dev mem flags n st).maxEntries ∧
      (chunkSource dev mem flags n st).maxEntries ≤ n.size - st.pfn ∧
      (chunkSource dev mem flags n st).vars.nodes = st.nodes := by
  have htt : ∀ (addr : BitVec 64) (st' : SplitState), st'.nodes = st.nodes →
      0 < (ttSource flags addr (n.size - st.pfn) st').maxEntries ∧
        (ttSource flags addr (n.size - st.pfn) st').maxEntries ≤ n.size - st.pfn ∧
        (ttSource flags addr (n.size - st.pfn) st').vars.nodes = st.nodes := by
    intro addr st' hst'
    unfold ttSource
    split_ifs
    · exact ⟨Nat.sub_pos_of_lt h, le_rfl, hst'⟩
    · exact ⟨lt_min (Nat.sub_pos_of_lt h) (by norm_num), min_le_left _ _, hst'⟩
  unfold chunkSource
  cases mem.memType with
  | tt => exact htt _ _ rfl
  | dgmaImport => exact htt _ _ rfl
  | _ => exact ⟨Nat.sub_pos_of_lt h, le_rfl, rfl⟩

/-- The chunks of the split loop follow the rest of the mapping; without running past the last
block they reach its end.

**Proof sketch.** Induction on the fuel. A chunk is nonempty because the cursor lies inside its
block, it does not pass the end of the mapping, and the cursor stays inside its block or moves
to the beginning of the next one. -/
theorem splitLoop_tiles (mem : MemReg) (last fuel : ℕ) :
    ∀ st : SplitState, st.start ≤ last → last - st.start < fuel → st.InNode →
      ∃ b ≤ last + 1, Tiles (splitLoop dev mem flags last fuel st).1 st.start b ∧
        ((splitLoop dev mem flags last fuel st).2 = false → b = last + 1) := by
  induction fuel with
  | zero => intro st _ h; omega
  | succ fuel ih =>
    intro st hle hfuel hin
    -- one chunk up to `cl`, and the induction hypothesis for the rest
    have more : ∀ (c : Chunk) (st' : SplitState), c.start = st.start → c.start ≤ c.last →
        c.last < last → st'.start = c.last + 1 → st'.InNode →
        ∃ b ≤ last + 1, Tiles (c :: (splitLoop dev mem flags last fuel st').1) st.start b ∧
          ((splitLoop dev mem flags last fuel st').2 = false → b = last + 1) := by
      intro c st' hc hcl hlt hst' hin'
      obtain ⟨b, hb, htiles, hpast⟩ := ih st' (by omega) (by omega) hin'
      exact ⟨b, hb, by rw [← hc]; exact .cons hcl (by rw [← hst']; exact htiles), hpast⟩
    have done : ∀ c : Chunk, c.start = st.start → c.start ≤ c.last → c.last = last →
        ∃ b ≤ last + 1, Tiles [c] st.start b ∧ (false = false → b = last + 1) := by
      intro c hc hcl hlast
      exact ⟨last + 1, le_rfl, by rw [← hc]; exact .cons hcl (by rw [hlast]; exact .nil _),
        fun _ => rfl⟩
    rw [splitLoop]
    rcases hn : st.nodes with _ | _ | ⟨n, ns⟩
    · have := s64Max_pos
      dsimp only
      split_ifs with hmore
      · exact more _ _ rfl (by simp only; omega) (by simp only; omega) rfl
          (fun n ns h => by simp at h)
      · exact done _ rfl (by simp only; omega) (by simp only; omega)
    · exact ⟨st.start, by omega, .nil _, fun h => by simp at h⟩
    · obtain ⟨hpos, hmax, hnodes⟩ := chunkSource_spec dev flags mem n st (hin n ns hn)
      dsimp only
      generalize chunkSource dev mem flags n st = src at hpos hmax hnodes ⊢
      split_ifs with hmore hnext
      · exact more _ _ rfl (by simp only; omega) (by simp only; omega) rfl
          (fun n' ns' h => n'.size_pos)
      · refine more _ _ rfl (by simp only; omega) (by simp only; omega) rfl ?_
        intro n' ns' h
        simp only [hnodes, hn, Option.some.injEq, List.cons.injEq] at h
        obtain ⟨rfl, -⟩ := h
        have := hin n ns hn
        simp only
        omega
      · exact done _ rfl (by simp only; omega) (by simp only; omega)

end Update

/-! ## Mapping updates -/

section Split

variable (dev : VmDevice) (tables : ℕ → Option PtBo) (gttFlags flags : BitVec 32)
  (pagesAddr : Option (ℕ → BitVec 64)) (m : Mapping)

/-- The block search stops at a block that contains the page, or past the last one. -/
theorem skipNodes_lt (ns : List MmNode) (pfn : ℕ) :
    ∀ n ns', (skipNodes ns pfn).1 = n :: ns' → (skipNodes ns pfn).2 < n.size := by
  induction ns generalizing pfn with
  | nil => intro n ns' h; simp [skipNodes] at h
  | cons k ks ih =>
    intro n ns' h
    rw [skipNodes] at h ⊢
    split_ifs at h ⊢ with hk
    · exact ih _ n ns' h
    · obtain ⟨rfl, -⟩ := List.cons.inj h
      dsimp only
      omega

theorem splitInit_inNode (mem : MemReg) : (splitInit m mem pagesAddr gttFlags).InNode := by
  intro n ns h
  unfold splitInit at h ⊢
  cases hn : mem.nodes with
  | none => rw [hn] at h; simp at h
  | some ks =>
    rw [hn] at h
    exact skipNodes_lt ks _ n ns (Option.some.inj h)

@[simp] theorem splitInit_start (mem : MemReg) :
    (splitInit m mem pagesAddr gttFlags).start = m.start := by
  unfold splitInit; split <;> rfl

end Split

end Amdgpu
