import AmdgpuPro.Vm.State
import Mathlib.Tactic

set_option autoImplicit false

/-!
# `amdgpu_vm_bo_map`

What a mapping request does, for every 64 bit address, offset and size. The validation adds
`offset + size` in 64 bits and compares a page number that was cut to 32 bits, so that two kinds
of requests pass it that should not: a range that wraps around in the buffer object, and a range
beyond the 16 TiB the cut page number can name. The first is mapped, the second runs into the
`BUG_ON` behind the validation.

## Main definitions

* `Amdgpu.Vm.Grown` — what the allocation of page tables changes in a VM.
* `MapSafe` — the mapping lies in its buffer object and in the address space.
* `gemVaArgs` — the checks of `amdgpu_gem_va_ioctl` in front of a request.

## Main results

* `Amdgpu.vmBoMap_cases` — everything a request can do.
* `vmBoMap_safe_iff` — the requests that are handled safely.
-/

namespace Amdgpu

variable {cfg : VmConfig}

/-! ## Page table allocation -/

/-- `vm'` is `vm` with more page tables, all entries of the new ones being zero. -/
structure Vm.Grown (vm vm' : Vm cfg) : Prop where
  eq : vm' = { vm with tables := vm'.tables, pts := vm'.pts }
  keeps : ∀ j pt, vm.tables j = some pt → vm'.tables j = some pt
  pte_old : ∀ p, vm.tables (p / cfg.pteCount) ≠ none → vm'.pts.pte p = vm.pts.pte p
  pte_new : ∀ p, vm.tables (p / cfg.pteCount) = none → vm'.tables (p / cfg.pteCount) ≠ none →
    vm'.pts.pte p = Pte.zero

namespace Vm.Grown

variable {vm vm' vm'' : Vm cfg}

theorem refl (vm : Vm cfg) : vm.Grown vm :=
  ⟨rfl, fun _ _ h => h, fun _ _ => rfl, fun _ h h' => absurd h h'⟩

theorem va (h : vm.Grown vm') : vm'.va = vm.va := (congrArg Vm.va h.eq :)

theorem boVas (h : vm.Grown vm') : vm'.boVas = vm.boVas := (congrArg Vm.boVas h.eq :)

theorem freed (h : vm.Grown vm') : vm'.freed = vm.freed := (congrArg Vm.freed h.eq :)

theorem maxPdeUsed (h : vm.Grown vm') : vm'.maxPdeUsed = vm.maxPdeUsed :=
  (congrArg Vm.maxPdeUsed h.eq :)

theorem ne_none (h : vm.Grown vm') {j : ℕ} (hj : vm.tables j ≠ none) : vm'.tables j ≠ none := by
  obtain ⟨pt, hpt⟩ := Option.ne_none_iff_exists'.mp hj
  simp [h.keeps j pt hpt]

theorem trans (h : vm.Grown vm') (h' : vm'.Grown vm'') : vm.Grown vm'' where
  eq := by rw [h'.eq, h.eq]
  keeps j pt hj := h'.keeps j pt (h.keeps j pt hj)
  pte_old p hp := (h'.pte_old p (h.ne_none hp)).trans (h.pte_old p hp)
  pte_new p hp hp'' := by
    by_cases hp' : vm'.tables (p / cfg.pteCount) = none
    · exact h'.pte_new p hp' hp''
    · rw [h'.pte_old p hp', h.pte_new p hp hp']

theorem addTable (vm : Vm cfg) {j : ℕ} (hj : vm.tables j = none) (pt : PtBo) :
    vm.Grown (vm.addTable j pt) where
  eq := rfl
  keeps k pt' hk := by
    have hne : k ≠ j := by rintro rfl; simp [hj] at hk
    simpa [Vm.addTable, Function.update_of_ne hne] using hk
  pte_old p hp := by
    have hne : p / cfg.pteCount ≠ j := by rintro rfl; exact hp hj
    simp [Vm.addTable, hne]
  pte_new p hp hp' := by
    by_cases hpj : p / cfg.pteCount = j
    · simp [Vm.addTable, hpj]
    · exact absurd hp (by simpa [Vm.addTable, Function.update_of_ne hpj] using hp')

end Vm.Grown

/-- The allocation loop adds tables; if it succeeds, all tables of the range are there.

**Proof sketch.** Induction on the number of tables left; a table that is there stays there. -/
theorem allocTables_spec (alloc : ℕ → PtAlloc) (n : ℕ) :
    ∀ (ptIdx : ℕ) (vm : Vm cfg), vm.Grown (allocTables alloc n ptIdx vm).1 ∧
      ((allocTables alloc n ptIdx vm).2 = none → ∀ j, ptIdx ≤ j → j < ptIdx + n →
        (allocTables alloc n ptIdx vm).1.tables j ≠ none) := by
  induction n with
  | zero => intro ptIdx vm; exact ⟨.refl vm, fun _ j h1 h2 => by omega⟩
  | succ n ih =>
    intro ptIdx vm
    rw [allocTables]
    -- the rest of the loop, started from a VM that has table `ptIdx`
    have rest : ∀ vm₁ : Vm cfg, vm.Grown vm₁ → vm₁.tables ptIdx ≠ none →
        vm.Grown (allocTables alloc n (ptIdx + 1) vm₁).1 ∧
          ((allocTables alloc n (ptIdx + 1) vm₁).2 = none → ∀ j, ptIdx ≤ j →
            j < ptIdx + (n + 1) → (allocTables alloc n (ptIdx + 1) vm₁).1.tables j ≠ none) := by
      intro vm₁ hgrown hidx
      obtain ⟨hg, hall⟩ := ih (ptIdx + 1) vm₁
      refine ⟨hgrown.trans hg, fun hok j h1 h2 => ?_⟩
      rcases Nat.eq_or_lt_of_le h1 with rfl | h1
      · exact hg.ne_none hidx
      · exact hall hok j h1 (by omega)
    cases hidx : vm.tables ptIdx with
    | some pt => exact rest vm (.refl vm) (by simp [hidx])
    | none =>
      cases hres : (alloc ptIdx).result with
      | error e => exact ⟨.refl vm, fun h => by simp at h⟩
      | ok pt => exact rest _ (.addTable vm hidx pt) (by simp [Vm.addTable])

/-- If no allocation is refused the loop succeeds. -/
theorem allocTables_ok {alloc : ℕ → PtAlloc} (halloc : ∀ j, ∃ pt, (alloc j).result = .ok pt)
    (n : ℕ) : ∀ (ptIdx : ℕ) (vm : Vm cfg), (allocTables alloc n ptIdx vm).2 = none := by
  induction n with
  | zero => intro ptIdx vm; rfl
  | succ n ih =>
    intro ptIdx vm
    obtain ⟨pt, hpt⟩ := halloc ptIdx
    rw [allocTables]
    cases vm.tables ptIdx with
    | some _ => exact ih _ _
    | none => rw [hpt]; exact ih _ _

/-! ## What a request can do -/

/-- The VM with a new mapping `m` of `bo_va` `i`, its page tables not yet allocated. -/
def Vm.withMapping (vm : Vm cfg) (i : ℕ) (bv : BoVa) (m : Mapping) : Vm cfg :=
  { vm.setBoVa i { bv with invalids := m :: bv.invalids } with
    va := m :: vm.va
    nextId := vm.nextId + 1
    maxPdeUsed := max vm.maxPdeUsed (m.last / cfg.pteCount) }

/-- The page tables of the pages of a mapping. -/
def Mapping.UsesTable (cfg : VmConfig) (m : Mapping) (j : ℕ) : Prop :=
  m.start / cfg.pteCount ≤ j ∧ j ≤ m.last / cfg.pteCount

/-- Inside the page directory the insertion is the allocation loop with its error path. -/
theorem vmBoMapInsert_eq (i : ℕ) (bv : BoVa) (m : Mapping) (env : MapEnv) (vm : Vm cfg)
    (hm : m.last / cfg.pteCount < cfg.numPdes) : vmBoMapInsert i bv m env vm =
      match allocTables env.ptAlloc (m.last / cfg.pteCount + 1 - m.start / cfg.pteCount)
        (m.start / cfg.pteCount) (vm.withMapping i bv m) with
      | (vm, none) => .ret vm none
      | (vm, some e) => .ret { vm.setBoVa i { bv with invalids := (m :: bv.invalids).erase m } with
          va := vm.va.erase m } (some e) := by
  rw [vmBoMapInsert, if_neg (not_le.mpr hm)]
  rfl

/-- The end of a request whose mapping was allocated and lies in the page directory: it returns
with the mapping and all its tables, or with an error and without the mapping. -/
theorem vmBoMapInsert_cases (i : ℕ) (bv : BoVa) (m : Mapping) (env : MapEnv) (vm : Vm cfg)
    (hbv : vm.boVas i = some bv) (hm : m.last / cfg.pteCount < cfg.numPdes) :
    (∃ vm', vmBoMapInsert i bv m env vm = .ret vm' none ∧ (vm.withMapping i bv m).Grown vm' ∧
      ∀ j, m.UsesTable cfg j → vm'.tables j ≠ none) ∨
    (∃ vm' e, vmBoMapInsert i bv m env vm =
        .ret { vm' with boVas := vm.boVas, va := vm.va } (some e) ∧
      (vm.withMapping i bv m).Grown vm') := by
  obtain ⟨hg, hall⟩ := allocTables_spec env.ptAlloc
    (m.last / cfg.pteCount + 1 - m.start / cfg.pteCount) (m.start / cfg.pteCount)
    (vm.withMapping i bv m)
  rw [vmBoMapInsert_eq i bv m env vm hm]
  rcases hres : allocTables env.ptAlloc (m.last / cfg.pteCount + 1 - m.start / cfg.pteCount)
    (m.start / cfg.pteCount) (vm.withMapping i bv m) with ⟨vm', r⟩
  rw [hres] at hg hall
  dsimp only at hg hall
  cases r with
  | none =>
    refine .inl ⟨vm', rfl, hg, fun j hj => hall rfl j hj.1 ?_⟩
    have := hj.1
    have := hj.2
    omega
  | some e =>
    refine .inr ⟨vm', e, ?_, hg⟩
    have hva : vm'.va = m :: vm.va := hg.va
    have hbvs : vm'.boVas = Function.update vm.boVas i
        (some { bv with invalids := m :: bv.invalids }) := hg.boVas
    have hself : Function.update vm.boVas i (some bv) = vm.boVas := by
      rw [← hbv]; exact Function.update_eq_self i vm.boVas
    dsimp only [Vm.setBoVa]
    rw [hva, hbvs, List.erase_cons_head, List.erase_cons_head, Function.update_idem, hself]

/-- A mapping beyond the page directory runs into the `BUG_ON`. -/
theorem vmBoMapInsert_bug (i : ℕ) (bv : BoVa) (m : Mapping) (env : MapEnv) (vm : Vm cfg)
    (hm : cfg.numPdes ≤ m.last / cfg.pteCount) : ∃ vm', vmBoMapInsert i bv m env vm = .bug vm' := by
  rw [vmBoMapInsert, if_pos hm]
  exact ⟨_, rfl⟩

/-- The requests that get as far as the insertion, given memory for the mapping. -/
def Vm.Accepts (vm : Vm cfg) (bv : BoVa) (saddr offset size : BitVec 64) : Prop :=
  vmBoMapArgs cfg bv.bo.size saddr offset size = true ∧
    vm.iterFirst (mapFirst saddr) (mapLast saddr size) = none

/-- **Everything a request can do**: it is refused and changes nothing, or the new mapping goes
through the insertion. -/
theorem vmBoMap_cases (i : ℕ) (bv : BoVa) (saddr offset size : BitVec 64) (flags : BitVec 32)
    (env : MapEnv) (vm : Vm cfg) :
    (vm.Accepts bv saddr offset size ∧ env.mappingAlloc = true ∧
      vmBoMap i bv saddr offset size flags env vm =
        vmBoMapInsert i bv (vm.newMapping saddr offset size flags) env vm) ∨
    ((¬ vm.Accepts bv saddr offset size ∨ env.mappingAlloc = false) ∧
      ∃ e, vmBoMap i bv saddr offset size flags env vm = .ret vm (some e)) := by
  unfold vmBoMap
  by_cases hargs : vmBoMapArgs cfg bv.bo.size saddr offset size = true
  · rw [if_pos hargs]
    cases hit : vm.iterFirst (mapFirst saddr) (mapLast saddr size) with
    | some m => exact .inr ⟨.inl fun h => by simp [h.2] at hit, _, rfl⟩
    | none =>
      cases halloc : env.mappingAlloc with
      | true => exact .inl ⟨⟨hargs, hit⟩, rfl, by simp⟩
      | false => exact .inr ⟨.inr rfl, _, by simp; rfl⟩
  · rw [if_neg hargs]
    exact .inr ⟨.inl fun h => hargs h.1, _, rfl⟩

/-- **What a request that returns can do**: the mapping is inserted, the page tables cannot be
allocated, or nothing changes. -/
theorem vmBoMap_ret {i : ℕ} {bv : BoVa} {saddr offset size : BitVec 64} {flags : BitVec 32}
    {env : MapEnv} {vm vm' : Vm cfg} {r : Option Errno} (hbv : vm.boVas i = some bv)
    (hret : vmBoMap i bv saddr offset size flags env vm = .ret vm' r) :
    (r = none ∧ vm.Accepts bv saddr offset size ∧
      (vm.withMapping i bv (vm.newMapping saddr offset size flags)).Grown vm' ∧
      ∀ j, (vm.newMapping saddr offset size flags).UsesTable cfg j → vm'.tables j ≠ none) ∨
    (∃ vm₁, vm' = { vm₁ with boVas := vm.boVas, va := vm.va } ∧
      (vm.withMapping i bv (vm.newMapping saddr offset size flags)).Grown vm₁) ∨
    vm' = vm := by
  rcases vmBoMap_cases i bv saddr offset size flags env vm with ⟨hacc, -, hrun⟩ | ⟨-, e, hrun⟩
  · rw [hrun] at hret
    by_cases hpde : (vm.newMapping saddr offset size flags).last / cfg.pteCount < cfg.numPdes
    · rcases vmBoMapInsert_cases i bv _ env vm hbv hpde with
        ⟨vm₁, hres, hg, htables⟩ | ⟨vm₁, e, hres, hg⟩
      · rw [hres] at hret
        cases hret
        exact .inl ⟨rfl, hacc, hg, htables⟩
      · rw [hres] at hret
        cases hret
        exact .inr (.inl ⟨vm₁, rfl, hg⟩)
    · obtain ⟨vm₁, hbug⟩ := vmBoMapInsert_bug i bv _ env vm (not_lt.mp hpde)
      rw [hbug] at hret
      cases hret
  · rw [hrun] at hret
    cases hret
    exact .inr (.inr rfl)

/-! ## Safe requests -/

/-- What the validation establishes: the range does not wrap around in the address space, but
its end in the buffer object and its last page are known only up to `2 ^ 64` and `2 ^ 32`. -/
theorem vmBoMapArgs_spec {boSize saddr offset size : BitVec 64}
    (h : vmBoMapArgs cfg boSize saddr offset size = true) :
    0 < size.toNat ∧ saddr.toNat + size.toNat - 1 < 2 ^ 64 ∧
      (offset.toNat + size.toNat) % 2 ^ 64 ≤ boSize.toNat ∧
      (saddr.toNat + size.toNat - 1) / 4096 % 2 ^ 32 < cfg.maxPfn ∧
      mapLast saddr size = (saddr.toNat + size.toNat - 1) / 4096 := by
  unfold vmBoMapArgs at h
  split_ifs at h with h1
  dsimp only at h
  split_ifs at h with h2
  push Not at h1 h2
  obtain ⟨-, -, hsize, -⟩ := h1
  obtain ⟨hlt, hbo⟩ := h2
  have hpos : 0 < size.toNat := by
    refine Nat.pos_of_ne_zero fun h0 => hsize ?_
    exact BitVec.eq_of_toNat_eq h0
  have hs := saddr.isLt
  have hz := size.isLt
  have headdr : (saddr + size - 1).toNat = (2 ^ 64 - 1 + (saddr.toNat + size.toNat) % 2 ^ 64) %
      2 ^ 64 := by
    simp [BitVec.toNat_sub, BitVec.toNat_add]
  rw [BitVec.le_def, headdr] at hlt
  have hexact : (saddr + size - 1).toNat = saddr.toNat + size.toNat - 1 := by omega
  have hlast : mapLast saddr size = (saddr.toNat + size.toNat - 1) / 4096 := by
    rw [mapLast, BitVec.toNat_udiv, hexact]
    rfl
  refine ⟨hpos, by omega, ?_, ?_, hlast⟩
  · rw [BitVec.lt_def, BitVec.toNat_add] at hbo
    exact not_lt.mp hbo
  · rw [decide_eq_true_eq, BitVec.toNat_setWidth] at h
    rw [← hlast]
    exact h

theorem mapFirst_eq (saddr : BitVec 64) : mapFirst saddr = saddr.toNat / 4096 := by
  rw [mapFirst, BitVec.toNat_udiv]
  rfl

/-- A request that returned `0` has mapped pages of the address space to pages of the buffer
object, and no request runs into the `BUG_ON`. All numbers are computed without wraparound. -/
structure MapSafe (vm : Vm cfg) (i : ℕ) (bv : BoVa) (saddr offset size : BitVec 64)
    (o : Outcome (Vm cfg)) : Prop where
  no_bug : ∀ vm', o ≠ .bug vm'
  in_bo : o.Succeeds → offset.toNat + size.toNat ≤ bv.bo.size.toNat
  in_vm : o.Succeeds → saddr.toNat / gpuPageSize < cfg.maxPfn ∧
    (saddr.toNat + size.toNat - 1) / gpuPageSize < cfg.maxPfn
  recorded : o.Succeeds → ∃ m : Mapping, o.state.va = m :: vm.va ∧
    o.state.boVas i = some { bv with invalids := m :: bv.invalids } ∧
    m.start = saddr.toNat / gpuPageSize ∧ m.last = (saddr.toNat + size.toNat - 1) / gpuPageSize

/-- A request that fails changes nothing that `MapSafe` looks at. -/
theorem MapSafe.of_error {vm vm' : Vm cfg} {i : ℕ} {bv : BoVa} {saddr offset size : BitVec 64}
    {e : Errno} : MapSafe vm i bv saddr offset size (.ret vm' (some e)) :=
  ⟨fun _ h => by simp at h, fun h => by simp [Outcome.Succeeds] at h,
    fun h => by simp [Outcome.Succeeds] at h, fun h => by simp [Outcome.Succeeds] at h⟩

/-- A request without wraparound in the buffer object and with a page number of 32 bits is
handled safely, whatever happens to its allocations. -/
theorem vmBoMap_mapSafe (i : ℕ) (bv : BoVa) (saddr offset size : BitVec 64) (flags : BitVec 32)
    (vm : Vm cfg) (hbv : vm.boVas i = some bv)
    (hcond : vm.Accepts bv saddr offset size → offset.toNat + size.toNat < 2 ^ 64 ∧
      (saddr.toNat + size.toNat - 1) / gpuPageSize < 2 ^ 32) (env : MapEnv) :
    MapSafe vm i bv saddr offset size (vmBoMap i bv saddr offset size flags env vm) := by
  rcases vmBoMap_cases i bv saddr offset size flags env vm with ⟨hacc, -, hrun⟩ | ⟨-, e, hrun⟩
  · obtain ⟨hoff, hpage⟩ := hcond hacc
    obtain ⟨hpos, hend, hbo, hpfn, hlast⟩ := vmBoMapArgs_spec hacc.1
    unfold gpuPageSize at hpage
    rw [Nat.mod_eq_of_lt hoff] at hbo
    rw [Nat.mod_eq_of_lt hpage] at hpfn
    have hpde : (vm.newMapping saddr offset size flags).last / cfg.pteCount < cfg.numPdes := by
      rw [cfg.div_lt_numPdes]
      exact hlast.trans_lt hpfn
    have hle : saddr.toNat / 4096 ≤ (saddr.toNat + size.toNat - 1) / 4096 :=
      Nat.div_le_div_right (by omega)
    rw [hrun]
    rcases vmBoMapInsert_cases i bv (vm.newMapping saddr offset size flags) env vm hbv hpde with
      ⟨vm', hret, hg, -⟩ | ⟨vm', e, hret, -⟩
    · rw [hret]
      refine ⟨fun _ h => by simp at h, fun _ => hbo, fun _ => ⟨by unfold gpuPageSize; omega, hpfn⟩,
        fun _ => ⟨vm.newMapping saddr offset size flags, hg.va, ?_, mapFirst_eq saddr, hlast⟩⟩
      rw [Outcome.state_ret, hg.boVas]
      exact Function.update_self i _ vm.boVas
    · rw [hret]
      exact .of_error
  · rw [hrun]
    exact .of_error

/-- An accepted request with a page number beyond 32 bits runs into the `BUG_ON` as soon as the
mapping can be allocated. -/
theorem vmBoMap_bug_of_truncated (i : ℕ) (bv : BoVa) (saddr offset size : BitVec 64)
    (flags : BitVec 32) (vm : Vm cfg) (hacc : vm.Accepts bv saddr offset size)
    (hpage : 2 ^ 32 ≤ (saddr.toNat + size.toNat - 1) / gpuPageSize) (env : MapEnv)
    (halloc : env.mappingAlloc = true) :
    ∃ vm', vmBoMap i bv saddr offset size flags env vm = .bug vm' := by
  rcases vmBoMap_cases i bv saddr offset size flags env vm with ⟨-, -, hrun⟩ | ⟨h | h, -⟩
  · obtain ⟨-, -, -, -, hlast⟩ := vmBoMapArgs_spec hacc.1
    rw [hrun]
    apply vmBoMapInsert_bug
    by_contra hlt
    rw [not_le, cfg.div_lt_numPdes] at hlt
    have hmax := cfg.maxPfn_lt
    unfold gpuPageSize at hpage
    rw [← hlast] at hpage
    exact absurd hlt (not_lt.mpr (hmax.le.trans hpage))
  · exact absurd hacc h
  · simp [halloc] at h

/-- Allocations that all succeed. -/
def MapEnv.allOk : MapEnv := ⟨true, fun _ => ⟨.ok ⟨false⟩, none, none⟩⟩

/-- An accepted request with a page number of 32 bits succeeds if its allocations do. -/
theorem vmBoMap_succeeds (i : ℕ) (bv : BoVa) (saddr offset size : BitVec 64)
    (flags : BitVec 32) (vm : Vm cfg) (hacc : vm.Accepts bv saddr offset size)
    (hpage : (saddr.toNat + size.toNat - 1) / gpuPageSize < 2 ^ 32) :
    (vmBoMap i bv saddr offset size flags .allOk vm).Succeeds := by
  rcases vmBoMap_cases i bv saddr offset size flags .allOk vm with ⟨-, -, hrun⟩ | ⟨h | h, -⟩
  · obtain ⟨-, -, -, hpfn, hlast⟩ := vmBoMapArgs_spec hacc.1
    unfold gpuPageSize at hpage
    rw [Nat.mod_eq_of_lt hpage, ← hlast] at hpfn
    have hpde : mapLast saddr size / cfg.pteCount < cfg.numPdes := by
      rw [cfg.div_lt_numPdes]
      exact hpfn
    have halloc : ∀ j, ∃ pt, (MapEnv.allOk.ptAlloc j).result = .ok pt := fun _ => ⟨_, rfl⟩
    rw [hrun, vmBoMapInsert_eq _ _ _ _ _ hpde]
    split
    · rfl
    · next heq => simpa [allocTables_ok halloc] using congrArg Prod.snd heq
  · exact absurd hacc h
  · simp [MapEnv.allOk] at h

/-- **The requests that are handled safely** whatever happens to their allocations: those that
are refused, and those whose end in the buffer object fits 64 bits and whose last page number
fits 32 bits. -/
theorem vmBoMap_safe_iff (i : ℕ) (bv : BoVa) (saddr offset size : BitVec 64) (flags : BitVec 32)
    (vm : Vm cfg) (hbv : vm.boVas i = some bv) :
    (∀ env, MapSafe vm i bv saddr offset size (vmBoMap i bv saddr offset size flags env vm)) ↔
      (vm.Accepts bv saddr offset size → offset.toNat + size.toNat < 2 ^ 64 ∧
        (saddr.toNat + size.toNat - 1) / gpuPageSize < 2 ^ 32) := by
  constructor
  · intro hsafe hacc
    have hpage : (saddr.toNat + size.toNat - 1) / gpuPageSize < 2 ^ 32 := by
      by_contra hge
      obtain ⟨vm', hbug⟩ := vmBoMap_bug_of_truncated i bv saddr offset size flags vm hacc
        (not_lt.mp hge) .allOk rfl
      exact (hsafe .allOk).no_bug vm' hbug
    have hbo := (hsafe .allOk).in_bo (vmBoMap_succeeds i bv saddr offset size flags vm hacc hpage)
    exact ⟨hbo.trans_lt bv.bo.size.isLt, hpage⟩
  · exact fun hcond env => vmBoMap_mapSafe i bv saddr offset size flags vm hbv hcond env

/-- A VM with one `bo_va`, of a buffer object with one page. -/
def onePageVm : Vm (checkArguments 8 9) :=
  vmBoAdd ⟨0, 4096⟩ true (Vm.init _ ⟨fun _ => Pte.zero, fun _ => Pte.zero⟩)

theorem vmBoMap_safe_iff_eight_mib :
    onePageVm.boVas 0 = some ⟨⟨0, 4096⟩, [], []⟩ ∧
      ∀ env, MapSafe onePageVm 0 ⟨⟨0, 4096⟩, [], []⟩ 0x800000 0 4096
        (vmBoMap 0 ⟨⟨0, 4096⟩, [], []⟩ 0x800000 0 4096 pteReadable env onePageVm) :=
  ⟨rfl, (vmBoMap_safe_iff 0 ⟨⟨0, 4096⟩, [], []⟩ 0x800000 0 4096 pteReadable onePageVm rfl).mpr
    fun _ => by decide⟩

/-! ## Requests from user space -/

/-- `AMDGPU_VA_RESERVED_SIZE` -/
def vaReservedSize : BitVec 64 := 8 <<< 20

/-- `AMDGPU_VM_DELAY_UPDATE | AMDGPU_VM_PAGE_READABLE | AMDGPU_VM_PAGE_WRITEABLE |
AMDGPU_VM_PAGE_EXECUTABLE` -/
def vmRequestFlags : BitVec 32 := 1 ||| 2 ||| 4 ||| 8

/-- The operations of `amdgpu_gem_va_ioctl`, by their numbers. -/
inductive VaOp
  | map
  | unmap

/-- `args->operation` -/
def vaOp (operation : BitVec 32) : Option VaOp :=
  if operation = 1 then some .map else if operation = 2 then some .unmap else none

/-- The checks of `amdgpu_gem_va_ioctl` on its arguments: the request if they pass. -/
def gemVaArgs (vmEnabled : Bool) (vaAddress : BitVec 64) (flags operation : BitVec 32) :
    Except Errno VaOp :=
  if !vmEnabled then .error .ENOTTY
  else if vaAddress < vaReservedSize then .error .EINVAL
  else if flags &&& ~~~vmRequestFlags ≠ 0 then .error .EINVAL
  else match vaOp operation with
    | some op => .ok op
    | none => .error .EINVAL

/-- `va_flags` of a map request. -/
def vaFlags (flags : BitVec 32) : BitVec 32 :=
  (if flags &&& 2 ≠ 0 then pteReadable else 0) ||| (if flags &&& 4 ≠ 0 then pteWriteable else 0)
    ||| (if flags &&& 8 ≠ 0 then pteExecutable else 0)

/-- Two map requests that pass the checks of the ioctl and of `amdgpu_vm_bo_map`: one maps two
pages to a buffer object of one page, from the last page before the wraparound of the offset on,
the other one runs into the `BUG_ON`. -/
theorem vmBoMap_unsafe :
    (gemVaArgs true 0x800000 2 1 = .ok .map ∧ gemVaArgs true 0x100000000000 2 1 = .ok .map) ∧
    ¬ MapSafe onePageVm 0 ⟨⟨0, 4096⟩, [], []⟩ 0x800000 0xfffffffffffff000 8192
      (vmBoMap 0 ⟨⟨0, 4096⟩, [], []⟩ 0x800000 0xfffffffffffff000 8192 (vaFlags 2) .allOk
        onePageVm) ∧
    ¬ MapSafe onePageVm 0 ⟨⟨0, 4096⟩, [], []⟩ 0x100000000000 0 4096
      (vmBoMap 0 ⟨⟨0, 4096⟩, [], []⟩ 0x100000000000 0 4096 (vaFlags 2) .allOk onePageVm) := by
  refine ⟨⟨rfl, rfl⟩, fun h => ?_, fun h => ?_⟩
  · have hacc : onePageVm.Accepts ⟨⟨0, 4096⟩, [], []⟩ 0x800000 0xfffffffffffff000 8192 := by
      exact ⟨by decide, rfl⟩
    exact absurd (h.in_bo (vmBoMap_succeeds _ _ _ _ _ _ _ hacc (by decide))) (by decide)
  · have hacc : onePageVm.Accepts ⟨⟨0, 4096⟩, [], []⟩ 0x100000000000 0 4096 := ⟨by decide, rfl⟩
    obtain ⟨vm', hbug⟩ := vmBoMap_bug_of_truncated 0 ⟨⟨0, 4096⟩, [], []⟩ _ _ _ (vaFlags 2) _ hacc
      (by decide) .allOk rfl
    exact h.no_bug vm' hbug

end Amdgpu
