import AmdgpuPro.Lib.Partition
import AmdgpuPro.Lib.Transition
import AmdgpuPro.Vm.Map

set_option autoImplicit false

/-!
# The interval tree and the lists of a VM

The mappings of a VM are in its interval tree and at the same time on the lists of their
`bo_va`s; a mapping that was taken out of the tree may still be on the freed list. This module
shows that tree, lists and page tables agree in every state of every sequence of calls.

## Main definitions

* `Amdgpu.Vm.Wf` — tree, lists and page tables agree.

## Main results

* `Amdgpu.Vm.Wf.step`, `Vm.Wf.run` — every call that returns keeps the agreement.
* `vm_tree_and_lists` — what this means for the mappings of a VM.

## Design

A call changes the lists of one `bo_va`, and the tree and the freed list accordingly. All such
changes but the insertion of a mapping only take mappings out of the tree or move them between
lists, and are handled by one lemma, `Amdgpu.Vm.Wf.shrink`.
-/

namespace Amdgpu

variable {cfg : VmConfig}

/-! ## The invariant -/

/-- The mappings of a `bo_va`. -/
def BoVa.mappings (bv : BoVa) : List Mapping := bv.valids ++ bv.invalids

/-- The mappings of `bo_va` number `i`. -/
def Vm.mappingsOf (vm : Vm cfg) (i : ℕ) : List Mapping :=
  match vm.boVas i with
  | some bv => bv.mappings
  | none => []

/-- The mapping records that exist. -/
def Vm.Live (vm : Vm cfg) (m : Mapping) : Prop := m ∈ vm.va ∨ m ∈ vm.freed

/-- What is known of a mapping record: its range is not empty, its number is in use, and its
page tables exist. -/
structure Vm.Known (vm : Vm cfg) (m : Mapping) : Prop where
  start_le : m.start ≤ m.last
  id_lt : m.id < vm.nextId
  tables : ∀ j, m.UsesTable cfg j → vm.tables j ≠ none
  le_maxPdeUsed : ∀ j, m.UsesTable cfg j → j ≤ vm.maxPdeUsed

/-- Tree, lists and page tables of a VM agree. -/
structure Vm.Wf (vm : Vm cfg) : Prop where
  part : ListPartition vm.va vm.mappingsOf
  disjoint : vm.va.Pairwise fun m m' => ¬ m.Overlaps m'.start m'.last
  known : ∀ m, vm.Live m → vm.Known m
  ids : ∀ m m', vm.Live m → vm.Live m' → m.id = m'.id → m = m'
  freed : ∀ m ∈ vm.freed, m ∉ vm.va
  boVa_lt : ∀ i, vm.boVas i ≠ none → i < vm.nextId

/-- The mappings of a `bo_va`. -/
theorem Vm.mappingsOf_eq {vm : Vm cfg} {i : ℕ} {bv : BoVa} (h : vm.boVas i = some bv) :
    vm.mappingsOf i = bv.mappings := by
  rw [Vm.mappingsOf, h]

/-- Writing the record of a `bo_va` exchanges its list of mappings. -/
theorem Vm.mappingsOf_update (vm : Vm cfg) {vm' : Vm cfg} {i : ℕ} {bv : Option BoVa}
    (h : vm'.boVas = Function.update vm.boVas i bv) :
    vm'.mappingsOf = Function.update vm.mappingsOf i ((bv.map BoVa.mappings).getD []) := by
  funext j
  by_cases hj : j = i
  · subst hj
    rw [Vm.mappingsOf, h, Function.update_self, Function.update_self]
    cases bv <;> rfl
  · rw [Vm.mappingsOf, h, Function.update_of_ne hj, Function.update_of_ne hj]
    rfl

/-- What is known stays known. -/
theorem Vm.Known.mono {vm vm' : Vm cfg} {m : Mapping} (h : vm.Known m)
    (hid : vm.nextId ≤ vm'.nextId) (htables : ∀ j, vm.tables j ≠ none → vm'.tables j ≠ none)
    (hmax : vm.maxPdeUsed ≤ vm'.maxPdeUsed) : vm'.Known m where
  start_le := h.start_le
  id_lt := h.id_lt.trans_le hid
  tables j hj := htables j (h.tables j hj)
  le_maxPdeUsed j hj := (h.le_maxPdeUsed j hj).trans hmax

/-! ## What the update calls do to the lists -/

/-- `spliceInvalid` keeps the buffer object, -/
theorem spliceInvalid_bo (vm : Vm cfg) (i : ℕ) (bv : BoVa) :
    (spliceInvalid vm i bv).bo = bv.bo := by
  unfold spliceInvalid; split_ifs <;> rfl

/-- and the mappings. -/
theorem spliceInvalid_mappings (vm : Vm cfg) (i : ℕ) (bv : BoVa) :
    (spliceInvalid vm i bv).mappings = bv.mappings := by
  unfold spliceInvalid; split_ifs <;> rfl

/-- **Everything `amdgpu_vm_bo_update` can do**: move the mappings of its `bo_va` between the two
lists, write page table entries, and on success take the `bo_va` off its status list. -/
theorem vmBoUpdate_cases {dev : VmDevice} {i : ℕ} {bv : BoVa} {pl : BoPlace} {clear : Bool}
    {envs : ℕ → ℕ → UpdateEnv cfg} {vm vm' : Vm cfg} {r : Option Errno}
    (hret : vmBoUpdate dev i bv pl clear envs vm = .ret vm' r) :
    ∃ bv' : BoVa, bv'.bo = bv.bo ∧ bv'.mappings.Perm bv.mappings ∧
      vm' = { vm.setBoVa i bv' with
        pts := vm'.pts, invalidated := vm'.invalidated, cleared := vm'.cleared } ∧
      vmBoUpdatePts dev (spliceInvalid vm i bv) pl clear envs vm.tables vm.pts = .ret vm'.pts r ∧
      ((r = none ∧ bv'.invalids = [] ∧ vm'.invalidated = vm.invalidated.erase i) ∨
        (r ≠ none ∧ bv' = spliceInvalid vm i bv ∧ vm'.invalidated = vm.invalidated)) := by
  unfold vmBoUpdate at hret
  dsimp only at hret
  split at hret
  · next pts hpts =>
    cases hret
    refine ⟨{ spliceInvalid vm i bv with
        valids := (spliceInvalid vm i bv).invalids ++ (spliceInvalid vm i bv).valids
        invalids := [] }, spliceInvalid_bo vm i bv, ?_, ?_, hpts, .inl ⟨rfl, rfl, rfl⟩⟩
    · rw [← spliceInvalid_mappings vm i bv, BoVa.mappings, List.append_nil]
      exact List.perm_append_comm
    · simp [Vm.setBoVa]
  · next pts e hpts =>
    cases hret
    exact ⟨_, spliceInvalid_bo vm i bv, .of_eq (spliceInvalid_mappings vm i bv), rfl, hpts,
      .inr ⟨by simp, rfl, rfl⟩⟩
  · cases hret

/-- The loop of `amdgpu_vm_clear_freed` takes mappings off the freed list and writes page table
entries. -/
theorem clearFreedLoop_frame {dev : VmDevice} {ms : List Mapping} :
    ∀ (vm : Vm cfg) {envs : ℕ → ℕ → UpdateEnv cfg} {vm' : Vm cfg} {r : Option Errno},
      vm.freed = ms → clearFreedLoop dev ms envs vm = .ret vm' r →
      vm' = { vm with pts := vm'.pts, freed := vm'.freed } ∧ vm'.freed ⊆ vm.freed := by
  induction ms with
  | nil =>
    intro vm envs vm' r _ hret
    cases hret
    exact ⟨rfl, List.Subset.refl _⟩
  | cons m ms ih =>
    intro vm envs vm' r hfreed hret
    rw [clearFreedLoop] at hret
    split at hret
    · next pts _ =>
      obtain ⟨heq, hsub⟩ := ih { vm with pts := pts, freed := ms } rfl hret
      exact ⟨by rw [heq], hfreed ▸ List.Subset.trans hsub (List.subset_cons_self _ _)⟩
    · cases hret
      exact ⟨rfl, hfreed ▸ List.subset_cons_self _ _⟩
    · cases hret

/-- The loop of `amdgpu_vm_clear_invalids` is a sequence of updates: what they keep, it keeps. -/
theorem clearInvalidsLoop_keeps {dev : VmDevice} {places : ℕ → BoPlace} (P : Vm cfg → Prop)
    (hstep : ∀ {vm vm' : Vm cfg} {i : ℕ} {bv : BoVa} {envs : ℕ → ℕ → UpdateEnv cfg}
      {r : Option Errno}, P vm → vm.boVas i = some bv →
      vmBoUpdate dev i bv (places i) true envs vm = .ret vm' r → P vm') (fuel : ℕ) :
    ∀ {envs : ℕ → ℕ → ℕ → UpdateEnv cfg} {vm vm' : Vm cfg} {r : Option Errno}, P vm →
      clearInvalidsLoop dev places fuel envs vm = .ret vm' r → P vm' := by
  induction fuel with
  | zero => intro envs vm vm' r h hret; cases hret; exact h
  | succ fuel ih =>
    intro envs vm vm' r h hret
    rw [clearInvalidsLoop] at hret
    split at hret
    · cases hret; exact h
    · split at hret
      · cases hret
      · next bv hbv =>
        split at hret
        · next vm₁ hupd => exact ih (hstep h hbv hupd) hret
        · next o hupd _ => exact hstep h hbv hret

/-- A call of `amdgpu_vm_clear_invalids` that returns comes from a loop that returns. -/
theorem vmClearInvalids_loop {dev : VmDevice} {places : ℕ → BoPlace}
    {envs : ℕ → ℕ → ℕ → UpdateEnv cfg} {syncFence r : Option Errno} {vm vm' : Vm cfg}
    (hret : vmClearInvalids dev places envs syncFence vm = .ret vm' r) :
    ∃ r', clearInvalidsLoop dev places vm.invalidated.length envs vm = .ret vm' r' := by
  unfold vmClearInvalids at hret
  split at hret
  · next hloop => cases hret; exact ⟨_, hloop⟩
  · exact ⟨r, hret⟩

/-- Only the list of the invalidated changes. -/
theorem invalidateAll_frame (is : List ℕ) :
    ∀ vm : Vm cfg, invalidateAll is vm =
      { vm with invalidated := (invalidateAll is vm).invalidated } := by
  induction is with
  | nil => intro vm; rfl
  | cons i is ih =>
    intro vm
    rw [invalidateAll, ih]
    split_ifs <;> rfl

namespace Vm.Wf

variable {vm vm' : Vm cfg}

/-- A new VM. -/
theorem init (pts : PtStore) : (Vm.init cfg pts).Wf where
  part := ListPartition.nil
  disjoint := .nil
  known m h := by simp [Vm.Live, Vm.init] at h
  ids m m' h := by simp [Vm.Live, Vm.init] at h
  freed m h := by simp [Vm.init] at h
  boVa_lt i h := absurd rfl h

/-- No mapping is in the tree twice. -/
theorem va_nodup (h : vm.Wf) : vm.va.Nodup := by
  refine h.disjoint.imp_of_mem fun hm _ hno heq => ?_
  subst heq
  have := (h.known _ (.inl hm)).start_le
  exact hno ⟨this, this⟩

/-- **Changes that add no mapping** keep the agreement, provided that the lists still share out
the tree and that what comes to the freed list has left the tree. -/
theorem shrink (h : vm.Wf) (hpart : ListPartition vm'.va vm'.mappingsOf)
    (hva : vm'.va.Sublist vm.va) (hfreed : ∀ m ∈ vm'.freed, vm.Live m ∧ m ∉ vm'.va)
    (hbv : ∀ i, vm'.boVas i ≠ none → i < vm'.nextId) (hid : vm.nextId ≤ vm'.nextId)
    (htables : ∀ j, vm.tables j ≠ none → vm'.tables j ≠ none)
    (hmax : vm.maxPdeUsed ≤ vm'.maxPdeUsed) : vm'.Wf := by
  have hlive : ∀ m, vm'.Live m → vm.Live m := by
    rintro m (hm | hm)
    · exact .inl (hva.subset hm)
    · exact (hfreed m hm).1
  exact {
    part := hpart
    disjoint := h.disjoint.sublist hva
    known := fun m hm => (h.known m (hlive m hm)).mono hid htables hmax
    ids := fun m m' hm hm' => h.ids m m' (hlive m hm) (hlive m' hm')
    freed := fun m hm => (hfreed m hm).2
    boVa_lt := hbv }

/-- Changes that leave the tree and the lists of mappings alone. -/
theorem of_same (h : vm.Wf) (hva : vm'.va = vm.va) (hbvs : vm'.mappingsOf = vm.mappingsOf)
    (hfreed : ∀ m ∈ vm'.freed, m ∈ vm.freed) (hbv : ∀ i, vm'.boVas i ≠ none → i < vm'.nextId)
    (hid : vm.nextId ≤ vm'.nextId) (htables : ∀ j, vm.tables j ≠ none → vm'.tables j ≠ none)
    (hmax : vm.maxPdeUsed ≤ vm'.maxPdeUsed) : vm'.Wf := by
  refine h.shrink (by rw [hva, hbvs]; exact h.part) (by rw [hva]) (fun m hm => ?_) hbv hid htables
    hmax
  exact ⟨.inr (hfreed m hm), by rw [hva]; exact h.freed m (hfreed m hm)⟩

/-! ## One lemma per call -/

/-- Mappings on the lists are in the tree. -/
theorem mem_va (h : vm.Wf) {i : ℕ} {bv : BoVa} (hbv : vm.boVas i = some bv) {m : Mapping}
    (hm : m ∈ bv.mappings) : m ∈ vm.va :=
  h.part.mem (i := i) (by rwa [Vm.mappingsOf_eq hbv])

/-- The records of the `bo_va`s after one of them was written. -/
theorem boVa_lt_update (h : vm.Wf) {i : ℕ} (hi : i < vm.nextId) {bv : Option BoVa} :
    ∀ j, Function.update vm.boVas i bv j ≠ none → j < vm.nextId := by
  intro j hj
  by_cases hji : j = i
  · rwa [hji]
  · rw [Function.update_of_ne hji] at hj
    exact h.boVa_lt j hj

/-- `amdgpu_vm_bo_add`. -/
theorem vmBoAdd (h : vm.Wf) (bo : Bo) (alloc : Bool) : (vmBoAdd bo alloc vm).Wf := by
  unfold Amdgpu.vmBoAdd
  split_ifs
  · have hfresh : vm.boVas vm.nextId = none := by
      by_contra hne
      exact absurd (h.boVa_lt _ hne) (lt_irrefl _)
    refine h.of_same rfl ?_ (fun _ hm => hm) (fun j hj => ?_) (Nat.le_succ _) (fun _ hj => hj)
      le_rfl
    · rw [vm.mappingsOf_update rfl]
      refine Function.update_eq_iff.mpr ⟨?_, fun _ _ => rfl⟩
      rw [Vm.mappingsOf, hfresh]
      rfl
    · by_cases hji : j = vm.nextId
      · exact hji ▸ Nat.lt_succ_self _
      · dsimp only at hj
        rw [Function.update_of_ne hji] at hj
        exact (h.boVa_lt j hj).trans (Nat.lt_succ_self _)
  · exact h

/-- **A new mapping** keeps the agreement once its page tables are there. -/
theorem insert (h : vm.Wf) {i : ℕ} {bv : BoVa} (hbv : vm.boVas i = some bv) {m : Mapping}
    (hle : m.start ≤ m.last) (hid : m.id = vm.nextId)
    (hfree : vm.iterFirst m.start m.last = none) (hg : (vm.withMapping i bv m).Grown vm')
    (htables : ∀ j, m.UsesTable cfg j → vm'.tables j ≠ none) : vm'.Wf := by
  have hva : vm'.va = m :: vm.va := hg.va
  have hfreed : vm'.freed = vm.freed := hg.freed
  have hnext : vm'.nextId = vm.nextId + 1 := congrArg Vm.nextId hg.eq
  have hmax : vm'.maxPdeUsed = max vm.maxPdeUsed (m.last / cfg.pteCount) := hg.maxPdeUsed
  have hfresh : ∀ m', vm.Live m' → m'.id ≠ m.id := fun m' hm' =>
    hid ▸ (h.known m' hm').id_lt.ne
  have hlive : ∀ m', vm'.Live m' → m' = m ∨ vm.Live m' := by
    intro m' hm'
    rw [Vm.Live, hva, hfreed, List.mem_cons, or_assoc] at hm'
    exact hm'
  have hknown : vm'.Known m := by
    refine ⟨hle, by omega, htables, fun j hj => ?_⟩
    rw [hmax]
    exact hj.2.trans (le_max_right _ _)
  exact {
    part := by
      rw [hva, vm.mappingsOf_update hg.boVas]
      refine h.part.insert i (fun hmem => hfresh m (.inl hmem) rfl) ?_
      rw [Vm.mappingsOf_eq hbv]
      exact List.perm_middle
    disjoint := by
      rw [hva]
      refine List.pairwise_cons.mpr ⟨fun m' hm' hover => ?_, h.disjoint⟩
      exact List.find?_eq_none.mp hfree m' hm' (decide_eq_true ⟨hover.2, hover.1⟩)
    known := fun m' hm' => by
      rcases hlive m' hm' with rfl | hm'
      · exact hknown
      · exact (h.known m' hm').mono (by omega) (fun j hj => hg.ne_none hj)
          (by rw [hmax]; exact le_max_left _ _)
    ids := fun m₁ m₂ h₁ h₂ heq => by
      rcases hlive m₁ h₁ with rfl | h₁ <;> rcases hlive m₂ h₂ with rfl | h₂
      · rfl
      · exact absurd heq.symm (hfresh m₂ h₂)
      · exact absurd heq (hfresh m₁ h₁)
      · exact h.ids m₁ m₂ h₁ h₂ heq
    freed := fun m' hm' hmem => by
      rw [hfreed] at hm'
      rw [hva] at hmem
      rcases List.mem_cons.mp hmem with rfl | hmem
      · exact hfresh m' (.inr hm') rfl
      · exact h.freed m' hm' hmem
    boVa_lt := fun j hj => by
      rw [hg.boVas] at hj
      rw [hnext]
      exact (h.boVa_lt_update (h.boVa_lt i (by simp [hbv])) j hj).trans (Nat.lt_succ_self _) }

/-- A request keeps the agreement, also if it fails on the way. -/
theorem vmBoMap (h : vm.Wf) {i : ℕ} {bv : BoVa} (hbv : vm.boVas i = some bv)
    {saddr offset size : BitVec 64} {flags : BitVec 32} {env : MapEnv} {r : Option Errno}
    (hret : vmBoMap i bv saddr offset size flags env vm = .ret vm' r) : vm'.Wf := by
  obtain ⟨-, hacc, hg, htables⟩ | ⟨vm₁, rfl, hg⟩ | rfl := vmBoMap_ret hbv hret
  · obtain ⟨hpos, -, -, -, hlast⟩ := vmBoMapArgs_spec hacc.1
    refine h.insert hbv ?_ rfl hacc.2 hg htables
    change mapFirst saddr ≤ mapLast saddr size
    rw [mapFirst_eq, hlast]
    exact Nat.div_le_div_right (by omega)
  · have hnext : vm₁.nextId = vm.nextId + 1 := congrArg Vm.nextId hg.eq
    refine h.of_same rfl rfl (fun m' hm' => hg.freed ▸ hm') (fun j hj => ?_) ?_
      (fun j hj => hg.ne_none hj) (hg.maxPdeUsed ▸ le_max_left _ _)
    · exact hnext ▸ (h.boVa_lt j hj).trans (Nat.lt_succ_self _)
    · exact hnext ▸ Nat.le_succ _
  · exact h

/-- Take mappings of one `bo_va` out of the tree, and put some of them on the freed list. -/
theorem remove (h : vm.Wf) {i : ℕ} {bv : BoVa} (hbv : vm.boVas i = some bv)
    (gone : List Mapping) (new : Option BoVa)
    (hnew : (gone ++ (new.map BoVa.mappings).getD []).Perm bv.mappings)
    (hbvs : vm'.boVas = Function.update vm.boVas i new) (hsub : vm'.va.Sublist vm.va)
    (hva : ∀ m, m ∈ vm'.va ↔ m ∈ vm.va ∧ m ∉ gone)
    (hfreed : ∀ m ∈ vm'.freed, m ∈ gone ∨ m ∈ vm.freed) (hid : vm'.nextId = vm.nextId)
    (htables : vm'.tables = vm.tables) (hmax : vm'.maxPdeUsed = vm.maxPdeUsed) : vm'.Wf := by
  have hgone : ∀ m ∈ gone, m ∈ vm.va := fun m hm =>
    h.mem_va hbv (hnew.subset (List.mem_append_left _ hm))
  refine h.shrink ?_ hsub (fun m hm => ?_) ?_ hid.ge (fun j hj => htables ▸ hj) hmax.ge
  · rw [vm.mappingsOf_update hbvs]
    exact h.part.remove i (by rwa [Vm.mappingsOf_eq hbv]) hva
  · rcases hfreed m hm with hm | hm
    · exact ⟨.inl (hgone m hm), fun hmem => ((hva m).mp hmem).2 hm⟩
    · exact ⟨.inr hm, fun hmem => h.freed m hm ((hva m).mp hmem).1⟩
  · rw [hbvs, hid]
    exact h.boVa_lt_update (h.boVa_lt i (by simp [hbv]))

/-- `amdgpu_vm_bo_unmap`: the mapping goes from its list and from the tree. -/
theorem vmBoUnmap (h : vm.Wf) {i : ℕ} {bv : BoVa} (hbv : vm.boVas i = some bv)
    {saddr : BitVec 64} {r : Option Errno} (hret : vmBoUnmap i bv saddr vm = .ret vm' r) :
    vm'.Wf := by
  have herase : ∀ m a, a ∈ vm.va.erase m ↔ a ∈ vm.va ∧ a ∉ [m] := fun m a => by
    rw [h.va_nodup.mem_erase_iff, List.mem_singleton, and_comm]
  unfold Amdgpu.vmBoUnmap at hret
  split at hret
  · next m hfind =>
    cases hret
    have hm := List.mem_of_find?_eq_some hfind
    refine h.remove hbv [m] (some _) ?_ rfl List.erase_sublist (herase m) ?_ rfl rfl rfl
    · exact (List.perm_cons_erase hm).symm.append_right bv.invalids
    · intro a ha
      rw [List.mem_singleton]
      exact List.mem_cons.mp ha
  · split at hret
    · next m hfind =>
      cases hret
      have hm := List.mem_of_find?_eq_some hfind
      refine h.remove hbv [m] (some _) ?_ rfl List.erase_sublist (herase m) (fun a ha => .inr ha)
        rfl rfl rfl
      have hperm : (m :: (bv.valids ++ bv.invalids.erase m)).Perm
          (bv.valids ++ m :: bv.invalids.erase m) := List.perm_middle.symm
      exact hperm.trans ((List.perm_cons_erase hm).symm.append_left bv.valids)
    · cases hret
      exact h

/-- `amdgpu_vm_bo_rmv`: all mappings of the `bo_va` go. -/
theorem vmBoRmv (h : vm.Wf) {i : ℕ} {bv : BoVa} (hbv : vm.boVas i = some bv) :
    (vmBoRmv i bv vm).Wf := by
  refine h.remove hbv bv.mappings none (by simp) rfl ?_ ?_ ?_ rfl rfl rfl
  · exact (List.diff_sublist _ _).trans (List.diff_sublist _ _)
  · intro m
    have hnd := h.va_nodup
    have hnd' := hnd.sublist (List.diff_sublist vm.va bv.valids)
    change m ∈ (vm.va.diff bv.valids).diff bv.invalids ↔ _
    rw [hnd'.mem_sdiff_iff, hnd.mem_sdiff_iff, BoVa.mappings, List.mem_append, not_or, and_assoc]
  · intro m hm
    rcases List.mem_append.mp hm with hm | hm
    · exact .inl (List.mem_append_left _ (List.mem_reverse.mp hm))
    · exact .inr hm

/-- `amdgpu_vm_bo_update`: mappings go from one list to the other. -/
theorem vmBoUpdate (h : vm.Wf) {dev : VmDevice} {i : ℕ} {bv : BoVa} {pl : BoPlace} {clear : Bool}
    {envs : ℕ → ℕ → UpdateEnv cfg} {r : Option Errno} (hbv : vm.boVas i = some bv)
    (hret : vmBoUpdate dev i bv pl clear envs vm = .ret vm' r) : vm'.Wf := by
  obtain ⟨bv', -, hperm, heq, -⟩ := vmBoUpdate_cases hret
  rw [heq]
  exact h.remove hbv [] (some bv') hperm rfl (List.Sublist.refl _) (by simp [Vm.setBoVa])
    (fun m hm => .inr hm) rfl rfl rfl

/-- `amdgpu_vm_clear_freed`. -/
theorem vmClearFreed (h : vm.Wf) {dev : VmDevice} {envs : ℕ → ℕ → UpdateEnv cfg}
    {r : Option Errno} (hret : vmClearFreed dev envs vm = .ret vm' r) : vm'.Wf := by
  obtain ⟨heq, hsub⟩ := clearFreedLoop_frame vm rfl hret
  rw [heq]
  exact h.of_same rfl rfl (fun m hm => hsub hm) h.boVa_lt le_rfl (fun _ hj => hj) le_rfl

/-- `amdgpu_vm_clear_invalids`. -/
theorem vmClearInvalids (h : vm.Wf) {dev : VmDevice} {places : ℕ → BoPlace}
    {envs : ℕ → ℕ → ℕ → UpdateEnv cfg} {syncFence r : Option Errno}
    (hret : vmClearInvalids dev places envs syncFence vm = .ret vm' r) : vm'.Wf := by
  obtain ⟨r', hloop⟩ := vmClearInvalids_loop hret
  exact clearInvalidsLoop_keeps Vm.Wf (fun h hbv => h.vmBoUpdate hbv) _ h hloop

/-- `amdgpu_vm_bo_invalidate`. -/
theorem vmBoInvalidate (h : vm.Wf) (bo : ℕ) : (vmBoInvalidate bo vm).Wf := by
  unfold Amdgpu.vmBoInvalidate
  rw [invalidateAll_frame]
  exact h.of_same rfl rfl (fun _ hm => hm) h.boVa_lt le_rfl (fun _ hj => hj) le_rfl

/-- **Every call that returns keeps the agreement.** -/
theorem step (h : vm.Wf) {dev : VmDevice} {c : VmCall cfg} (hstep : VmStep dev vm c vm') :
    vm'.Wf := by
  obtain ⟨r, hret⟩ := hstep
  cases c with
  | add bo alloc => cases hret; exact h.vmBoAdd bo alloc
  | map i saddr offset size flags env =>
    obtain ⟨bv, hbv, hret⟩ := Option.map_eq_some_iff.mp hret
    exact h.vmBoMap hbv hret
  | unmap i saddr =>
    obtain ⟨bv, hbv, hret⟩ := Option.map_eq_some_iff.mp hret
    exact h.vmBoUnmap hbv hret
  | rmv i =>
    obtain ⟨bv, hbv, hret⟩ := Option.map_eq_some_iff.mp hret
    cases hret
    exact h.vmBoRmv hbv
  | update i pl clear envs =>
    obtain ⟨bv, hbv, hret⟩ := Option.map_eq_some_iff.mp hret
    exact h.vmBoUpdate hbv hret
  | invalidate bo => cases hret; exact h.vmBoInvalidate bo
  | clearFreed envs => exact h.vmClearFreed (Option.some.inj hret)
  | clearInvalids places envs syncFence => exact h.vmClearInvalids (Option.some.inj hret)

/-- Tree, lists and page tables agree after every sequence of calls. -/
theorem run {dev : VmDevice} {pts : PtStore} {cs : List (VmCall cfg)}
    (hrun : Transition.Run (VmStep dev) (Vm.init cfg pts) cs vm) : vm.Wf :=
  hrun.invariant Vm.Wf (fun _ _ _ h hstep => h.step hstep) (.init pts)

end Vm.Wf

/-! ## What the agreement means -/

/-- `m` is on the list `valids` (`k.2 = true`) or `invalids` of `bo_va` number `k.1`. -/
def Vm.OnList (vm : Vm cfg) (k : ℕ × Bool) (m : Mapping) : Prop :=
  ∃ bv, vm.boVas k.1 = some bv ∧ m ∈ if k.2 then bv.valids else bv.invalids

/-- Either list is part of the mappings. -/
theorem Vm.OnList.mem_mappingsOf {vm : Vm cfg} {k : ℕ × Bool} {m : Mapping}
    (h : vm.OnList k m) : m ∈ vm.mappingsOf k.1 := by
  obtain ⟨bv, hbv, hm⟩ := h
  rw [Vm.mappingsOf_eq hbv, BoVa.mappings, List.mem_append]
  split_ifs at hm
  · exact .inl hm
  · exact .inr hm

/-- A mapping is in the tree exactly if it is on exactly one list. -/
theorem Vm.Wf.mem_va_iff {vm : Vm cfg} (h : vm.Wf) (m : Mapping) :
    m ∈ vm.va ↔ ∃! k, vm.OnList k m := by
  constructor
  · intro hm
    obtain ⟨i, hi⟩ := (h.part.mem_iff m).mp hm
    obtain ⟨bv, hbv⟩ : ∃ bv, vm.boVas i = some bv := by
      rw [← Option.ne_none_iff_exists']
      intro hnone
      simp [Vm.mappingsOf, hnone] at hi
    have hnd := h.part.nodup i
    rw [Vm.mappingsOf_eq hbv, BoVa.mappings] at hi hnd
    obtain ⟨-, -, hdisj⟩ := List.nodup_append'.mp hnd
    -- another list with `m` belongs to the same `bo_va`, and its two lists are disjoint
    have hother : ∀ b, ∀ k, m ∈ (if b then bv.valids else bv.invalids) → vm.OnList k m →
        k = (i, b) := by
      rintro b ⟨i', b'⟩ hb hk
      obtain rfl : i' = i := h.part.unique hk.mem_mappingsOf
        (by rwa [Vm.mappingsOf_eq hbv, BoVa.mappings])
      obtain ⟨bv', hbv', hm'⟩ := hk
      obtain rfl : bv = bv' := Option.some.inj (hbv.symm.trans hbv')
      cases b <;> cases b'
      · rfl
      · exact absurd hb (hdisj hm')
      · exact absurd hm' (hdisj hb)
      · rfl
    rcases List.mem_append.mp hi with hv | hv
    · exact ⟨(i, true), ⟨bv, hbv, hv⟩, fun k hk => hother true k hv hk⟩
    · exact ⟨(i, false), ⟨bv, hbv, hv⟩, fun k hk => hother false k hv hk⟩
  · rintro ⟨k, hk, -⟩
    exact h.part.mem hk.mem_mappingsOf

/-- The agreement of tree, lists and page tables in terms of pages and lists: the mappings of
the tree are disjoint, each of them is on exactly one list and on no list twice, freed mappings
are not in the tree, and the page tables of the tree exist. -/
structure Vm.TreeAndLists (vm : Vm cfg) : Prop where
  disjoint : vm.va.Pairwise fun m m' => ∀ p, ¬ (m.Contains p ∧ m'.Contains p)
  mem_va_iff : ∀ m, m ∈ vm.va ↔ ∃! k, vm.OnList k m
  nodup : ∀ i bv, vm.boVas i = some bv → bv.valids.Nodup ∧ bv.invalids.Nodup
  freed : ∀ m ∈ vm.freed, ∀ m' ∈ vm.va, m.id ≠ m'.id
  tables : ∀ m ∈ vm.va, ∀ j, m.UsesTable cfg j → vm.tables j ≠ none ∧ j ≤ vm.maxPdeUsed

/-- The invariant is what should hold, and more. -/
theorem Vm.Wf.treeAndLists {vm : Vm cfg} (h : vm.Wf) : vm.TreeAndLists where
  disjoint := h.disjoint.imp fun hno p hp => hno
    ⟨hp.1.1.trans hp.2.2, hp.2.1.trans hp.1.2⟩
  mem_va_iff := h.mem_va_iff
  nodup i bv hbv := by
    have hnd := h.part.nodup i
    rw [Vm.mappingsOf_eq hbv] at hnd
    exact ⟨hnd.of_append_left, hnd.of_append_right⟩
  freed m hm m' hm' heq := by
    obtain rfl := h.ids m m' (.inr hm) (.inl hm') heq
    exact h.freed m hm hm'
  tables m hm j hj := ⟨(h.known m (.inl hm)).tables j hj, (h.known m (.inl hm)).le_maxPdeUsed j hj⟩

/-- A request that fails leaves the tree and all lists as they were. -/
theorem vmBoMap_error_frame {vm vm' : Vm cfg} {i : ℕ} {bv : BoVa} (hbv : vm.boVas i = some bv)
    {saddr offset size : BitVec 64} {flags : BitVec 32} {env : MapEnv} {e : Errno}
    (hret : vmBoMap i bv saddr offset size flags env vm = .ret vm' (some e)) :
    vm' = { vm with
      maxPdeUsed := vm'.maxPdeUsed, tables := vm'.tables, pts := vm'.pts,
      nextId := vm'.nextId } := by
  obtain ⟨hnone, -⟩ | ⟨vm₁, rfl, hg⟩ | rfl := vmBoMap_ret hbv hret
  · cases hnone
  · rw [hg.eq]
    rfl
  · rfl

/-- A request whose end in the buffer object fits 64 bits and whose last page number fits 32
bits. -/
def NoWrap (saddr offset size : BitVec 64) : Prop :=
  offset.toNat + size.toNat < 2 ^ 64 ∧ (saddr.toNat + size.toNat - 1) / gpuPageSize < 2 ^ 32

/-- A request that does not wrap returns. -/
theorem vmBoMap_returns {vm : Vm cfg} {i : ℕ} {bv : BoVa} (hbv : vm.boVas i = some bv)
    {saddr offset size : BitVec 64} (hwrap : NoWrap saddr offset size) (flags : BitVec 32)
    (env : MapEnv) : ∃ vm' r, vmBoMap i bv saddr offset size flags env vm = .ret vm' r := by
  have hsafe := vmBoMap_mapSafe i bv saddr offset size flags vm hbv (fun _ => hwrap) env
  cases hrun : vmBoMap i bv saddr offset size flags env vm with
  | ret vm' r => exact ⟨vm', r, rfl⟩
  | bug vm' => exact absurd hrun (hsafe.no_bug vm')

/-- **Tree and lists in every state.** After every sequence of calls on a VM, tree, lists and
page tables agree; a map request that fails changes neither the tree nor a list, and one that
does not wrap returns. -/
theorem vm_tree_and_lists (dev : VmDevice) (pts : PtStore) (cs : List (VmCall cfg)) (vm : Vm cfg)
    (hrun : Transition.Run (VmStep dev) (Vm.init cfg pts) cs vm) :
    vm.TreeAndLists ∧
    (∀ i saddr offset size flags env vm' e,
      VmReturns dev vm (.map i saddr offset size flags env) vm' (some e) →
      vm'.va = vm.va ∧ vm'.boVas = vm.boVas ∧ vm'.freed = vm.freed ∧
        vm'.invalidated = vm.invalidated ∧ vm'.cleared = vm.cleared ∧ vm'.boList = vm.boList) ∧
    (∀ i saddr offset size flags env, vm.boVas i ≠ none → NoWrap saddr offset size →
      ∃ vm' r, VmReturns dev vm (.map i saddr offset size flags env) vm' r) := by
  refine ⟨(Vm.Wf.run hrun).treeAndLists, ?_, ?_⟩
  · intro i saddr offset size flags env vm' e hret
    obtain ⟨bv, hbv, hret⟩ := Option.map_eq_some_iff.mp hret
    rw [vmBoMap_error_frame hbv hret]
    exact ⟨rfl, rfl, rfl, rfl, rfl, rfl⟩
  · intro i saddr offset size flags env hne hwrap
    obtain ⟨bv, hbv⟩ := Option.ne_none_iff_exists'.mp hne
    obtain ⟨vm', r, hret⟩ := vmBoMap_returns hbv hwrap flags env
    exact ⟨vm', r, by rw [VmReturns, VmCall.run, hbv, Option.map_some, hret]⟩

/-- A device without VRAM and GART offsets. -/
def bareDevice : VmDevice := ⟨fun _ => Pte.zero, 0, fun _ => 0, false⟩

/-- The VM after a call that returns, and what it returns. -/
def VmCall.returned (dev : VmDevice) (vm : Vm cfg) (c : VmCall cfg) :
    Option (Vm cfg × Option Errno) :=
  match c.run dev vm with
  | some (.ret vm' r) => some (vm', r)
  | _ => none

/-- What was computed is what the call returns. -/
theorem vmReturns_of_returned {dev : VmDevice} {vm vm' : Vm cfg} {c : VmCall cfg}
    {r : Option Errno} (h : c.returned dev vm = some (vm', r)) : VmReturns dev vm c vm' r := by
  rw [VmCall.returned] at h
  split at h
  · next heq =>
    obtain ⟨rfl, rfl⟩ := Prod.mk.inj (Option.some.inj h)
    exact heq
  · cases h

/-- Both pages of a buffer object are mapped, at 8 MiB and 8 KiB behind; the second page is mapped
there once more, and the first mapping is removed. -/
def twoPagesCalls : List (VmCall (checkArguments 8 9)) :=
  [.add ⟨0, 8192⟩ true, .map 0 0x800000 0 4096 pteReadable .allOk,
    .map 0 0x802000 4096 4096 pteReadable .allOk, .map 0 0x802000 4096 4096 pteReadable .allOk,
    .unmap 0 0x800000]

/-- The calls of `twoPagesCalls` leave one mapping, and a third attempt to map a page over it fails
and changes nothing. -/
theorem vm_tree_and_lists_twoPages : ∃ vm vm' : Vm (checkArguments 8 9),
    vm.TreeAndLists ∧ vm.va.map (·.start) = [0x802] ∧
      VmReturns bareDevice vm (.map 0 0x802000 0 4096 pteReadable .allOk) vm' (some .EINVAL) ∧
      vm'.va = vm.va := by
  have heval : (twoPagesCalls.foldlM (fun vm c => (VmCall.returned bareDevice vm c).map Prod.fst)
      (Vm.init (checkArguments 8 9) ⟨fun _ => Pte.zero, fun _ => Pte.zero⟩)).map
        (fun vm => (vm.va.map (·.start), (VmCall.returned bareDevice vm
          (.map 0 0x802000 0 4096 pteReadable .allOk)).map Prod.snd)) =
      some ([0x802], some (some Errno.EINVAL)) := by decide +kernel
  obtain ⟨vm, hrun, hvm⟩ := Transition.Run.exists_of_eval heval
  obtain ⟨hva, hresult⟩ := Prod.mk.inj hvm
  obtain ⟨⟨vm', r⟩, hreturned, rfl⟩ := Option.map_eq_some_iff.mp hresult
  have hreturns := vmReturns_of_returned hreturned
  have hstep : ∀ s c t, (VmCall.returned bareDevice s c).map Prod.fst = some t →
      @VmStep (checkArguments 8 9) bareDevice s c t := by
    intro s c t h
    obtain ⟨⟨_, r⟩, hr, rfl⟩ := Option.map_eq_some_iff.mp h
    exact ⟨r, vmReturns_of_returned hr⟩
  obtain ⟨htree, hframe, -⟩ := vm_tree_and_lists bareDevice _ _ vm (hrun.mono hstep)
  exact ⟨vm, vm', htree, hva, hreturns, (hframe _ _ _ _ _ _ _ _ hreturns).1⟩

end Amdgpu
