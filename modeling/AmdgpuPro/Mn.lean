import AmdgpuPro.Lib.Transition
import AmdgpuPro.Ttm.Memory

set_option autoImplicit false

/-!
# Notifiers for user memory

Buffer objects of user memory are registered in a tree of intervals of the address space, so that
they can be unmapped when the memory management changes a page or a range. `amdgpu_mn_register`
merges all nodes that overlap the range of the buffer object into one; `amdgpu_mn_unregister` takes
a buffer object off its node, and frees the node if the list behind it is empty.

Nothing checks the address range of a buffer object when it is created. The end of a range that is
not below the end of the address space wraps around, and `amdgpu_ttm_tt_affect_userptr` takes the
address `0` for no user memory; such buffer objects are not found by invalidations.

## Main definitions

* `Amdgpu.mnRegister`, `mnUnregister`, `mnDestroy` — the tree is changed.
* `mnInvalidatePage`, `mnInvalidateRange` — the buffer objects that are unmapped.
* `MnSound` — nodes are disjoint and not empty, every registered buffer object is on one node that
  covers it, and is unmapped by every invalidation of a part of it.
* `UserBo.Inside` — the range is inside the address space, and not at `0`.

## Main results

* `Amdgpu.mn_sound_iff` — all states of a run are sound if and only if the ranges of all buffer
  objects that are registered are inside the address space.

## Design

There is a tree for each `mm_struct`, which is the list of its nodes in some order; a search finds
a node that overlaps an interval if there is one. `amdgpu_gem_userptr_ioctl` registers a buffer
object once, after it made it. A task that is getting the pages of a buffer object itself does not
unmap it.
-/

namespace Amdgpu

/-! ## Functions -/

/-- A buffer object of user memory, as `amdgpu_gem_userptr_ioctl` makes it. -/
structure UserBo where
  userptr : ℕ
  userptr_lt : userptr < 2 ^ 64
  userptr_dvd : pageSize ∣ userptr
  size : ℕ
  size_pos : 0 < size
  size_lt : size < 2 ^ 64
  size_dvd : pageSize ∣ size

/-- `addr + amdgpu_bo_size(bo) - 1` -/
def UserBo.last (b : UserBo) : ℕ := (b.userptr + b.size - 1) % 2 ^ 64

/-- `amdgpu_mn_node` -/
structure MnNode where
  start : ℕ
  last : ℕ
  bos : List ℕ
  deriving DecidableEq

/-- What a search of the interval tree finds. -/
def MnNode.overlaps (start last : ℕ) (node : MnNode) : Bool :=
  node.start ≤ last && start ≤ node.last

/-- The trees of all `mm_struct`s, and `bo->mn` of all buffer objects. -/
structure MnState where
  objects : ℕ → List MnNode
  mn : ℕ → Option ℕ

/-- The variables of `amdgpu_mn_register` with the tree it changes. -/
structure MnMerge where
  /-- `node` is not `NULL` -/
  found : Bool
  addr : ℕ
  last : ℕ
  bos : List ℕ
  objects : List MnNode

/-- The loop body of `amdgpu_mn_register` for the node that was found. -/
def MnMerge.absorb (m : MnMerge) (it : MnNode) : MnMerge where
  found := true
  addr := min it.start m.addr
  last := max it.last m.last
  bos := it.bos ++ m.bos
  objects := m.objects.eraseP (MnNode.overlaps m.addr m.last)

/-- The loop of `amdgpu_mn_register`. Every iteration removes a node, so the number of nodes is
enough fuel. -/
def mnMergeLoop : ℕ → MnMerge → MnMerge
  | 0, m => m
  | n + 1, m =>
    match m.objects.find? (MnNode.overlaps m.addr m.last) with
    | none => m
    | some it => mnMergeLoop n (m.absorb it)

section Model

variable (bos : ℕ → UserBo)

/-- `amdgpu_mn_register` for a process with the memory `mm`; `mnGet` is what `amdgpu_mn_get`
returns, and `kmalloc` whether there is memory for a node. -/
def mnRegister (bo mm : ℕ) (mnGet : Option Errno) (kmalloc : Bool) (s : MnState) :
    Outcome MnState :=
  if mnGet.isSome then .ret s mnGet
  else
    let m := mnMergeLoop (s.objects mm).length
      ⟨false, (bos bo).userptr, (bos bo).last, [], s.objects mm⟩
    if !m.found && !kmalloc then .ret s (some .ENOMEM)
    else
      .ret ⟨Function.update s.objects mm (⟨m.addr, m.last, bo :: m.bos⟩ :: m.objects),
        Function.update s.mn bo (some mm)⟩ none

/-- `bo->mn_list.next`, where `none` is the head of the list -/
def mnListNext (list : List ℕ) (bo : ℕ) : Option ℕ := (list.dropWhile (· ≠ bo)).tail.head?

/-- `list_empty` of a head or of an entry of a list; the neighbour of an entry is not the entry. -/
def listEmptyAt (list : List ℕ) (head : Option ℕ) : Bool := head.isNone && list.isEmpty

/-- A buffer object is taken off its node, which is freed if `list_empty(head)`. -/
def MnNode.unlink (bo : ℕ) (node : MnNode) : Option MnNode :=
  if bo ∈ node.bos then
    if listEmptyAt (node.bos.erase bo) (mnListNext node.bos bo) then none
    else some { node with bos := node.bos.erase bo }
  else some node

/-- `amdgpu_mn_unregister` -/
def mnUnregister (bo : ℕ) (s : MnState) : MnState :=
  match s.mn bo with
  | none => s
  | some mm =>
    ⟨Function.update s.objects mm ((s.objects mm).filterMap (MnNode.unlink bo)),
      Function.update s.mn bo none⟩

/-- `amdgpu_mn_destroy` -/
def mnDestroy (mm : ℕ) (s : MnState) : MnState where
  objects := Function.update s.objects mm []
  mn := fun bo => if ∃ node ∈ s.objects mm, bo ∈ node.bos then none else s.mn bo

/-- `amdgpu_ttm_tt_affect_userptr` for the task `task`; `guptasks` are the tasks that get the pages
of the buffer object. -/
def affectUserptr (b : UserBo) (guptasks : List ℕ) (task start last : ℕ) : Bool :=
  if b.userptr = 0 then false
  else if b.userptr > last ∨ (b.userptr + b.size) % 2 ^ 64 ≤ start then false
  else !guptasks.contains task

variable (guptasks : ℕ → List ℕ) (task : ℕ)

/-- The buffer objects that `amdgpu_mn_invalidate_node` unmaps. -/
def mnInvalidateNode (start last : ℕ) (node : MnNode) : List ℕ :=
  node.bos.filter fun bo => affectUserptr (bos bo) (guptasks bo) task start last

/-- The buffer objects that `amdgpu_mn_invalidate_page` unmaps. -/
def mnInvalidatePage (s : MnState) (mm address : ℕ) : List ℕ :=
  match (s.objects mm).find? (MnNode.overlaps address address) with
  | none => []
  | some node => mnInvalidateNode bos guptasks task address address node

/-- The buffer objects that `amdgpu_mn_invalidate_range_start` unmaps. -/
def mnInvalidateRange (s : MnState) (mm start stop : ℕ) : List ℕ :=
  let last := (stop + 2 ^ 64 - 1) % 2 ^ 64
  ((s.objects mm).filter (MnNode.overlaps start last)).flatMap
    (mnInvalidateNode bos guptasks task start last)

end Model

/-- What happens to the trees. -/
inductive MnOp
  | register (bo mm : ℕ) (mnGet : Option Errno) (kmalloc : Bool)
  | unregister (bo : ℕ)
  /-- the memory of a process goes away -/
  | destroy (mm : ℕ)

/-- One call; a registered buffer object is not registered again. -/
def mnStep (bos : ℕ → UserBo) (s : MnState) : MnOp → Option MnState
  | .register bo mm mnGet kmalloc =>
    if s.mn bo = none then some (mnRegister bos bo mm mnGet kmalloc s).state else none
  | .unregister bo => some (mnUnregister bo s)
  | .destroy mm => some (mnDestroy mm s)

/-- Nothing is registered. -/
def MnState.init : MnState := ⟨fun _ => [], fun _ => none⟩

/-! ## Property and condition -/

/-- The addresses of a buffer object. -/
def UserBo.Contains (b : UserBo) (x : ℕ) : Prop := ∃ k < b.size, x = (b.userptr + k) % 2 ^ 64

/-- The addresses of a node. -/
def MnNode.Contains (node : MnNode) (x : ℕ) : Prop := node.start ≤ x ∧ x ≤ node.last

/-- The nodes of each tree are disjoint and not empty. A registered buffer object is on one node of
its tree, which covers it, and on no other tree; and it is unmapped, unless by a task that is
getting its pages, when a page or a range with a part of it is invalidated. -/
structure MnSound (bos : ℕ → UserBo) (s : MnState) : Prop where
  disjoint : ∀ mm, (s.objects mm).Pairwise fun a b => ∀ x, ¬ (a.Contains x ∧ b.Contains x)
  nonempty : ∀ mm, ∀ node ∈ s.objects mm, node.bos ≠ []
  once : ∀ mm bo, ((s.objects mm).flatMap MnNode.bos).count bo = if s.mn bo = some mm then 1 else 0
  covers : ∀ mm, ∀ node ∈ s.objects mm, ∀ bo ∈ node.bos, ∀ x, (bos bo).Contains x →
    node.Contains x
  page : ∀ guptasks task mm bo address x, s.mn bo = some mm → task ∉ guptasks bo →
    (bos bo).Contains x → x / pageSize = address / pageSize →
    bo ∈ mnInvalidatePage bos guptasks task s mm address
  range : ∀ guptasks task mm bo start stop x, s.mn bo = some mm → task ∉ guptasks bo →
    (bos bo).Contains x → start ≤ x → x < stop → stop < 2 ^ 64 →
    bo ∈ mnInvalidateRange bos guptasks task s mm start stop

/-- The range is not at `0`, and ends inside the address space. -/
def UserBo.Inside (b : UserBo) : Prop := b.userptr ≠ 0 ∧ b.userptr + b.size < 2 ^ 64

instance (b : UserBo) : Decidable b.Inside := inferInstanceAs (Decidable (_ ∧ _))

/-- Whether there is a notifier and a node for the buffer object. -/
def MnRegistered (bos : ℕ → UserBo) (s : MnState) (bo mm : ℕ) (mnGet : Option Errno)
    (kmalloc : Bool) : Prop :=
  mnGet = none ∧ (kmalloc = true ∨ ∃ node ∈ s.objects mm,
    node.overlaps (bos bo).userptr (bos bo).last = true)

/-- A buffer object that gets registered is inside the address space. -/
def MnOp.RegistersInside (bos : ℕ → UserBo) (s : MnState) : MnOp → Prop
  | .register bo mm mnGet kmalloc => MnRegistered bos s bo mm mnGet kmalloc → (bos bo).Inside
  | _ => True

/-! ## Buffer objects inside the address space -/

section Inside

variable {b : UserBo}

/-- The addresses of a range inside the address space. -/
theorem UserBo.Inside.contains_iff (h : b.Inside) (x : ℕ) :
    b.Contains x ↔ b.userptr ≤ x ∧ x < b.userptr + b.size := by
  have hlt := h.2
  constructor
  · rintro ⟨k, hk, rfl⟩
    omega
  · rintro ⟨hlo, hhi⟩
    exact ⟨x - b.userptr, by omega, by omega⟩

/-- Its end. -/
theorem UserBo.Inside.last_eq (h : b.Inside) : b.last + 1 = b.userptr + b.size := by
  have hlt := h.2
  have hpos := b.size_pos
  rw [UserBo.last]
  omega

/-- A buffer object has whole pages. -/
theorem UserBo.Inside.contains_page (h : b.Inside) {x address : ℕ} (hx : b.Contains x)
    (hpage : x / pageSize = address / pageSize) : b.Contains address := by
  obtain ⟨m, hm⟩ := b.userptr_dvd
  obtain ⟨n, hn⟩ := b.size_dvd
  rw [h.contains_iff, hm, hn] at hx ⊢
  simp only [pageSize, pageShift] at hx hpage ⊢
  omega

/-- A buffer object passes the test for an interval it has an address of. -/
theorem UserBo.Inside.affect (h : b.Inside) {guptasks : List ℕ} {task start last x : ℕ}
    (hx : b.Contains x) (hstart : start ≤ x) (hlast : x ≤ last) (htask : task ∉ guptasks) :
    affectUserptr b guptasks task start last = true := by
  obtain ⟨hlo, hhi⟩ := (h.contains_iff x).mp hx
  have hlt := h.2
  rw [affectUserptr, if_neg h.1, if_neg (by omega)]
  simpa using htask

/-- A buffer object that passes the test for its first address is inside the address space. -/
theorem UserBo.inside_of_affect {guptasks : List ℕ} {task : ℕ}
    (h : affectUserptr b guptasks task b.userptr b.userptr = true) : b.Inside := by
  have hptr := b.userptr_lt
  have hpos := b.size_pos
  have hsize := b.size_lt
  rw [affectUserptr] at h
  split_ifs at h with hzero hrange
  exact ⟨hzero, by omega⟩

/-- No range is empty. -/
theorem UserBo.contains_userptr (b : UserBo) : b.Contains b.userptr :=
  ⟨0, b.size_pos, by rw [Nat.add_zero, Nat.mod_eq_of_lt b.userptr_lt]⟩

end Inside

/-! ## Invariant -/

/-- A node is an interval with buffer objects inside of it. -/
structure MnNode.Wf (bos : ℕ → UserBo) (node : MnNode) : Prop where
  le : node.start ≤ node.last
  nonempty : node.bos ≠ []
  within : ∀ bo ∈ node.bos, (bos bo).Inside ∧ node.start ≤ (bos bo).userptr ∧
    (bos bo).userptr + (bos bo).size ≤ node.last + 1

/-- Two nodes are apart. -/
def MnNode.Apart (a b : MnNode) : Prop := a.last < b.start ∨ b.last < a.start

instance : Std.Symm MnNode.Apart := ⟨fun _ _ => Or.symm⟩

/-- The nodes are apart, and every registered buffer object is on one of them. -/
structure MnInv (bos : ℕ → UserBo) (s : MnState) : Prop where
  wf : ∀ mm, ∀ node ∈ s.objects mm, node.Wf bos
  apart : ∀ mm, (s.objects mm).Pairwise MnNode.Apart
  once : ∀ mm bo, ((s.objects mm).flatMap MnNode.bos).count bo = if s.mn bo = some mm then 1 else 0

/-- When a node is found. -/
theorem MnNode.overlaps_iff {start last : ℕ} {node : MnNode} :
    node.overlaps start last = true ↔ node.start ≤ last ∧ start ≤ node.last := by
  simp [MnNode.overlaps]

section Sound

variable {bos : ℕ → UserBo} {s : MnState}

/-- At the start. -/
theorem MnInv.init (bos : ℕ → UserBo) : MnInv bos .init where
  wf := fun _ _ h => absurd h List.not_mem_nil
  apart := fun _ => .nil
  once := fun _ _ => rfl

/-- A registered buffer object is on a node. -/
theorem MnInv.exists_node (h : MnInv bos s) {mm bo : ℕ} (hbo : s.mn bo = some mm) :
    ∃ node ∈ s.objects mm, bo ∈ node.bos := by
  have hcount := h.once mm bo
  rw [if_pos hbo] at hcount
  exact List.mem_flatMap.mp (List.count_pos_iff.mp (by omega))

/-- Only one node contains an address. -/
theorem MnInv.node_unique (h : MnInv bos s) {mm x : ℕ} {a b : MnNode} (ha : a ∈ s.objects mm)
    (hb : b ∈ s.objects mm) (hxa : a.Contains x) (hxb : b.Contains x) : a = b := by
  by_contra hne
  rcases (h.apart mm).forall ha hb hne with hab | hba
  · exact absurd (hxa.2.trans_lt hab) (not_lt.mpr hxb.1)
  · exact absurd (hxb.2.trans_lt hba) (not_lt.mpr hxa.1)

/-- **The invariant is enough**: invalidations find the nodes of the buffer objects they hit. -/
theorem MnInv.sound (h : MnInv bos s) : MnSound bos s where
  disjoint := fun mm => (h.apart mm).imp fun {a b} hab x hx => by
    obtain ⟨⟨hxa, hxa'⟩, hxb, hxb'⟩ := hx
    rcases hab with hab | hab <;> omega
  nonempty := fun mm node hnode => (h.wf mm node hnode).nonempty
  once := h.once
  covers := fun mm node hnode bo hbo x hx => by
    obtain ⟨hin, hstart, hlast⟩ := (h.wf mm node hnode).within bo hbo
    obtain ⟨hlo, hhi⟩ := (hin.contains_iff x).mp hx
    exact ⟨by omega, by omega⟩
  page := fun guptasks task mm bo address x hmn htask hx hpage => by
    obtain ⟨node, hnode, hbo⟩ := h.exists_node hmn
    obtain ⟨hin, hstart, hlast⟩ := (h.wf mm node hnode).within bo hbo
    have haddress := hin.contains_page hx hpage
    obtain ⟨hlo, hhi⟩ := (hin.contains_iff address).mp haddress
    have hcontains : node.Contains address := ⟨by omega, by omega⟩
    obtain ⟨found, hfound⟩ : ∃ found,
        (s.objects mm).find? (MnNode.overlaps address address) = some found := by
      refine Option.isSome_iff_exists.mp (List.find?_isSome.mpr ⟨node, hnode, ?_⟩)
      exact MnNode.overlaps_iff.mpr hcontains
    have hfound_contains : found.Contains address :=
      MnNode.overlaps_iff.mp (List.find?_some hfound)
    obtain rfl := h.node_unique (List.mem_of_find?_eq_some hfound) hnode hfound_contains hcontains
    rw [mnInvalidatePage, hfound]
    exact List.mem_filter.mpr ⟨hbo, hin.affect haddress le_rfl le_rfl htask⟩
  range := fun guptasks task mm bo start stop x hmn htask hx hlo hhi hstop => by
    obtain ⟨node, hnode, hbo⟩ := h.exists_node hmn
    obtain ⟨hin, hstart, hlast⟩ := (h.wf mm node hnode).within bo hbo
    obtain ⟨hlo', hhi'⟩ := (hin.contains_iff x).mp hx
    have hend : (stop + 2 ^ 64 - 1) % 2 ^ 64 = stop - 1 := by omega
    rw [mnInvalidateRange, hend]
    refine List.mem_flatMap.mpr ⟨node, List.mem_filter.mpr ⟨hnode, ?_⟩,
      List.mem_filter.mpr ⟨hbo, hin.affect hx hlo (by omega) htask⟩⟩
    exact MnNode.overlaps_iff.mpr ⟨by omega, by omega⟩

end Sound

/-! ## Merging -/

section Merge

variable {bos : ℕ → UserBo} {all : List MnNode} {m : MnMerge}

/-- What the loop keeps: the nodes that are left and the buffer objects that were collected are
those of the tree, and the interval covers what was collected, and the range `first`. -/
structure MnMerge.Inv (bos : ℕ → UserBo) (all : List MnNode) (first : UserBo) (m : MnMerge) :
    Prop where
  sublist : m.objects.Sublist all
  count : ∀ bo, (m.objects.flatMap MnNode.bos).count bo + m.bos.count bo =
    (all.flatMap MnNode.bos).count bo
  start : m.addr ≤ first.userptr
  last : first.userptr + first.size ≤ m.last + 1
  within : ∀ bo ∈ m.bos, (bos bo).Inside ∧ m.addr ≤ (bos bo).userptr ∧
    (bos bo).userptr + (bos bo).size ≤ m.last + 1

/-- One node is merged. -/
theorem MnMerge.Inv.absorb {first : UserBo} {it : MnNode} (h : m.Inv bos all first)
    (hall : ∀ node ∈ all, node.Wf bos)
    (hit : m.objects.find? (MnNode.overlaps m.addr m.last) = some it) :
    (m.absorb it).Inv bos all first := by
  have hmem := List.mem_of_find?_eq_some hit
  have hwf := hall it (h.sublist.mem hmem)
  obtain ⟨l₁, l₂, hsplit, herase⟩ : ∃ l₁ l₂, m.objects = l₁ ++ it :: l₂ ∧
      m.objects.eraseP (MnNode.overlaps m.addr m.last) = l₁ ++ l₂ := by
    obtain ⟨hover, l₁, l₂, hsplit, hnot⟩ := List.find?_eq_some_iff_append.mp hit
    refine ⟨l₁, l₂, hsplit, ?_⟩
    rw [hsplit, List.eraseP_append_right _ (by simpa using hnot), List.eraseP_cons_of_pos hover]
  refine ⟨?_, fun bo => ?_, ?_, ?_, fun bo hbo => ?_⟩
  · exact List.eraseP_sublist.trans h.sublist
  · have hcount := h.count bo
    rw [hsplit, List.flatMap_append, List.flatMap_cons] at hcount
    rw [MnMerge.absorb, herase, List.flatMap_append]
    simp only [List.count_append] at hcount ⊢
    omega
  · exact (min_le_right _ _).trans h.start
  · exact h.last.trans (Nat.succ_le_succ (le_max_right _ _))
  · simp only [MnMerge.absorb, List.mem_append] at hbo ⊢
    rcases hbo with hbo | hbo
    · obtain ⟨hin, hstart, hlast⟩ := hwf.within bo hbo
      exact ⟨hin, by omega, by omega⟩
    · obtain ⟨hin, hstart, hlast⟩ := h.within bo hbo
      exact ⟨hin, by omega, by omega⟩

/-- All rounds of the loop. -/
theorem mnMergeLoop_inv {first : UserBo} (hall : ∀ node ∈ all, node.Wf bos) {n : ℕ}
    (h : m.Inv bos all first) : (mnMergeLoop n m).Inv bos all first := by
  induction n generalizing m with
  | zero => exact h
  | succ n ih =>
    rw [mnMergeLoop]
    split
    · exact h
    · next it hit => exact ih (h.absorb hall hit)

/-- The loop ends when nothing overlaps the interval any more. -/
theorem mnMergeLoop_done {n : ℕ} (hn : m.objects.length ≤ n) :
    ∀ node ∈ (mnMergeLoop n m).objects,
      node.overlaps (mnMergeLoop n m).addr (mnMergeLoop n m).last = false := by
  induction n generalizing m with
  | zero =>
    intro node hnode
    rw [mnMergeLoop, List.length_eq_zero_iff.mp (Nat.le_zero.mp hn)] at hnode
    cases hnode
  | succ n ih =>
    rw [mnMergeLoop]
    split
    · next hnone => exact fun node hnode => by simpa using List.find?_eq_none.mp hnone node hnode
    · next it hit =>
      refine ih ?_
      have hlen := List.length_eraseP_of_mem (List.mem_of_find?_eq_some hit) (List.find?_some hit)
      rw [MnMerge.absorb, hlen]
      omega

/-- What is found stays found. -/
theorem mnMergeLoop_found_of_found {n : ℕ} (h : m.found = true) :
    (mnMergeLoop n m).found = true := by
  induction n generalizing m with
  | zero => exact h
  | succ n ih =>
    rw [mnMergeLoop]
    split
    · exact h
    · exact ih rfl

/-- A node is found if and only if there is one that overlaps the range. -/
theorem mnMergeLoop_found (h : m.found = false) :
    (mnMergeLoop m.objects.length m).found = true ↔
      ∃ node ∈ m.objects, node.overlaps m.addr m.last = true := by
  rw [← List.find?_isSome]
  cases hlen : m.objects.length with
  | zero =>
    rw [mnMergeLoop, List.length_eq_zero_iff.mp hlen, h]
    simp
  | succ n =>
    rw [mnMergeLoop]
    cases hit : m.objects.find? (MnNode.overlaps m.addr m.last) with
    | none => simp [h]
    | some it => simp [mnMergeLoop_found_of_found, MnMerge.absorb]

end Merge

/-! ## Calls -/

section Calls

variable {bos : ℕ → UserBo} {s t : MnState} {bo mm : ℕ}

/-- **A buffer object is registered** inside the address space. -/
theorem MnInv.register (h : MnInv bos s) (hbo : s.mn bo = none) (hin : (bos bo).Inside)
    (mnGet : Option Errno) (kmalloc : Bool) :
    MnInv bos (mnRegister bos bo mm mnGet kmalloc s).state := by
  rw [mnRegister]
  split_ifs with hget
  · exact h
  dsimp only
  have hinv : (⟨false, (bos bo).userptr, (bos bo).last, [], s.objects mm⟩ : MnMerge).Inv bos
      (s.objects mm) (bos bo) := by
    refine ⟨List.Sublist.refl _, fun _ => rfl, le_rfl, hin.last_eq.ge, ?_⟩
    simp
  have hloop := mnMergeLoop_inv (h.wf mm) (n := (s.objects mm).length) hinv
  have hdone := mnMergeLoop_done (m := ⟨false, (bos bo).userptr, (bos bo).last, [], s.objects mm⟩)
    (n := (s.objects mm).length) le_rfl
  set m := mnMergeLoop (s.objects mm).length
    ⟨false, (bos bo).userptr, (bos bo).last, [], s.objects mm⟩
  split_ifs
  · exact h
  have hpos := (bos bo).size_pos
  refine ⟨fun mm' node hnode => ?_, fun mm' => ?_, fun mm' b => ?_⟩
  · by_cases hmm : mm' = mm
    · subst hmm
      simp only [Outcome.state_ret, Function.update_self, List.mem_cons] at hnode
      rcases hnode with rfl | hnode
      · refine ⟨?_, List.cons_ne_nil _ _, ?_⟩
        · have hstart := hloop.start
          have hlast := hloop.last
          dsimp only
          omega
        · exact List.forall_mem_cons.mpr ⟨⟨hin, hloop.start, hloop.last⟩, hloop.within⟩
      · exact h.wf _ node (hloop.sublist.mem hnode)
    · simp only [Outcome.state_ret, Function.update_of_ne hmm] at hnode
      exact h.wf mm' node hnode
  · by_cases hmm : mm' = mm
    · subst hmm
      simp only [Outcome.state_ret, Function.update_self]
      refine .cons (fun node hnode => ?_) ((h.apart _).sublist hloop.sublist)
      have hover := hdone node hnode
      rw [← Bool.not_eq_true, MnNode.overlaps_iff] at hover
      simp only [MnNode.Apart]
      omega
    · simp only [Outcome.state_ret, Function.update_of_ne hmm]
      exact h.apart mm'
  · have hcount := h.once mm' b
    by_cases hmm : mm' = mm
    · subst hmm
      have hsum := hloop.count b
      simp only [Outcome.state_ret, Function.update_self, List.flatMap_cons, List.count_append,
        List.count_cons]
      by_cases hb : b = bo
      · subst hb
        rw [hbo] at hcount
        simp only [reduceCtorEq, if_false, if_true, BEq.rfl, Function.update_self] at hcount ⊢
        omega
      · simp only [Function.update_of_ne hb, beq_iff_eq, Ne.symm hb, if_false]
        omega
    · simp only [Outcome.state_ret, Function.update_of_ne hmm]
      rw [hcount]
      by_cases hb : b = bo
      · subst hb
        simp [hbo, Ne.symm hmm]
      · simp [hb]

variable {mnGet : Option Errno} {kmalloc : Bool}

/-- Whether the loop finds a node. -/
theorem mnRegister_found :
    (mnMergeLoop (s.objects mm).length
      ⟨false, (bos bo).userptr, (bos bo).last, [], s.objects mm⟩).found = true ↔
    ∃ node ∈ s.objects mm, node.overlaps (bos bo).userptr (bos bo).last = true :=
  mnMergeLoop_found (m := ⟨false, (bos bo).userptr, (bos bo).last, [], s.objects mm⟩) rfl

/-- A call that succeeds. -/
theorem mnRegister_mn (h : MnRegistered bos s bo mm mnGet kmalloc) :
    (mnRegister bos bo mm mnGet kmalloc s).state.mn bo = some mm := by
  obtain ⟨rfl, hnode⟩ := h
  rw [← mnRegister_found] at hnode
  rw [mnRegister, if_neg (by simp)]
  dsimp only
  rw [if_neg (by rcases hnode with hnode | hnode <;> simp [hnode])]
  exact Function.update_self ..

/-- A call that fails changes nothing. -/
theorem mnRegister_state (h : ¬ MnRegistered bos s bo mm mnGet kmalloc) :
    (mnRegister bos bo mm mnGet kmalloc s).state = s := by
  cases mnGet with
  | some e => rfl
  | none =>
    rw [MnRegistered, ← mnRegister_found] at h
    rw [mnRegister, if_neg (by simp)]
    dsimp only
    rw [if_pos (by simpa [and_comm] using h)]
    rfl

/-- The neighbour of a buffer object is the head of an empty list if and only if the node has no
other buffer object. -/
theorem listEmptyAt_next {list : List ℕ} (h : bo ∈ list) :
    listEmptyAt (list.erase bo) (mnListNext list bo) = true ↔ list.erase bo = [] := by
  simp only [listEmptyAt, Bool.and_eq_true, List.isEmpty_iff]
  refine ⟨And.right, fun hempty => ⟨?_, hempty⟩⟩
  have hperm := List.perm_cons_erase h
  rw [hempty] at hperm
  simp [List.perm_singleton.mp hperm, mnListNext]

/-- A node without buffer objects is removed. -/
theorem MnNode.unlink_eq {node : MnNode} (h : node.bos ≠ []) :
    node.unlink bo = if node.bos.erase bo = [] then none
      else some { node with bos := node.bos.erase bo } := by
  rw [MnNode.unlink]
  by_cases hbo : bo ∈ node.bos
  · simp only [if_pos hbo, listEmptyAt_next hbo]
  · simp only [if_neg hbo, List.erase_of_not_mem hbo, if_neg h]

/-- The interval stays. -/
theorem MnNode.unlink_interval {node new : MnNode} (h : node.unlink bo = some new) :
    new.start = node.start ∧ new.last = node.last := by
  rw [MnNode.unlink] at h
  split_ifs at h <;> obtain rfl := Option.some.inj h <;> exact ⟨rfl, rfl⟩

/-- The nodes lose the buffer object, and nothing else. -/
theorem flatMap_unlink {nodes : List MnNode} (h : ∀ node ∈ nodes, node.bos ≠ []) :
    (nodes.filterMap (MnNode.unlink bo)).flatMap MnNode.bos =
      nodes.flatMap fun node => node.bos.erase bo := by
  induction nodes with
  | nil => rfl
  | cons node nodes ih =>
    obtain ⟨hnode, hnodes⟩ := List.forall_mem_cons.mp h
    rw [List.filterMap_cons, MnNode.unlink_eq hnode, List.flatMap_cons, ← ih hnodes]
    split_ifs with hempty
    · simp only [hempty, List.nil_append]
    · simp only [List.flatMap_cons]

/-- The other buffer objects stay. -/
theorem count_flatMap_erase_of_ne {nodes : List MnNode} {b : ℕ} (h : b ≠ bo) :
    (nodes.flatMap fun node => node.bos.erase bo).count b = (nodes.flatMap MnNode.bos).count b := by
  simp only [List.count_flatMap, Function.comp_def, List.count_erase_of_ne h]

/-- A buffer object that is on the nodes once is on none of them afterwards. -/
theorem count_flatMap_erase_self {nodes : List MnNode}
    (h : (nodes.flatMap MnNode.bos).count bo = 1) :
    (nodes.flatMap fun node => node.bos.erase bo).count bo = 0 := by
  refine List.count_eq_zero.mpr fun hmem => ?_
  obtain ⟨node, hnode, herase⟩ := List.mem_flatMap.mp hmem
  have hle : node.bos.count bo ≤ (nodes.flatMap MnNode.bos).count bo := by
    rw [List.count_flatMap]
    exact List.le_sum_of_mem (List.mem_map_of_mem hnode)
  have hpos := List.count_pos_iff.mpr herase
  rw [List.count_erase_self] at hpos
  omega

/-- **A buffer object is unregistered.** -/
theorem MnInv.unregister (h : MnInv bos s) (bo : ℕ) : MnInv bos (mnUnregister bo s) := by
  rw [mnUnregister]
  split
  · exact h
  · next mm hmn =>
    have hnonempty : ∀ node ∈ s.objects mm, node.bos ≠ [] := fun node hnode =>
      (h.wf mm node hnode).nonempty
    refine ⟨fun mm' node hnode => ?_, fun mm' => ?_, fun mm' b => ?_⟩
    · by_cases hmm : mm' = mm
      · subst hmm
        simp only [Function.update_self, List.mem_filterMap] at hnode
        obtain ⟨old, hold, hunlink⟩ := hnode
        have hwf := h.wf mm' old hold
        rw [MnNode.unlink_eq hwf.nonempty] at hunlink
        split_ifs at hunlink with hempty
        obtain rfl := Option.some.inj hunlink
        exact ⟨hwf.le, hempty, fun b hb => hwf.within b (List.mem_of_mem_erase hb)⟩
      · simp only [Function.update_of_ne hmm] at hnode
        exact h.wf mm' node hnode
    · by_cases hmm : mm' = mm
      · subst hmm
        simp only [Function.update_self]
        refine (h.apart mm').filterMap _ fun a b hab a' ha b' hb => ?_
        obtain ⟨hastart, halast⟩ := MnNode.unlink_interval ha
        obtain ⟨hbstart, hblast⟩ := MnNode.unlink_interval hb
        rwa [MnNode.Apart, hastart, halast, hbstart, hblast]
      · simp only [Function.update_of_ne hmm]
        exact h.apart mm'
    · have hcount := h.once mm' b
      by_cases hmm : mm' = mm
      · subst hmm
        simp only [Function.update_self, flatMap_unlink hnonempty]
        by_cases hb : b = bo
        · subst hb
          rw [if_pos hmn] at hcount
          simp [count_flatMap_erase_self hcount]
        · simpa [count_flatMap_erase_of_ne hb, Function.update_of_ne hb] using hcount
      · simp only [Function.update_of_ne hmm, hcount]
        by_cases hb : b = bo
        · subst hb
          simp [hmn, Ne.symm hmm]
        · simp [hb]

/-- **The memory of a process goes away.** -/
theorem MnInv.destroy (h : MnInv bos s) (mm : ℕ) : MnInv bos (mnDestroy mm s) := by
  have hon : ∀ b, (∃ node ∈ s.objects mm, b ∈ node.bos) ↔ s.mn b = some mm := fun b => by
    refine ⟨fun ⟨node, hnode, hb⟩ => ?_, h.exists_node⟩
    by_contra hne
    have hcount := h.once mm b
    rw [if_neg hne] at hcount
    exact List.count_eq_zero.mp hcount (List.mem_flatMap.mpr ⟨node, hnode, hb⟩)
  refine ⟨fun mm' node hnode => ?_, fun mm' => ?_, fun mm' b => ?_⟩
  · by_cases hmm : mm' = mm
    · simp [mnDestroy, hmm] at hnode
    · simp only [mnDestroy, Function.update_of_ne hmm] at hnode
      exact h.wf mm' node hnode
  · by_cases hmm : mm' = mm
    · simp [mnDestroy, hmm]
    · simpa only [mnDestroy, Function.update_of_ne hmm] using h.apart mm'
  · simp only [mnDestroy, hon]
    by_cases hmm : mm' = mm
    · subst hmm
      by_cases hb : s.mn b = some mm' <;> simp [hb]
    · simp only [Function.update_of_ne hmm, h.once mm' b]
      by_cases hb : s.mn b = some mm
      · simp [hb, Ne.symm hmm]
      · simp [hb]

/-- **One call**: the invariant is kept if the buffer object is inside the address space, and it
has to be for the new state to be sound. -/
theorem MnInv.step (h : MnInv bos s) {op : MnOp} (hstep : mnStep bos s op = some t) :
    (op.RegistersInside bos s → MnInv bos t) ∧ (MnSound bos t → op.RegistersInside bos s) := by
  cases op with
  | register bo mm mnGet kmalloc =>
    obtain ⟨hbo, ht⟩ := Option.ite_none_right_eq_some.mp hstep
    obtain rfl := Option.some.inj ht
    by_cases hreg : MnRegistered bos s bo mm mnGet kmalloc
    · refine ⟨fun hin => h.register hbo (hin hreg) mnGet kmalloc, fun hsound _ => ?_⟩
      have hpage := hsound.page (fun _ => []) 0 mm bo _ _ (mnRegister_mn hreg) List.not_mem_nil
        (bos bo).contains_userptr rfl
      rw [mnInvalidatePage] at hpage
      split at hpage
      · cases hpage
      · exact UserBo.inside_of_affect (List.mem_filter.mp hpage).2
    · rw [mnRegister_state hreg]
      exact ⟨fun _ => h, fun _ hreg' => absurd hreg' hreg⟩
  | unregister bo =>
    obtain rfl := Option.some.inj hstep
    exact ⟨fun _ => h.unregister bo, fun _ => trivial⟩
  | destroy mm =>
    obtain rfl := Option.some.inj hstep
    exact ⟨fun _ => h.destroy mm, fun _ => trivial⟩

/-- **Notifiers.** In all states of a run, the nodes are disjoint and not empty, registered buffer
objects are on one node that covers them, and are unmapped when a part of them is invalidated, if
and only if every buffer object that is registered is inside the address space and not at `0`. -/
theorem mn_sound_iff {ops : List MnOp}
    (h : Transition.Run (fun s op t => mnStep bos s op = some t) .init ops t) :
    (∀ ops₁ ops₂ u, ops = ops₁ ++ ops₂ →
      Transition.Run (fun s op t => mnStep bos s op = some t) .init ops₁ u → MnSound bos u) ↔
    Transition.Run (Transition.Guarded (fun s op t => mnStep bos s op = some t)
      fun s op => op.RegistersInside bos s) .init ops t :=
  h.forall_states_iff (MnInv bos) (MnSound bos) (fun _ => MnInv.sound)
    (fun _ _ _ hs hstep => hs.step hstep) (MnInv.init bos)

end Calls

/-- Buffer objects of two pages, each at the second page of the one before. -/
def overlappingBos (bo : ℕ) : UserBo where
  userptr := (bo % 16 + 1) * pageSize
  userptr_lt := by simp only [pageSize, pageShift]; omega
  userptr_dvd := dvd_mul_left ..
  size := 2 * pageSize
  size_pos := by simp only [pageSize, pageShift]; omega
  size_lt := by simp only [pageSize, pageShift]; omega
  size_dvd := dvd_mul_left ..

/-- Two nodes are merged by the buffer object between them, and one buffer object leaves. -/
def mergedByThird : List MnOp :=
  [.register 0 0 none true, .register 2 0 none true, .register 1 0 none false, .unregister 0]

/-- A tree with one node, whose buffer objects are found. -/
theorem mn_sound_iff_mergedByThird :
    ∃ t, Transition.Run (fun s op t => mnStep overlappingBos s op = some t) .init mergedByThird t ∧
      t.objects 0 = [⟨4096, 20479, [1, 2]⟩] ∧ ∀ ops₁ ops₂ u, mergedByThird = ops₁ ++ ops₂ →
        Transition.Run (fun s op t => mnStep overlappingBos s op = some t) .init ops₁ u →
          MnSound overlappingBos u := by
  have hfold : (mergedByThird.foldlM (mnStep overlappingBos) .init).map (·.objects 0) =
      some [⟨4096, 20479, [1, 2]⟩] := by
    decide +kernel
  obtain ⟨t, hrun, hobjects⟩ := Option.map_eq_some_iff.mp hfold
  have hinside : ∀ bo, (overlappingBos bo).Inside := fun bo => by
    simp only [UserBo.Inside, overlappingBos, pageSize, pageShift]
    omega
  have hguarded : Transition.Run (Transition.Guarded
      (fun s op t => mnStep overlappingBos s op = some t)
      fun s op => op.RegistersInside overlappingBos s) .init mergedByThird t := by
    refine .of_foldlM (fun op _ s => ?_) hrun
    cases op with
    | register bo => exact fun _ => hinside bo
    | unregister => trivial
    | destroy => trivial
  have hrun' := hguarded.mono fun _ _ _ h => h.1
  exact ⟨t, hrun', hobjects, (mn_sound_iff hrun').mpr hguarded⟩

/-- Two pages at the last page of the address space. -/
def lastPageBo (_ : ℕ) : UserBo where
  userptr := 2 ^ 64 - pageSize
  userptr_lt := by simp only [pageSize, pageShift]; omega
  userptr_dvd := by decide
  size := 2 * pageSize
  size_pos := by simp only [pageSize, pageShift]; omega
  size_lt := by simp only [pageSize, pageShift]; omega
  size_dvd := dvd_mul_left ..

/-- The node of a buffer object that wraps around contains no address, and the invalidation of its
first page unmaps nothing. -/
theorem mn_page_not_found :
    ∃ t, Transition.Run (fun s op t => mnStep lastPageBo s op = some t) .init
        [.register 0 0 none true] t ∧
      t.objects 0 = [⟨2 ^ 64 - 4096, 4095, [0]⟩] ∧
      mnInvalidatePage lastPageBo (fun _ => []) 0 t 0 (2 ^ 64 - 4096) = [] ∧
      ¬ MnSound lastPageBo t := by
  have hfold : (mnStep lastPageBo .init (.register 0 0 none true)).map (fun t =>
      decide (t.mn 0 = some 0 ∧ t.objects 0 = [⟨2 ^ 64 - 4096, 4095, [0]⟩] ∧
        mnInvalidatePage lastPageBo (fun _ => []) 0 t 0 (2 ^ 64 - 4096) = [])) = some true := by
    decide +kernel
  obtain ⟨t, hstep, hproj⟩ := Option.map_eq_some_iff.mp hfold
  obtain ⟨hmn, hobjects, hpage⟩ := of_decide_eq_true hproj
  refine ⟨t, .single hstep, hobjects, hpage, fun hsound => ?_⟩
  have hmem := hsound.page (fun _ => []) 0 0 0 _ _ hmn List.not_mem_nil
    (lastPageBo 0).contains_userptr rfl
  have hptr : (lastPageBo 0).userptr = 2 ^ 64 - 4096 := rfl
  rw [hptr, hpage] at hmem
  cases hmem

end Amdgpu
