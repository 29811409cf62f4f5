import AmdgpuPro.Ttm.Fill

set_option autoImplicit false

/-!
# The VRAM manager

`amdgpu_vram_mgr_new` splits a buffer object into nodes and inserts them one after the other into
`drm_mm`, with a larger alignment for whole nodes; when an insertion fails it removes those that it
has inserted. `amdgpu_vram_mgr_del` removes nodes until their sizes add up to the pages of the
buffer object.

## Main definitions

* `Amdgpu.VramMan`, `DrmMmSpace` — the manager, and a correct `drm_mm`.
* `VramSpace.vramMgrNew`, `VramSpace.vramMgrDel` — the two functions, with the nodes that are in
  `drm_mm`.

## Main results

* `Amdgpu.VramSpace.vramMgr_sound` — nodes in the range, with all pages, or the space is as before.
* `VramSpace.vramMgr_sound_threeNodes` — with a `drm_mm` that takes the lowest place.

## Design

`Amdgpu.vramMgrNew` looks at the nodes of one buffer object only; here the whole space is followed,
as the list of its nodes, newest first. Where `drm_mm` puts a node is up to it, as long as the place
is free, aligned and in the range it is asked for. Numbers of pages are those of sizes in an
`unsigned long`.
-/

namespace Amdgpu

instance : DecidableEq MmNode := fun a b =>
  decidable_of_iff (a.start = b.start ∧ a.size = b.size) (by cases a; cases b; simp)

/-- The manager of VRAM, with a split that passed `amdgpu_check_pot_argument`. -/
structure VramMan extends VramMgr where
  pot : ∀ split ∈ pageSplit, ∃ k, split = 2 ^ k

/-- What the manager is asked for: fields of `struct ttm_mem_reg`, `struct ttm_place` and the buffer
object. -/
structure VramRequest where
  numPages : ℕ
  numPages_le : numPages ≤ 2 ^ 52
  /-- the alignment is a power of two, of type `uint32_t` -/
  alignOrder : ℕ
  alignOrder_lt : alignOrder < 32
  /-- `AMDGPU_GEM_CREATE_VRAM_CONTIGUOUS` -/
  contiguous : Bool
  fpfn : ℕ
  lpfn : ℕ
  /-- `TTM_PL_FLAG_TOPDOWN` -/
  topDown : Bool

/-- `mem->page_alignment` -/
def VramRequest.pageAlignment (req : VramRequest) : ℕ := 2 ^ req.alignOrder

/-- The end of the range: `place->lpfn`, or that of VRAM. -/
def VramRequest.endPfn (req : VramRequest) (man : VramMan) : ℕ :=
  if req.lpfn = 0 then man.size else req.lpfn

/-- A correct `drm_mm_insert_node_in_range_generic`: for the nodes that are there, a size, an
alignment, a range and the flags `DRM_MM_SEARCH_BELOW` and `DRM_MM_SEARCH_BEST` it answers with the
start of a free place. -/
structure DrmMmSpace (man : VramMan) where
  insert : List MmNode → ℕ → ℕ → ℕ → ℕ → Bool → Bool → Except Errno ℕ
  correct : ∀ {space size align fpfn lpfn below best start},
    insert space size align fpfn lpfn below best = .ok start →
    0 < size ∧ align ∣ start ∧ fpfn ≤ start ∧ start + size ≤ lpfn ∧ start + size ≤ man.size ∧
      ∀ node ∈ space, start + size ≤ node.start ∨ node.start + node.size ≤ start

namespace VramSpace

variable {man : VramMan} (mm : DrmMmSpace man) (req : VramRequest)

/-- The loop of `amdgpu_vram_mgr_new`, with the way back when an insertion fails: the nodes, and the
space. -/
def insertLoop (pagesPerNode : ℕ) :
    ℕ → ℕ → List MmNode → Except Errno (List MmNode) × List MmNode
  | 0, _, space => (.ok [], space)
  | n + 1, pagesLeft, space =>
    let pages := min pagesLeft pagesPerNode
    let alignment := if pages = pagesPerNode then pagesPerNode % 2 ^ 32 else req.pageAlignment
    match h : mm.insert space pages alignment req.fpfn (req.endPfn man) req.topDown
      (pages ≠ pagesPerNode) with
    | .error e => (.error e, space)
    | .ok start =>
      let node : MmNode := ⟨start, pages, (mm.correct h).1⟩
      match insertLoop pagesPerNode n (pagesLeft - pages) (node :: space) with
      | (.error e, space) => (.error e, space.erase node)
      | (.ok nodes, space) => (.ok (node :: nodes), space)

/-- `amdgpu_vram_mgr_new`: without a node there was no space. -/
def vramMgrNew (kcalloc : Bool) (space : List MmNode) :
    Except Errno (Option VramMem) × List MmNode :=
  let nodes := vramNodes man.toVramMgr req.numPages req.pageAlignment req.contiguous
  if !kcalloc then (.error .ENOMEM, space)
  else
    match insertLoop mm req nodes.1 nodes.2 req.numPages space with
    | (.error .ENOSPC, space) => (.ok none, space)
    | (.error e, space) => (.error e, space)
    | (.ok mmNode, space) =>
      let start := match nodes.2, mmNode with
        | 1, node :: _ => BitVec.ofNat 64 node.start
        | _, _ => boInvalidOffset
      (.ok (some ⟨start, mmNode⟩), space)

/-- The loop of `amdgpu_vram_mgr_del`; `pages` is an `unsigned`. Nothing is there behind the last
node. -/
def delLoop : ℕ → List MmNode → List MmNode → Option (List MmNode)
  | 0, _, space => some space
  | _ + 1, [], _ => none
  | pages + 1, node :: nodes, space =>
    delLoop ((pages + 1 + 2 ^ 32 - node.size % 2 ^ 32) % 2 ^ 32) nodes (space.erase node)

/-- `amdgpu_vram_mgr_del` -/
def vramMgrDel (numPages : ℕ) (mmNode : Option (List MmNode)) (space : List MmNode) :
    Option (List MmNode) :=
  match mmNode with
  | none => some space
  | some nodes => delLoop (numPages % 2 ^ 32) nodes space

/-! ## The loop -/

variable {mm req} {pagesPerNode n pagesLeft : ℕ} {space space' : List MmNode}

/-- When an insertion fails, the space is as before. -/
theorem insertLoop_error {e : Errno}
    (h : insertLoop mm req pagesPerNode n pagesLeft space = (.error e, space')) :
    space' = space := by
  induction n generalizing pagesLeft space space' with
  | zero => cases h
  | succ n ih =>
    rw [insertLoop] at h
    split at h
    · cases h
      rfl
    · dsimp only at h
      split at h
      · next hrest =>
        cases h
        rw [ih hrest, List.erase_cons_head]
      · cases h

/-- A node is where the request wants it. -/
structure NodeOk (man : VramMan) (req : VramRequest) (node : MmNode) : Prop where
  aligned : req.pageAlignment ∣ node.start
  first : req.fpfn ≤ node.start
  last : node.start + node.size ≤ req.endPfn man
  inside : node.start + node.size ≤ man.size

/-- Two nodes have no page in common. -/
def Apart (node node' : MmNode) : Prop :=
  node.start + node.size ≤ node'.start ∨ node'.start + node'.size ≤ node.start

/-- When all insertions succeed, the nodes have as many pages as there are, are where they should be
and apart, and are added to the space. -/
theorem insertLoop_ok {nodes : List MmNode}
    (halign : pagesLeft < pagesPerNode ∨
      pagesPerNode < 2 ^ 32 ∧ req.pageAlignment ∣ pagesPerNode)
    (h : insertLoop mm req pagesPerNode n pagesLeft space = (.ok nodes, space')) :
    (pagesLeft ≤ n * pagesPerNode → (nodes.map (·.size)).sum = pagesLeft) ∧
      (∀ node ∈ nodes, NodeOk man req node ∧ ∀ other ∈ space, Apart node other) ∧
      nodes.Pairwise Apart ∧ space' = nodes.reverse ++ space := by
  induction n generalizing pagesLeft space space' nodes with
  | zero =>
    cases h
    refine ⟨fun hle => ?_, by simp, .nil, rfl⟩
    rw [Nat.zero_mul] at hle
    exact (Nat.le_zero.mp hle).symm
  | succ n ih =>
    rw [insertLoop] at h
    split at h
    · cases h
    · next start hstart =>
      obtain ⟨hpos, hdvd, hfirst, hlast, hinside, hapart⟩ := mm.correct hstart
      dsimp only at h
      split at h
      · cases h
      · next rest space'' hrest =>
        cases h
        obtain ⟨hsum, hnodes, hpair, hspace⟩ := ih (by omega) hrest
        refine ⟨fun hle => ?_, ?_, ?_, ?_⟩
        · rw [List.map_cons, List.sum_cons, hsum (by rw [Nat.add_mul] at hle; omega)]
          show min pagesLeft pagesPerNode + _ = _
          omega
        · refine List.forall_mem_cons.mpr
            ⟨⟨⟨?_, hfirst, hlast, hinside⟩, hapart⟩, fun node hnode => ?_⟩
          · -- a whole node is aligned to its size
            split_ifs at hdvd with hwhole
            · obtain ⟨hlt, hppn⟩ := halign.resolve_left (by omega)
              rw [Nat.mod_eq_of_lt hlt] at hdvd
              exact hppn.trans hdvd
            · exact hdvd
          · obtain ⟨hok, hother⟩ := hnodes node hnode
            exact ⟨hok, fun other hmem => hother other (List.mem_cons_of_mem _ hmem)⟩
        · refine .cons (fun node hnode => ?_) hpair
          exact ((hnodes node hnode).2 _ List.mem_cons_self).symm
        · rw [hspace, List.reverse_cons, List.append_assoc, List.singleton_append]

/-- Nodes that are apart have not more pages than there are. -/
theorem sum_size_le {nodes : List MmNode} {size : ℕ} (hpair : nodes.Pairwise Apart)
    (hinside : ∀ node ∈ nodes, node.start + node.size ≤ size) :
    (nodes.map (·.size)).sum ≤ size := by
  have hnodup : (nodes.flatMap fun node => List.range' node.start node.size).Nodup := by
    refine List.nodup_flatMap.mpr ⟨fun _ _ => List.nodup_range', hpair.imp ?_⟩
    intro node node' hapart page hpage hpage'
    rw [List.mem_range'_1] at hpage hpage'
    rcases hapart with h | h <;> omega
  have hsub : (nodes.flatMap fun node => List.range' node.start node.size) ⊆ List.range size := by
    intro page hpage
    obtain ⟨node, hnode, hpage⟩ := List.mem_flatMap.mp hpage
    have := hinside node hnode
    rw [List.mem_range'_1] at hpage
    exact List.mem_range.mpr (by omega)
  simpa [List.length_flatMap] using (hnodup.subperm hsub).length_le

/-- The loop that removes nodes stops behind the last one, and not before. -/
theorem delLoop_eq {nodes : List MmNode} {pages : ℕ} (hsum : (nodes.map (·.size)).sum = pages)
    (hlt : pages < 2 ^ 32) (space : List MmNode) :
    delLoop pages nodes space = some (nodes.foldl List.erase space) := by
  induction nodes generalizing pages space with
  | nil =>
    cases hsum
    rfl
  | cons node nodes ih =>
    rw [List.map_cons, List.sum_cons] at hsum
    have hpos := node.size_pos
    obtain ⟨p, rfl⟩ : ∃ p, pages = p + 1 := ⟨pages - 1, by omega⟩
    have hrest : (p + 1 + 2 ^ 32 - node.size % 2 ^ 32) % 2 ^ 32 = (nodes.map (·.size)).sum := by
      omega
    rw [delLoop, hrest, ih rfl (by omega), List.foldl_cons]

/-- Removing nodes from a space leaves the others. -/
theorem foldl_erase_perm {nodes later rest : List MmNode} (h : later.Perm (nodes ++ rest)) :
    (nodes.foldl List.erase later).Perm rest := by
  induction nodes generalizing later with
  | nil => exact h
  | cons node nodes ih =>
    refine ih ?_
    simpa using h.erase node

/-- How many pages the nodes have together, and that whole nodes are aligned. -/
theorem vramNodes_fit (man : VramMan) (req : VramRequest) :
    req.numPages ≤ (vramNodes man.toVramMgr req.numPages req.pageAlignment req.contiguous).2 *
        (vramNodes man.toVramMgr req.numPages req.pageAlignment req.contiguous).1 ∧
      (req.numPages < (vramNodes man.toVramMgr req.numPages req.pageAlignment req.contiguous).1 ∨
        (vramNodes man.toVramMgr req.numPages req.pageAlignment req.contiguous).1 < 2 ^ 32 ∧
        req.pageAlignment ∣
          (vramNodes man.toVramMgr req.numPages req.pageAlignment req.contiguous).1) := by
  have hle := req.numPages_le
  have halign : req.pageAlignment < 2 ^ 32 := Nat.pow_lt_pow_right (by decide) req.alignOrder_lt
  unfold vramNodes
  split
  · next split _ hsplit =>
    obtain ⟨hge, hlt⟩ := man.pageSplit_mem split hsplit
    obtain ⟨k, rfl⟩ := man.pot split hsplit
    refine ⟨?_, .inr ⟨by simp only; omega, ?_⟩⟩
    · have hpos : 0 < max (2 ^ k) req.pageAlignment := by omega
      simp only [Chunks.divRoundUp]
      rw [Nat.mod_eq_of_lt (by omega)]
      have hdiv := Nat.lt_div_mul_add hpos (a := req.numPages + max (2 ^ k) req.pageAlignment - 1)
      omega
    · rcases le_total (2 ^ k) req.pageAlignment with h | h
      · simp only [max_eq_right h, dvd_refl]
      · simp only [max_eq_left h]
        exact Nat.pow_dvd_pow 2 ((Nat.pow_le_pow_iff_right (by decide)).mp h)
  · exact ⟨by simp only; omega, .inl (by simp only; omega)⟩

/-- **The VRAM manager**: either it returns nodes that have as many pages as the buffer object, are
aligned and in the range, and are added to the space, and removing them later removes them and
nothing else; or the space is as before. -/
theorem vramMgr_sound {man : VramMan} (mm : DrmMmSpace man) (req : VramRequest) (kcalloc : Bool)
    (space : List MmNode) :
    (∃ mem, vramMgrNew mm req kcalloc space = (.ok (some mem), mem.mmNode.reverse ++ space) ∧
      (mem.mmNode.map (·.size)).sum = req.numPages ∧
      (∀ node ∈ mem.mmNode, req.pageAlignment ∣ node.start ∧ req.fpfn ≤ node.start ∧
        node.start + node.size ≤ req.endPfn man) ∧
      ∀ later rest, later.Perm (mem.mmNode ++ rest) →
        ∃ after, vramMgrDel req.numPages (some mem.mmNode) later = some after ∧ after.Perm rest) ∨
    ∃ r, vramMgrNew mm req kcalloc space = (r, space) ∧ ∀ mem, r ≠ .ok (some mem) := by
  obtain ⟨hfit, halign⟩ := vramNodes_fit man req
  rw [vramMgrNew]
  dsimp only
  split_ifs
  · exact .inr ⟨_, rfl, by simp⟩
  · split
    · next hloop => exact .inr ⟨_, by rw [insertLoop_error hloop], by simp⟩
    · next hloop => exact .inr ⟨_, by rw [insertLoop_error hloop], by simp⟩
    · next nodes space' hloop =>
      obtain ⟨hsum, hnodes, hpair, rfl⟩ := insertLoop_ok halign hloop
      refine .inl ⟨_, rfl, hsum hfit, fun node hnode => ?_, fun later rest hlater => ?_⟩
      · obtain ⟨haligned, hfirst, hlast, -⟩ := (hnodes node hnode).1
        exact ⟨haligned, hfirst, hlast⟩
      · -- VRAM has less than `2 ^ 32` pages
        have hle := sum_size_le hpair fun node hnode => (hnodes node hnode).1.inside
        have hsize := man.size_le
        have hlt : req.numPages < 2 ^ 32 := by
          rw [hsum hfit] at hle
          simp only [pageSize, pageShift] at hsize
          omega
        refine ⟨_, ?_, foldl_erase_perm hlater⟩
        rw [vramMgrDel, Nat.mod_eq_of_lt hlt]
        exact delLoop_eq (hsum hfit) hlt later

/-- A `drm_mm` that takes the lowest place. -/
def firstFit (man : VramMan) : DrmMmSpace man where
  insert space size align fpfn lpfn _ _ :=
    match (List.range man.size).find? fun start =>
      0 < size ∧ align ∣ start ∧ fpfn ≤ start ∧ start + size ≤ lpfn ∧ start + size ≤ man.size ∧
        ∀ node ∈ space, start + size ≤ node.start ∨ node.start + node.size ≤ start with
    | some start => .ok start
    | none => .error .ENOSPC
  correct {space size align fpfn lpfn below best start} h := by
    split at h
    · next found hfound =>
      obtain rfl := Except.ok.inj h
      have hfits := List.find?_some hfound
      exact of_decide_eq_true hfits
    · cases h

/-- A manager of `64` pages that splits buffer objects into nodes of `16` pages. -/
def sixtyFourPages : VramMan where
  size := 64
  size_le := by decide
  pageSplit := some 16
  pageSplit_mem := by simp
  pot := by
    intro split hsplit
    exact ⟨4, (Option.some.inj hsplit).symm⟩

/-- A request for `40` pages with an alignment of four pages. -/
def fortyPages : VramRequest := ⟨40, by decide, 2, by decide, false, 0, 0, false⟩

/-- Beside a node of another buffer object, `40` pages get two whole nodes, aligned to their size,
and one of eight pages in the gap before them; removing them leaves the other node. -/
theorem vramMgr_sound_threeNodes : ∃ mem after,
    vramMgrNew (firstFit sixtyFourPages) fortyPages true [⟨0, 3, by decide⟩] =
      (.ok (some mem), mem.mmNode.reverse ++ [⟨0, 3, by decide⟩]) ∧
    mem.mmNode.map (fun node => (node.start, node.size)) = [(16, 16), (32, 16), (4, 8)] ∧
    vramMgrDel 40 (some mem.mmNode) (mem.mmNode.reverse ++ [⟨0, 3, by decide⟩]) = some after ∧
    after.Perm [⟨0, 3, by decide⟩] := by
  have heval : ((vramMgrNew (firstFit sixtyFourPages) fortyPages true
      [⟨0, 3, by decide⟩]).1.toOption.bind id).map
        (·.mmNode.map fun node => (node.start, node.size)) = some [(16, 16), (32, 16), (4, 8)] := by
    decide +kernel
  obtain ⟨mem, hnew, -, -, hdel⟩ | ⟨r, hnew, hfails⟩ :=
    vramMgr_sound (firstFit sixtyFourPages) fortyPages true [⟨0, 3, by decide⟩]
  · rw [hnew] at heval
    obtain ⟨after, hafter, hperm⟩ := hdel (mem.mmNode.reverse ++ [⟨0, 3, by decide⟩])
      [⟨0, 3, by decide⟩] ((List.reverse_perm _).append_right _)
    exact ⟨mem, after, hnew, Option.some.inj heval, hafter, hperm⟩
  · rw [hnew] at heval
    rcases r with e | _ | mem
    · cases heval
    · cases heval
    · exact absurd rfl (hfails mem)

end VramSpace

end Amdgpu
