import AmdgpuPro.Lib.Tally
import AmdgpuPro.Lib.Transition
import AmdgpuPro.Ttm.Fill

set_option autoImplicit false

/-!
# The GTT manager

The manager of GTT memory counts the pages that are still available. `amdgpu_gtt_mgr_new` reserves
the pages of a memory region before it allocates a node for it, `amdgpu_gtt_mgr_alloc` gives a node
its range of addresses, and `amdgpu_gtt_mgr_del` gives the pages of a region with a node back. If
the node cannot be allocated, or if the range search of `amdgpu_gtt_mgr_new` fails, the region is
left without a node, and the pages that were reserved for it are lost.

## Main definitions

* `Amdgpu.gttStep` — one call on one of the regions.
* `GttState.Balanced` — the available pages and the pages of the regions with a node are all pages.
* `GttOp.Kept` — the call does not fail after it reserved pages.

## Main results

* `Amdgpu.gtt_balanced_iff` — a run ends balanced if and only if none of its calls fails after it
  reserved pages.

## Design

`drm_mm` is the list of its ranges, and a search is answered by the environment. `TTM` asks for a
node for regions that have none, and for a range for regions that have a node.
-/

namespace Amdgpu

/-! ## Functions -/

/-- `drm_mm_node` -/
structure GttNode where
  start : BitVec 64
  size : BitVec 64
  deriving DecidableEq

/-- `ttm_mem_reg` -/
structure GttMem where
  numPages : BitVec 64
  pageAlignment : BitVec 32
  start : BitVec 64
  mmNode : Option GttNode
  deriving DecidableEq

/-- `ttm_place`; of the flags, `TTM_PL_FLAG_TOPDOWN` -/
structure GttPlace where
  fpfn : BitVec 32
  lpfn : BitVec 32
  topdown : Bool

/-- `amdgpu_gtt_mgr` with the size of its `ttm_mem_type_manager` -/
structure GttMgr where
  size : BitVec 64
  available : BitVec 64
  /-- the ranges in `drm_mm` -/
  mm : List GttNode
  deriving DecidableEq

/-- The arguments of `drm_mm_insert_node_in_range_generic`. -/
structure MmSearch where
  size : BitVec 64
  alignment : BitVec 32
  start : BitVec 64
  stop : BitVec 64
  /-- `DRM_MM_SEARCH_BELOW` and `DRM_MM_CREATE_TOP` -/
  topdown : Bool

/-- What `drm_mm_insert_node_in_range_generic` answers. -/
abbrev MmInsert := MmSearch → Except Errno (BitVec 64)

/-- `amdgpu_gtt_mgr_init` -/
def gttMgrInit (size : BitVec 64) : GttMgr := ⟨size, size, []⟩

/-- The search for a region, at a place if there is one. -/
def gttSearch (mgr : GttMgr) (place : Option GttPlace) (mem : GttMem) : MmSearch where
  size := mem.numPages
  alignment := mem.pageAlignment
  start := place.elim 0 fun p => p.fpfn.setWidth 64
  stop := place.elim mgr.size fun p => if p.lpfn ≠ 0 then p.lpfn.setWidth 64 else mgr.size
  topdown := place.any (·.topdown)

/-- `amdgpu_gtt_mgr_alloc` -/
def gttMgrAlloc (place : Option GttPlace) (insert : MmInsert) (mgr : GttMgr) (mem : GttMem) :
    Outcome (GttMgr × GttMem) :=
  match mem.mmNode with
  | none => .bug (mgr, mem)
  | some node =>
    if node.start ≠ boInvalidOffset then .ret (mgr, mem) none
    else
      match insert (gttSearch mgr place mem) with
      | .error e => .ret (mgr, mem) (some e)
      | .ok start =>
        let node : GttNode := ⟨start, mem.numPages⟩
        .ret ({ mgr with mm := node :: mgr.mm },
          { mem with start := start, mmNode := some node }) none

/-- `amdgpu_gtt_mgr_new` looks for a range at once. -/
def GttPlace.searched (place : GttPlace) : Bool :=
  place.fpfn ≠ 0 || place.lpfn ≠ 0 || place.topdown

/-- `amdgpu_gtt_mgr_new` -/
def gttMgrNew (place : GttPlace) (kzalloc : Bool) (insert : MmInsert) (mgr : GttMgr)
    (mem : GttMem) : Outcome (GttMgr × GttMem) :=
  if mgr.available < mem.numPages then .ret (mgr, mem) none
  else
    let mgr := { mgr with available := mgr.available - mem.numPages }
    if !kzalloc then .ret (mgr, mem) (some .ENOMEM)
    else
      let mem := { mem with mmNode := some ⟨boInvalidOffset, mem.numPages⟩ }
      if place.searched then
        match gttMgrAlloc (some place) insert mgr mem with
        | .ret (mgr, mem) none => .ret (mgr, mem) none
        -- the error is not returned
        | .ret (mgr, mem) (some _) => .ret (mgr, { mem with mmNode := none }) none
        | .bug st => .bug st
      else .ret (mgr, { mem with start := boInvalidOffset }) none

/-- `amdgpu_gtt_mgr_del` -/
def gttMgrDel (mgr : GttMgr) (mem : GttMem) : GttMgr × GttMem :=
  match mem.mmNode with
  | none => (mgr, mem)
  | some node =>
    ({ mgr with
        available := mgr.available + mem.numPages
        mm := if node.start ≠ boInvalidOffset then mgr.mm.erase node else mgr.mm },
      { mem with mmNode := none })

/-! ## Runs -/

/-- The manager and the regions. -/
structure GttState where
  mgr : GttMgr
  mems : List GttMem
  deriving DecidableEq

/-- The calls. -/
inductive GttOp
  /-- a region without a node comes into being -/
  | region (numPages : BitVec 64) (pageAlignment : BitVec 32)
  | new (i : ℕ) (place : GttPlace) (kzalloc : Bool) (insert : MmInsert)
  | alloc (i : ℕ) (place : Option GttPlace) (insert : MmInsert)
  | del (i : ℕ)

namespace GttState

/-- A manager without regions. -/
def init (size : BitVec 64) : GttState := ⟨gttMgrInit size, []⟩

/-- The state with a new manager and another region `i`. -/
def put (s : GttState) (i : ℕ) (st : GttMgr × GttMem) : GttState := ⟨st.1, s.mems.set i st.2⟩

end GttState

/-- One call; `none` if it is not made in this state. -/
def gttStep (s : GttState) : GttOp → Option GttState
  | .region numPages pageAlignment =>
    some { s with mems := s.mems ++ [⟨numPages, pageAlignment, 0, none⟩] }
  | .new i place kzalloc insert => do
    let mem ← s.mems[i]?
    if mem.mmNode.isSome then none
    else some (s.put i (gttMgrNew place kzalloc insert s.mgr mem).state)
  | .alloc i place insert => do
    let mem ← s.mems[i]?
    if mem.mmNode.isNone then none
    else some (s.put i (gttMgrAlloc place insert s.mgr mem).state)
  | .del i => do
    let mem ← s.mems[i]?
    some (s.put i (gttMgrDel s.mgr mem))

/-- The pages a region owns. -/
def GttMem.owned (mem : GttMem) : ℕ := if mem.mmNode.isSome then mem.numPages.toNat else 0

namespace GttState

/-- The pages that are available or owned by a region. -/
def pages (s : GttState) : ℕ := s.mgr.available.toNat + tally GttMem.owned s.mems

/-- The available pages are all pages, but those of the regions with a node. -/
def Balanced (s : GttState) : Prop :=
  (s.mgr.available.toNat : ℤ) = s.mgr.size.toNat - tally GttMem.owned s.mems

instance (s : GttState) : Decidable s.Balanced := inferInstanceAs (Decidable (_ = _))

end GttState

/-- After it reserved pages, the call gets a node, and a range if it looks for one. -/
def GttOp.Kept (s : GttState) : GttOp → Prop
  | .new i place kzalloc insert => ∀ mem, s.mems[i]? = some mem →
      mem.numPages = 0 ∨ s.mgr.available < mem.numPages ∨
        kzalloc = true ∧ (place.searched = true →
          ∃ start, insert (gttSearch s.mgr (some place) mem) = .ok start)
  | _ => True

/-! ## One call -/

section Calls

variable (mgr : GttMgr) {mem : GttMem}

/-- A search changes neither the count nor who owns what. -/
theorem gttMgrAlloc_spec (place : Option GttPlace) (insert : MmInsert)
    (hnode : mem.mmNode.isSome) :
    let st := (gttMgrAlloc place insert mgr mem).state
    st.1.available = mgr.available ∧ st.1.size = mgr.size ∧ st.2.owned = mem.owned := by
  obtain ⟨node, hnode⟩ := Option.isSome_iff_exists.mp hnode
  rw [gttMgrAlloc, hnode]
  dsimp only
  split_ifs
  · exact ⟨rfl, rfl, rfl⟩
  split
  · exact ⟨rfl, rfl, rfl⟩
  · exact ⟨rfl, rfl, by simp [GttMem.owned, hnode]⟩

/-- The search for a new node, which does not depend on the pages that were reserved. -/
theorem gttMgrAlloc_fresh (place : Option GttPlace) (insert : MmInsert) (available : BitVec 64) :
    gttMgrAlloc place insert { mgr with available := available }
        { mem with mmNode := some ⟨boInvalidOffset, mem.numPages⟩ } =
      match insert (gttSearch mgr place mem) with
      | .error e => .ret ({ mgr with available := available },
          { mem with mmNode := some ⟨boInvalidOffset, mem.numPages⟩ }) (some e)
      | .ok start => .ret
          ({ mgr with available := available, mm := ⟨start, mem.numPages⟩ :: mgr.mm },
            { mem with start := start, mmNode := some ⟨start, mem.numPages⟩ }) none := by
  rw [gttMgrAlloc]
  dsimp only
  rw [if_neg (not_not.mpr rfl)]
  rfl

/-- A region gets a node for the pages that were reserved, or they are lost. -/
theorem gttMgrNew_spec (place : GttPlace) (kzalloc : Bool) (insert : MmInsert)
    (hnode : mem.mmNode = none) :
    let st := (gttMgrNew place kzalloc insert mgr mem).state
    st.1.size = mgr.size ∧ st.1.available.toNat + st.2.owned ≤ mgr.available.toNat ∧
      (st.1.available.toNat + st.2.owned = mgr.available.toNat ↔
        mem.numPages = 0 ∨ mgr.available < mem.numPages ∨
          kzalloc = true ∧ (place.searched = true →
            ∃ start, insert (gttSearch mgr (some place) mem) = .ok start)) := by
  rw [gttMgrNew]
  by_cases hfew : mgr.available < mem.numPages
  · rw [if_pos hfew]
    simp [GttMem.owned, hnode, hfew]
  rw [if_neg hfew]
  have hle : mem.numPages ≤ mgr.available := BitVec.not_lt.mp hfew
  have hsub := BitVec.toNat_sub_of_le hle
  rw [BitVec.le_def] at hle
  have hzero : mem.numPages = 0 ↔ mem.numPages.toNat = 0 := by simp [← BitVec.toNat_inj]
  simp only [hfew, hzero, false_or]
  cases kzalloc with
  | false =>
    simp only [GttMem.owned, hnode, hsub, Bool.not_false, if_true, Outcome.state_ret,
      Option.isSome_none, Bool.false_eq_true, if_false, false_and, or_false, true_and]
    omega
  | true =>
    cases hsearched : place.searched with
    | false => simp [GttMem.owned, hsub, hle]
    | true =>
      simp only [Bool.not_true, Bool.false_eq_true, if_false, if_true, gttMgrAlloc_fresh]
      cases hinsert : insert (gttSearch mgr (some place) mem) with
      | error e =>
        simp only [GttMem.owned, hsub, Outcome.state_ret, Option.isSome_none, Bool.false_eq_true,
          if_false, reduceCtorEq, exists_const, imp_false, not_true_eq_false, and_false, or_false,
          true_and]
        omega
      | ok start => simp [GttMem.owned, hsub, hle]

/-- The pages of a region with a node become available again. -/
theorem gttMgrDel_spec (hle : mgr.available.toNat + mem.owned < 2 ^ 64) :
    let st := gttMgrDel mgr mem
    st.1.size = mgr.size ∧ st.1.available.toNat + st.2.owned = mgr.available.toNat + mem.owned := by
  rw [gttMgrDel]
  cases hnode : mem.mmNode with
  | none => exact ⟨rfl, rfl⟩
  | some node =>
    simp only [GttMem.owned, hnode, Option.isSome_some, if_true, Option.isSome_none,
      Bool.false_eq_true, if_false, Nat.add_zero] at hle ⊢
    exact ⟨trivial, BitVec.toNat_add_of_lt hle⟩

end Calls

/-! ## Runs -/

section Runs

variable {s t : GttState}

/-- The pages after a call on a region. -/
theorem GttState.pages_put {i : ℕ} {mem : GttMem} (h : s.mems[i]? = some mem)
    (st : GttMgr × GttMem) :
    (s.put i st).pages + mem.owned =
      st.1.available.toNat + st.2.owned + tally GttMem.owned s.mems := by
  have hset := tally_set GttMem.owned h st.2
  rw [GttState.put, GttState.pages]
  dsimp only
  omega

/-- **One step** keeps the pages that are available or owned, or loses some of them. -/
theorem gttStep_spec {op : GttOp} (hle : s.pages ≤ s.mgr.size.toNat) (h : gttStep s op = some t) :
    t.mgr.size = s.mgr.size ∧ t.pages ≤ s.pages ∧ (t.pages = s.pages ↔ op.Kept s) := by
  cases op with
  | region numPages pageAlignment =>
    cases h
    simp [GttState.pages, GttMem.owned, GttOp.Kept]
  | new i place kzalloc insert =>
    obtain ⟨mem, hmem, h⟩ := Option.bind_eq_some_iff.mp h
    split_ifs at h with hnode
    cases h
    rw [Bool.not_eq_true, Option.isSome_eq_false_iff, Option.isNone_iff_eq_none] at hnode
    obtain ⟨hsize, hsum, hiff⟩ := gttMgrNew_spec s.mgr place kzalloc insert hnode
    have hput := GttState.pages_put hmem (gttMgrNew place kzalloc insert s.mgr mem).state
    have howned : mem.owned = 0 := by simp [GttMem.owned, hnode]
    have hpages : s.pages = s.mgr.available.toNat + tally GttMem.owned s.mems := rfl
    refine ⟨hsize, by omega, ?_⟩
    simp only [GttOp.Kept, hmem, Option.some.injEq, forall_eq', ← hiff]
    omega
  | alloc i place insert =>
    obtain ⟨mem, hmem, h⟩ := Option.bind_eq_some_iff.mp h
    split_ifs at h with hnode
    cases h
    rw [Bool.not_eq_true, Option.isNone_eq_false_iff] at hnode
    obtain ⟨havail, hsize, howned⟩ := gttMgrAlloc_spec s.mgr place insert hnode
    have hput := GttState.pages_put hmem (gttMgrAlloc place insert s.mgr mem).state
    have hpages : s.pages = s.mgr.available.toNat + tally GttMem.owned s.mems := rfl
    rw [havail, howned] at hput
    have hsame : (s.put i (gttMgrAlloc place insert s.mgr mem).state).pages = s.pages := by omega
    exact ⟨hsize, hsame.le, iff_of_true hsame trivial⟩
  | del i =>
    obtain ⟨mem, hmem, h⟩ := Option.bind_eq_some_iff.mp h
    cases h
    have hput := GttState.pages_put hmem (gttMgrDel s.mgr mem)
    have hpages : s.pages = s.mgr.available.toNat + tally GttMem.owned s.mems := rfl
    have hmem_le : mem.owned ≤ tally GttMem.owned s.mems := by
      rw [tally_eq_of_getElem? _ hmem]
      omega
    obtain ⟨hsize, hsum⟩ := gttMgrDel_spec s.mgr
      (show s.mgr.available.toNat + mem.owned < 2 ^ 64 by have := s.mgr.size.isLt; omega)
    have hsame : (s.put i (gttMgrDel s.mgr mem)).pages = s.pages := by omega
    exact ⟨hsize, hsame.le, iff_of_true hsame trivial⟩

theorem GttState.balanced_iff : s.Balanced ↔ s.pages = s.mgr.size.toNat := by
  rw [GttState.Balanced, GttState.pages]
  omega

/-- **The available pages.** After every run, they are all pages but those of the regions with a
node, if and only if none of the calls failed after it had reserved pages. -/
theorem gtt_balanced_iff {size : BitVec 64} {ops : List GttOp}
    (h : Transition.Run (fun s op t => gttStep s op = some t) (.init size) ops t) :
    t.Balanced ↔ Transition.Run (Transition.Guarded (fun s op t => gttStep s op = some t)
      fun s op => op.Kept s) (.init size) ops t := by
  have hinit : (GttState.init size).pages = size.toNat := by
    simp [GttState.pages, GttState.init, gttMgrInit]
  -- the pages that are available or owned never become more
  obtain ⟨⟨hsize, -⟩, -, hkept⟩ := h.measure_eq_iff
    (fun s => s.mgr.size = size ∧ s.pages ≤ size.toNat) GttState.pages
    (fun s op u hs hstep => by
      obtain ⟨hsize, hle, hiff⟩ := gttStep_spec (hs.1 ▸ hs.2) hstep
      exact ⟨⟨hsize.trans hs.1, hle.trans hs.2⟩, hle, hiff⟩)
    ⟨rfl, hinit.le⟩
  rw [GttState.balanced_iff, hsize, ← hkept, hinit]

end Runs

/-- Two regions, one of which is given back. -/
def twoRegions : List GttOp :=
  [.region 4 0, .new 0 ⟨0, 0, false⟩ true fun _ => .ok 0, .alloc 0 none fun _ => .ok 0,
    .region 8 0, .new 1 ⟨0, 0, true⟩ true fun _ => .ok 8, .del 0]

/-- The available pages are right after two regions. -/
theorem gtt_balanced_iff_twoRegions :
    ∃ t, Transition.Run (fun s op t => gttStep s op = some t) (.init 16) twoRegions t ∧
      t.mgr.available = 8 ∧
      Transition.Run (Transition.Guarded (fun s op t => gttStep s op = some t)
        fun s op => op.Kept s) (.init 16) twoRegions t := by
  have hrun : Transition.Run (fun s op t => gttStep s op = some t) (.init 16) twoRegions
      ⟨⟨16, 8, [⟨8, 8⟩]⟩, [⟨4, 0, 0, none⟩, ⟨8, 0, 8, some ⟨8, 8⟩⟩]⟩ :=
    .of_eval (by decide +kernel)
  exact ⟨_, hrun, rfl, (gtt_balanced_iff hrun).mp (by decide)⟩

/-- A node that cannot be allocated, and a range that is not found. -/
def twoFailures : List GttOp :=
  [.region 4 0, .new 0 ⟨0, 0, false⟩ false fun _ => .ok 0, .region 4 0,
    .new 1 ⟨0, 0, true⟩ true fun _ => .error .ENOSPC]

/-- After two failures no region has a node, and 8 of 16 pages are lost. -/
theorem gtt_pages_lost :
    ∃ t, Transition.Run (fun s op t => gttStep s op = some t) (.init 16) twoFailures t ∧
      t.mgr.available = 8 ∧ (∀ mem ∈ t.mems, mem.mmNode = none) ∧ ¬ t.Balanced := by
  have hrun : Transition.Run (fun s op t => gttStep s op = some t) (.init 16) twoFailures
      ⟨⟨16, 8, []⟩, [⟨4, 0, 0, none⟩, ⟨4, 0, 0, none⟩]⟩ :=
    .of_eval (by decide +kernel)
  exact ⟨_, hrun, rfl, by decide, by decide⟩

end Amdgpu
