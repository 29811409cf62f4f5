import AmdgpuPro.Ttm.Memory

set_option autoImplicit false

/-!
# Moving a buffer object

`amdgpu_move_blit` walks over the nodes of the old and of the new memory of a buffer object at the
same time. Each round copies the pages up to where the first of the two current nodes ends, with one
call of `amdgpu_copy_buffer`. This passes the number of bytes as a `uint32_t`.

What a move should do is a list of transfers of bytes, those of the first page, then those of the
second page, and so on; the move is right if its commands make exactly this list.

## Main definitions

* `Amdgpu.BoMem` — the nodes of a buffer object; their sizes add up to its number of pages.
* `pageTransfers` — the transfers of a right move.
* `RunsFit` — no run of pages in one old and one new node is too long.

## Main results

* `Amdgpu.blitLoop_spec` — the loop never leaves the nodes, and what it transfers.
* `moveBlit_right_iff` — a move is right if and only if the runs fit.
* `moveBlit_copies_nothing` — a move of four gigabytes in one node copies nothing.
-/

namespace Amdgpu

/-! ## The function -/

/-- The memory of a buffer object of `numPages` pages. -/
structure BoMem (numPages : ℕ) where
  memType : MemType
  mmNode : List MmNode
  ne_nil : mmNode ≠ []
  sum_size : (mmNode.map MmNode.size).sum = numPages

/-- How a call ends: it returns, with `none` for `0`, or runs past the nodes. -/
inductive MoveEnd
  | ret (r : Option Errno)
  | fault
  deriving DecidableEq

/-- What the functions answer that a move calls; the rounds of the loop are numbered. -/
structure MoveEnv where
  /-- `ring->ready` -/
  ready : Bool
  /-- `amdgpu_ttm_bind` for the old memory -/
  ttmBindOld : ℕ → Option Errno
  /-- `amdgpu_ttm_bind` for the new memory -/
  ttmBindNew : ℕ → Option Errno
  job : ℕ → JobAnswers
  /-- `ttm_bo_pipeline_move` -/
  pipelineMove : Option Errno

/-- `amdgpu_mm_node_addr`, with the answer of `amdgpu_ttm_bind` -/
def mmNodeAddr (gpuOffset : MemType → BitVec 64) (memType : MemType) (ttmBind : Option Errno)
    (node : MmNode) : Except Errno (BitVec 64) :=
  match memType with
  | .tt =>
    match ttmBind with
    | some e => .error e
    | none => .ok (node.addr (gpuOffset .tt))
  | .vram | .dgma | .dgmaImport => .ok (node.addr (gpuOffset memType))
  | _ => .error .EINVAL

/-- A position in the nodes: `mm_start` and `mm_size`, and the nodes after the current one. -/
structure MmCursor where
  start : BitVec 64
  size : ℕ
  size_pos : 0 < size
  rest : List MmNode

section

variable (gpuOffset : MemType → BitVec 64)

/-- Start with the first of some nodes. -/
def MmCursor.enter (memType : MemType) (ttmBind : Option Errno) :
    List MmNode → Except MoveEnd MmCursor
  | [] => .error .fault
  | node :: rest =>
    match mmNodeAddr gpuOffset memType ttmBind node with
    | .error e => .error (.ret (some e))
    | .ok addr => .ok ⟨addr, node.size, node.size_pos, rest⟩

/-- Go on by some pages of the current node; at its end, to the next node. -/
def MmCursor.advance (memType : MemType) (ttmBind : Option Errno) (c : MmCursor) (cur : ℕ) :
    Except MoveEnd MmCursor :=
  if h : c.size - cur = 0 then enter gpuOffset memType ttmBind c.rest
  else .ok ⟨c.start + BitVec.ofNat 64 (cur * pageSize), c.size - cur, Nat.pos_of_ne_zero h, c.rest⟩

variable (engine : DmaEngine) (env : MoveEnv) (oldType newType : MemType)

/-- The loop of `amdgpu_move_blit` from round `n` on: the commands, and how it ends. -/
def blitLoop (n numPages : ℕ) (old new : MmCursor) : List CopyCmd × MoveEnd :=
  if numPages = 0 then ([], .ret none)
  else
    let cur := min old.size new.size
    match copyBuffer engine (env.job n) old.start new.start (BitVec.ofNat 32 (cur * pageSize)) with
    | .error e => ([], .ret (some e))
    | .ok cmds =>
      if numPages - cur = 0 then (cmds, .ret none)
      else
        match old.advance gpuOffset oldType (env.ttmBindOld (n + 1)) cur with
        | .error r => (cmds, r)
        | .ok old' =>
          match new.advance gpuOffset newType (env.ttmBindNew (n + 1)) cur with
          | .error r => (cmds, r)
          | .ok new' =>
            let next := blitLoop (n + 1) (numPages - cur) old' new'
            (cmds ++ next.1, next.2)
termination_by numPages
decreasing_by
  have := old.size_pos
  have := new.size_pos
  omega

/-- `amdgpu_move_blit` -/
def moveBlit {numPages : ℕ} (old new : BoMem numPages) : List CopyCmd × MoveEnd :=
  if !env.ready then ([], .ret (some .EINVAL))
  else
    match MmCursor.enter gpuOffset old.memType (env.ttmBindOld 0) old.mmNode with
    | .error r => ([], r)
    | .ok oldMm =>
      match MmCursor.enter gpuOffset new.memType (env.ttmBindNew 0) new.mmNode with
      | .error r => ([], r)
      | .ok newMm =>
        match blitLoop gpuOffset engine env old.memType new.memType 0 numPages oldMm newMm with
        | (cmds, .ret none) => (cmds, .ret env.pipelineMove)
        | (cmds, r) => (cmds, r)

end

/-! ## What it should do -/

/-- The transfers of the bytes of some pages to other pages, in order. -/
def pageTransfers (old new : List (BitVec 64)) : List (BitVec 64 × BitVec 64) :=
  (old.zip new).flatMap fun p => bytePairs p.1 p.2 pageSize

/-- The pages of a buffer object, in order. -/
def BoMem.pages (gpuOffset : MemType → BitVec 64) {numPages : ℕ} (mem : BoMem numPages) :
    List (BitVec 64) :=
  mem.mmNode.flatMap (MmNode.pages (gpuOffset mem.memType))

/-- The `len` pages from page `i` on are in one of the nodes, given by their sizes. -/
def InOneNode : List ℕ → ℕ → ℕ → Prop
  | [], _, _ => False
  | size :: sizes, i, len => i + len ≤ size ∨ size ≤ i ∧ InOneNode sizes (i - size) len

/-- No run of pages that is in one node of both lists is too long to be copied by one job. -/
def RunsFit (maxBytes : ℕ) (old new : List ℕ) : Prop :=
  ∀ i len, InOneNode old i len → InOneNode new i len → len * pageSize + maxBytes ≤ 2 ^ 32

/-- The memory types with an address for `amdgpu_mm_node_addr`. -/
def MemType.HasAddr (memType : MemType) : Prop :=
  memType = .tt ∨ memType = .vram ∨ memType = .dgma ∨ memType = .dgmaImport

/-- Every answer is `0`. -/
structure MoveEnv.Granted (env : MoveEnv) : Prop where
  ready : env.ready = true
  ttmBindOld : ∀ n, env.ttmBindOld n = none
  ttmBindNew : ∀ n, env.ttmBindNew n = none
  job : ∀ n, (env.job n).Granted
  pipelineMove : env.pipelineMove = none

/-! ## Transfers of pages -/

theorem pageTransfers_append {as bs as' bs' : List (BitVec 64)} (h : as.length = bs.length) :
    pageTransfers (as ++ as') (bs ++ bs') = pageTransfers as bs ++ pageTransfers as' bs' := by
  rw [pageTransfers, List.zip_append h, List.flatMap_append]
  rfl

/-- Pages next to each other are bytes next to each other. -/
theorem pageTransfers_pagesFrom (a b : BitVec 64) (n : ℕ) :
    pageTransfers (pagesFrom a n) (pagesFrom b n) = bytePairs a b (n * pageSize) := by
  induction n with
  | zero => simp [pageTransfers, pagesFrom, bytePairs]
  | succ n ih =>
    rw [pagesFrom_add, pagesFrom_add, pageTransfers_append (by simp), ih, Nat.add_mul,
      bytePairs_add, Nat.one_mul]
    simp [pageTransfers, pagesFrom]

theorem length_pageTransfers {as bs : List (BitVec 64)} {n : ℕ} (ha : as.length = n)
    (hb : bs.length = n) : (pageTransfers as bs).length = n * pageSize := by
  simp [pageTransfers, List.length_flatMap, ha, hb]

/-- Two lists that are not too long are put together right only if each is right. -/
theorem append_eq_append_iff_of_length_le {α : Type*} {xs ys es fs : List α}
    (hx : xs.length ≤ es.length) (hy : ys.length ≤ fs.length) :
    xs ++ ys = es ++ fs ↔ xs = es ∧ ys = fs := by
  constructor
  · intro h
    have hlen := congrArg List.length h
    simp only [List.length_append] at hlen
    exact List.append_inj h (by omega)
  · rintro ⟨rfl, rfl⟩
    rfl

/-! ## Runs -/

/-- The sizes of the nodes when some pages of the first one are done. -/
def dropPages (size cur : ℕ) (sizes : List ℕ) : List ℕ :=
  if size - cur = 0 then sizes else (size - cur) :: sizes

theorem inOneNode_of_dropPages {size cur : ℕ} {sizes : List ℕ} {i len : ℕ} (hcur : cur ≤ size)
    (h : InOneNode (dropPages size cur sizes) i len) : InOneNode (size :: sizes) (i + cur) len := by
  unfold dropPages at h
  split_ifs at h with hzero
  · refine .inr ⟨by omega, ?_⟩
    rwa [show i + cur - size = i by omega]
  · rcases h with h | ⟨hle, h⟩
    · exact .inl (by omega)
    · refine .inr ⟨by omega, ?_⟩
      rwa [show i + cur - size = i - (size - cur) by omega]

theorem inOneNode_dropPages {size cur : ℕ} {sizes : List ℕ} {i len : ℕ} (hcur : cur ≤ size)
    (hi : cur ≤ i) (hlen : 0 < len) (h : InOneNode (size :: sizes) i len) :
    InOneNode (dropPages size cur sizes) (i - cur) len := by
  unfold dropPages
  split_ifs with hzero
  · rcases h with h | ⟨hle, h⟩
    · omega
    · rwa [show i - cur = i - size by omega]
  · rcases h with h | ⟨hle, h⟩
    · exact .inl (by omega)
    · refine .inr ⟨by omega, ?_⟩
      rwa [show i - cur - (size - cur) = i - size by omega]

/-- The runs fit if the first one does, and those of the pages after it. -/
theorem runsFit_cons_iff {maxBytes a b : ℕ} (hmax : maxBytes ≤ 2 ^ 32) (as bs : List ℕ) :
    RunsFit maxBytes (a :: as) (b :: bs) ↔
      min a b * pageSize + maxBytes ≤ 2 ^ 32 ∧
        RunsFit maxBytes (dropPages a (min a b) as) (dropPages b (min a b) bs) := by
  constructor
  · intro h
    refine ⟨h 0 (min a b) (.inl (by omega)) (.inl (by omega)), fun i len ha hb => ?_⟩
    exact h (i + min a b) len (inOneNode_of_dropPages (min_le_left a b) ha)
      (inOneNode_of_dropPages (min_le_right a b) hb)
  · rintro ⟨hfirst, hrest⟩ i len ha hb
    rcases Nat.eq_zero_or_pos len with rfl | hlen
    · simpa using hmax
    by_cases hi : min a b ≤ i
    · exact hrest (i - min a b) len (inOneNode_dropPages (min_le_left a b) hi hlen ha)
        (inOneNode_dropPages (min_le_right a b) hi hlen hb)
    · -- the run starts before the end of the first one, so it is in the first node of both
      have hlen' : len ≤ min a b := by
        rcases ha with ha | ha <;> rcases hb with hb | hb <;> omega
      have := Nat.mul_le_mul_right pageSize hlen'
      omega

/-! ## Positions in the nodes -/

namespace MmCursor

variable (gpuOffset : MemType → BitVec 64) {memType : MemType} {ttmBind : Option Errno}
  {nodes : List MmNode} {c c' : MmCursor} {cur : ℕ}

/-- The pages that are left. -/
def pages (memType : MemType) (c : MmCursor) : List (BitVec 64) :=
  pagesFrom c.start c.size ++ c.rest.flatMap (MmNode.pages (gpuOffset memType))

/-- The sizes of what is left of the nodes. -/
def sizes (c : MmCursor) : List ℕ := c.size :: c.rest.map MmNode.size

theorem length_pages (memType : MemType) (c : MmCursor) :
    (c.pages gpuOffset memType).length = c.sizes.sum := by
  simp [pages, sizes, List.length_flatMap, MmNode.pages]

theorem mmNodeAddr_eq_ok {node : MmNode} {addr : BitVec 64}
    (h : mmNodeAddr gpuOffset memType ttmBind node = .ok addr) :
    addr = node.addr (gpuOffset memType) := by
  unfold mmNodeAddr at h
  split at h
  · split at h
    · cases h
    · cases h; rfl
  · cases h; rfl
  · cases h; rfl
  · cases h; rfl
  · cases h

theorem enter_eq_ok (h : enter gpuOffset memType ttmBind nodes = .ok c) :
    c.pages gpuOffset memType = nodes.flatMap (MmNode.pages (gpuOffset memType)) ∧
      c.sizes = nodes.map MmNode.size := by
  cases nodes with
  | nil => cases h
  | cons node rest =>
    rw [enter] at h
    split at h
    · cases h
    · rename_i addr haddr
      cases h
      rw [mmNodeAddr_eq_ok gpuOffset haddr]
      exact ⟨rfl, rfl⟩

/-- Only an error of `amdgpu_mm_node_addr` keeps from entering a node. -/
theorem enter_eq_error {r : MoveEnd} (hne : nodes ≠ [])
    (h : enter gpuOffset memType ttmBind nodes = .error r) : ∃ e, r = .ret (some e) := by
  cases nodes with
  | nil => exact absurd rfl hne
  | cons node rest =>
    rw [enter] at h
    split at h
    · cases h
      exact ⟨_, rfl⟩
    · cases h

/-- Going on by some pages leaves the pages after them. -/
theorem advance_eq_ok (hcur : cur ≤ c.size)
    (h : c.advance gpuOffset memType ttmBind cur = .ok c') :
    c.pages gpuOffset memType = pagesFrom c.start cur ++ c'.pages gpuOffset memType ∧
      c'.sizes = dropPages c.size cur (c.rest.map MmNode.size) := by
  unfold advance at h
  unfold dropPages
  split_ifs at h ⊢ with hzero
  · obtain ⟨hpages, hsizes⟩ := enter_eq_ok gpuOffset h
    have hsize : c.size = cur := by omega
    rw [hpages, hsizes, pages, hsize]
    exact ⟨rfl, rfl⟩
  · cases h
    have hsplit := pagesFrom_add c.start cur (c.size - cur)
    rw [Nat.add_sub_cancel' hcur] at hsplit
    constructor
    · rw [pages, hsplit, List.append_assoc]
      rfl
    · rfl

/-- Going on fails only by an error, if there are pages left. -/
theorem advance_eq_error {r : MoveEnd} (hlt : cur < c.sizes.sum)
    (h : c.advance gpuOffset memType ttmBind cur = .error r) : ∃ e, r = .ret (some e) := by
  unfold advance at h
  split_ifs at h with hzero
  refine enter_eq_error gpuOffset ?_ h
  rintro hnil
  simp [sizes, hnil] at hlt
  omega

theorem sum_dropPages (hcur : cur ≤ c.size)
    (hsizes : c'.sizes = dropPages c.size cur (c.rest.map MmNode.size)) :
    c'.sizes.sum = c.sizes.sum - cur := by
  rw [hsizes, dropPages, sizes]
  split_ifs <;> simp only [List.sum_cons] <;> omega

/-- The last run ends with the last node. -/
theorem last_run (memType : MemType) (hcur : cur ≤ c.size) (hsum : c.sizes.sum ≤ cur) :
    c.pages gpuOffset memType = pagesFrom c.start cur ∧
      dropPages c.size cur (c.rest.map MmNode.size) = [] := by
  rw [sizes, List.sum_cons] at hsum
  have hsize : c.size = cur := by omega
  have hrest : c.rest = [] := by
    cases hrest : c.rest with
    | nil => rfl
    | cons node rest =>
      have := node.size_pos
      rw [hrest, List.map_cons, List.sum_cons] at hsum
      omega
  simp [pages, dropPages, hsize, hrest]

/-- Entering a node succeeds if it has an address and can be bound. -/
theorem enter_granted (hne : nodes ≠ []) (htype : memType.HasAddr) (hbind : ttmBind = none) :
    ∃ c, enter gpuOffset memType ttmBind nodes = .ok c := by
  cases nodes with
  | nil => exact absurd rfl hne
  | cons node rest => rcases htype with rfl | rfl | rfl | rfl <;> simp [enter, mmNodeAddr, hbind]

/-- Going on succeeds if there are pages left. -/
theorem advance_granted (hlt : cur < c.sizes.sum) (htype : memType.HasAddr)
    (hbind : ttmBind = none) : ∃ c', c.advance gpuOffset memType ttmBind cur = .ok c' := by
  unfold advance
  split_ifs with hzero
  · refine enter_granted gpuOffset ?_ htype hbind
    rintro hnil
    simp [sizes, hnil] at hlt
    omega
  · exact ⟨_, rfl⟩

end MmCursor

/-! ## The loop -/

section

variable (gpuOffset : MemType → BitVec 64) (engine : DmaEngine) (env : MoveEnv)
  (oldType newType : MemType)

/-- The first run: its transfers are right if and only if it is not too long. -/
theorem firstRun_right_iff {job : JobAnswers} {src dst : BitVec 64} {cur : ℕ}
    {cmds : List CopyCmd}
    (h : copyBuffer engine job src dst (BitVec.ofNat 32 (cur * pageSize)) = .ok cmds) :
    (cmds.flatMap CopyCmd.transfers).length ≤ cur * pageSize ∧
      (cmds.flatMap CopyCmd.transfers = bytePairs src dst (cur * pageSize) ↔
        cur * pageSize + engine.copyMaxBytes ≤ 2 ^ 32) := by
  rw [copyBuffer_transfers h,
    ← Chunks.covered_eq_iff engine.copyMaxBytes_pos engine.copyMaxBytes_le]
  refine ⟨(length_bytePairs _ _ _).trans_le (Chunks.covered_le _ _ _), fun heq => ?_, fun heq => ?_⟩
  · simpa using congrArg List.length heq
  · rw [heq]

/-- **What the loop does**: it never leaves the nodes, and when it is done its transfers are those
of the pages if and only if the runs fit. -/
theorem blitLoop_spec (n numPages : ℕ) (old new : MmCursor) (hold : old.sizes.sum = numPages)
    (hnew : new.sizes.sum = numPages) :
    let r := blitLoop gpuOffset engine env oldType newType n numPages old new
    r.2 ≠ .fault ∧ (r.2 = .ret none →
      (r.1.flatMap CopyCmd.transfers).length ≤ numPages * pageSize ∧
        (r.1.flatMap CopyCmd.transfers =
            pageTransfers (old.pages gpuOffset oldType) (new.pages gpuOffset newType) ↔
          RunsFit engine.copyMaxBytes old.sizes new.sizes)) := by
  fun_induction blitLoop gpuOffset engine env oldType newType n numPages old new with
  | case1 n old new =>
    have := old.size_pos
    simp only [MmCursor.sizes, List.sum_cons] at hold
    omega
  | case2 n numPages old new hpos cur e hcopy => simp
  | case3 n numPages old new hpos cur cmds hcopy hdone =>
    obtain ⟨holdPages, holdSizes⟩ :=
      old.last_run gpuOffset oldType (min_le_left old.size new.size) (by omega)
    obtain ⟨hnewPages, -⟩ :=
      new.last_run gpuOffset newType (min_le_right old.size new.size) (by omega)
    obtain ⟨hle, hright⟩ := firstRun_right_iff engine hcopy
    have hcur : cur ≤ numPages := by
      rw [← hold, MmCursor.sizes, List.sum_cons]
      exact (min_le_left _ _).trans (Nat.le_add_right _ _)
    refine ⟨by simp, fun _ => ⟨hle.trans (Nat.mul_le_mul_right _ hcur), ?_⟩⟩
    rw [holdPages, hnewPages, pageTransfers_pagesFrom, hright, MmCursor.sizes, MmCursor.sizes,
      runsFit_cons_iff engine.copyMaxBytes_le, holdSizes]
    -- nothing is left after the last run
    exact (and_iff_left fun i len h => h.elim).symm
  | case4 n numPages old new hpos cur cmds hcopy hdone r hadv =>
    obtain ⟨e, rfl⟩ := MmCursor.advance_eq_error gpuOffset (by omega) hadv
    simp
  | case5 n numPages old new hpos cur cmds hcopy hdone old' hadv r hadv' =>
    obtain ⟨e, rfl⟩ := MmCursor.advance_eq_error gpuOffset (by omega) hadv'
    simp
  | case6 n numPages old new hpos cur cmds hcopy hdone old' hadv new' hadv' next ih =>
    obtain ⟨holdPages, holdSizes⟩ := MmCursor.advance_eq_ok gpuOffset (min_le_left _ _) hadv
    obtain ⟨hnewPages, hnewSizes⟩ := MmCursor.advance_eq_ok gpuOffset (min_le_right _ _) hadv'
    have hold' := MmCursor.sum_dropPages (min_le_left _ _) holdSizes
    have hnew' := MmCursor.sum_dropPages (min_le_right _ _) hnewSizes
    rw [hold] at hold'
    rw [hnew] at hnew'
    obtain ⟨hfault, hnext⟩ := ih hold' hnew'
    refine ⟨hfault, fun hdone' => ?_⟩
    obtain ⟨hleNext, hrightNext⟩ := hnext hdone'
    obtain ⟨hle, hright⟩ := firstRun_right_iff engine hcopy
    have hlength : numPages * pageSize = cur * pageSize + (numPages - cur) * pageSize := by
      rw [← Nat.add_mul, Nat.add_sub_cancel' (by omega)]
    have hexpected := length_pageTransfers
      ((old'.length_pages gpuOffset oldType).trans hold')
      ((new'.length_pages gpuOffset newType).trans hnew')
    rw [List.flatMap_append, holdPages, hnewPages,
      pageTransfers_append (by rw [length_pagesFrom, length_pagesFrom]), pageTransfers_pagesFrom]
    constructor
    · rw [List.length_append, hlength]
      exact Nat.add_le_add hle hleNext
    · rw [append_eq_append_iff_of_length_le (by rwa [length_bytePairs])
        (hleNext.trans_eq hexpected.symm), hright, hrightNext, holdSizes, hnewSizes]
      exact (runsFit_cons_iff engine.copyMaxBytes_le _ _).symm

/-- When everything is granted the loop gets to its end. -/
theorem blitLoop_granted (henv : env.Granted) (hold : oldType.HasAddr) (hnew : newType.HasAddr)
    (n numPages : ℕ) (old new : MmCursor) (holdSum : old.sizes.sum = numPages)
    (hnewSum : new.sizes.sum = numPages) :
    (blitLoop gpuOffset engine env oldType newType n numPages old new).2 = .ret none := by
  fun_induction blitLoop gpuOffset engine env oldType newType n numPages old new with
  | case1 => rfl
  | case2 n numPages old new hpos cur e hcopy =>
    obtain ⟨cmds, hgranted⟩ := copyBuffer_granted (henv.job n) engine old.start new.start
      (BitVec.ofNat 32 (cur * pageSize))
    rw [hcopy] at hgranted
    cases hgranted
  | case3 => rfl
  | case4 n numPages old new hpos cur cmds hcopy hdone r hadv =>
    obtain ⟨old', hgranted⟩ := MmCursor.advance_granted gpuOffset
      (show cur < old.sizes.sum by omega) hold (henv.ttmBindOld (n + 1))
    rw [hadv] at hgranted
    cases hgranted
  | case5 n numPages old new hpos cur cmds hcopy hdone old' hadv r hadv' =>
    obtain ⟨new', hgranted⟩ := MmCursor.advance_granted gpuOffset
      (show cur < new.sizes.sum by omega) hnew (henv.ttmBindNew (n + 1))
    rw [hadv'] at hgranted
    cases hgranted
  | case6 n numPages old new hpos cur cmds hcopy hdone old' hadv new' hadv' next ih =>
    obtain ⟨-, holdSizes⟩ := MmCursor.advance_eq_ok gpuOffset (min_le_left _ _) hadv
    obtain ⟨-, hnewSizes⟩ := MmCursor.advance_eq_ok gpuOffset (min_le_right _ _) hadv'
    refine ih ?_ ?_
    · rw [MmCursor.sum_dropPages (min_le_left _ _) holdSizes, holdSum]
    · rw [MmCursor.sum_dropPages (min_le_right _ _) hnewSizes, hnewSum]

end

/-! ## The move -/

section

variable (gpuOffset : MemType → BitVec 64) (engine : DmaEngine) (env : MoveEnv) {numPages : ℕ}
  (old new : BoMem numPages)

/-- A move ends before its loop, with an error, or as its loop from the first nodes. -/
theorem moveBlit_cases :
    (∃ e, moveBlit gpuOffset engine env old new = ([], .ret (some e))) ∨
      ∃ oldMm newMm : MmCursor,
        MmCursor.enter gpuOffset old.memType (env.ttmBindOld 0) old.mmNode = .ok oldMm ∧
        MmCursor.enter gpuOffset new.memType (env.ttmBindNew 0) new.mmNode = .ok newMm ∧
        let r := blitLoop gpuOffset engine env old.memType new.memType 0 numPages oldMm newMm
        moveBlit gpuOffset engine env old new =
          (r.1, if r.2 = .ret none then .ret env.pipelineMove else r.2) := by
  unfold moveBlit
  split_ifs with hready
  · exact .inl ⟨_, rfl⟩
  cases hold : MmCursor.enter gpuOffset old.memType (env.ttmBindOld 0) old.mmNode with
  | error r =>
    obtain ⟨e, rfl⟩ := MmCursor.enter_eq_error gpuOffset old.ne_nil hold
    exact .inl ⟨e, rfl⟩
  | ok oldMm =>
    cases hnew : MmCursor.enter gpuOffset new.memType (env.ttmBindNew 0) new.mmNode with
    | error r =>
      obtain ⟨e, rfl⟩ := MmCursor.enter_eq_error gpuOffset new.ne_nil hnew
      exact .inl ⟨e, rfl⟩
    | ok newMm =>
      refine .inr ⟨oldMm, newMm, rfl, rfl, ?_⟩
      dsimp only
      rcases blitLoop gpuOffset engine env old.memType new.memType 0 numPages oldMm newMm with
        ⟨cmds, ⟨_ | e⟩ | _⟩ <;> simp

/-- When everything is granted the move returns `0`. -/
theorem moveBlit_granted (henv : env.Granted) (hold : old.memType.HasAddr)
    (hnew : new.memType.HasAddr) : (moveBlit gpuOffset engine env old new).2 = .ret none := by
  obtain ⟨oldMm, holdMm⟩ :=
    MmCursor.enter_granted gpuOffset old.ne_nil hold (henv.ttmBindOld 0)
  obtain ⟨newMm, hnewMm⟩ :=
    MmCursor.enter_granted gpuOffset new.ne_nil hnew (henv.ttmBindNew 0)
  have holdSum : oldMm.sizes.sum = numPages := by
    rw [(MmCursor.enter_eq_ok gpuOffset holdMm).2, old.sum_size]
  have hnewSum : newMm.sizes.sum = numPages := by
    rw [(MmCursor.enter_eq_ok gpuOffset hnewMm).2, new.sum_size]
  have hloop := blitLoop_granted gpuOffset engine env old.memType new.memType henv hold hnew 0
    numPages oldMm newMm holdSum hnewSum
  simp only [moveBlit, henv.ready, holdMm, hnewMm]
  rcases hr : blitLoop gpuOffset engine env old.memType new.memType 0 numPages oldMm newMm with
    ⟨cmds, r⟩
  rw [hr] at hloop
  cases hloop
  simp [henv.pipelineMove]

/-- What a move that returns `0` transfers. -/
theorem moveBlit_spec :
    let r := moveBlit gpuOffset engine env old new
    r.2 ≠ .fault ∧ (r.2 = .ret none →
      (r.1.flatMap CopyCmd.transfers = pageTransfers (old.pages gpuOffset) (new.pages gpuOffset) ↔
        RunsFit engine.copyMaxBytes (old.mmNode.map MmNode.size)
          (new.mmNode.map MmNode.size))) := by
  obtain ⟨e, heq⟩ | ⟨oldMm, newMm, holdMm, hnewMm, heq⟩ :=
    moveBlit_cases gpuOffset engine env old new
  · simp [heq]
  obtain ⟨holdPages, holdSizes⟩ := MmCursor.enter_eq_ok gpuOffset holdMm
  obtain ⟨hnewPages, hnewSizes⟩ := MmCursor.enter_eq_ok gpuOffset hnewMm
  obtain ⟨hfault, hspec⟩ := blitLoop_spec gpuOffset engine env old.memType new.memType 0 numPages
    oldMm newMm (by rw [holdSizes, old.sum_size]) (by rw [hnewSizes, new.sum_size])
  rw [holdPages, hnewPages, holdSizes, hnewSizes] at hspec
  simp only [heq]
  split_ifs with hdone
  · exact ⟨by simp, fun _ => (hspec hdone).2⟩
  · exact ⟨hfault, fun h => absurd h hdone⟩

/-- For every engine, every old and new memory of a buffer object, and whatever the called functions
answer: a move never runs past the nodes, returns `0` if every answer is `0`, and if it returns `0`
its commands transfer the bytes of page `i` of the old memory to page `i` of the new memory, for
every `i` in order, each once and nothing else, if and only if no run of pages in one old and one
new node has more than `2 ^ 32 - copy_max_bytes` bytes. -/
theorem moveBlit_right_iff :
    (moveBlit gpuOffset engine env old new).2 ≠ .fault ∧
      (env.Granted ∧ old.memType.HasAddr ∧ new.memType.HasAddr →
        (moveBlit gpuOffset engine env old new).2 = .ret none) ∧
      ((moveBlit gpuOffset engine env old new).2 = .ret none →
        ((moveBlit gpuOffset engine env old new).1.flatMap CopyCmd.transfers =
            pageTransfers (old.pages gpuOffset) (new.pages gpuOffset) ↔
          RunsFit engine.copyMaxBytes (old.mmNode.map MmNode.size)
            (new.mmNode.map MmNode.size))) := by
  obtain ⟨hfault, hspec⟩ := moveBlit_spec gpuOffset engine env old new
  exact ⟨hfault, fun h => moveBlit_granted gpuOffset engine env old new h.1 h.2.1 h.2.2, hspec⟩

end

/-- Answers that are all `0`. -/
def MoveEnv.allGranted : MoveEnv where
  ready := true
  ttmBindOld _ := none
  ttmBindNew _ := none
  job _ := ⟨fun _ => none, none, none⟩
  pipelineMove := none

theorem MoveEnv.allGranted_granted : MoveEnv.allGranted.Granted :=
  ⟨rfl, fun _ => rfl, fun _ => rfl, fun _ => ⟨fun _ => rfl, rfl, rfl⟩, rfl⟩

/-- A move of three pages, from a node of one and a node of two pages to a node of two and a node of
one page, is right. -/
theorem moveBlit_right_threePages : ∃ old new : BoMem 3,
    old.mmNode.map MmNode.size = [1, 2] ∧ new.mmNode.map MmNode.size = [2, 1] ∧
      (moveBlit (fun _ => 0) .sdmaV30 .allGranted old new).1.flatMap CopyCmd.transfers =
        pageTransfers (old.pages fun _ => 0) (new.pages fun _ => 0) := by
  refine ⟨⟨.vram, [⟨10, 1, by decide⟩, ⟨20, 2, by decide⟩], by decide, rfl⟩,
    ⟨.tt, [⟨0, 2, by decide⟩, ⟨7, 1, by decide⟩], by decide, rfl⟩, rfl, rfl, ?_⟩
  obtain ⟨-, hgranted, hright⟩ := moveBlit_right_iff (fun _ => 0) .sdmaV30 .allGranted
    ⟨.vram, [⟨10, 1, by decide⟩, ⟨20, 2, by decide⟩], by decide, rfl⟩
    ⟨.tt, [⟨0, 2, by decide⟩, ⟨7, 1, by decide⟩], by decide, rfl⟩
  refine (hright (hgranted ⟨MoveEnv.allGranted_granted, .inr (.inl rfl), .inl rfl⟩)).mpr ?_
  intro i len hold hnew
  simp only [List.map_cons, List.map_nil, InOneNode, and_false, or_false] at hold
  simp only [DmaEngine.copyMaxBytes, pageSize, pageShift]
  omega

/-- A buffer object of four gigabytes in one node is moved to one node: the number of bytes is `0`
as a `uint32_t`, the move returns `0`, and nothing is copied. -/
theorem moveBlit_copies_nothing : ∃ old new : BoMem (2 ^ 20),
    moveBlit (fun _ => 0) .sdmaV30 .allGranted old new = ([], .ret none) ∧
      ([] : List CopyCmd).flatMap CopyCmd.transfers ≠
        pageTransfers (old.pages fun _ => 0) (new.pages fun _ => 0) := by
  refine ⟨⟨.vram, [⟨0, 2 ^ 20, by decide⟩], by decide, rfl⟩,
    ⟨.tt, [⟨0, 2 ^ 20, by decide⟩], by decide, rfl⟩, ?_, fun h => ?_⟩
  · have hcopy (src dst : BitVec 64) :
        copyBuffer .sdmaV30 ⟨fun _ => none, none, none⟩ src dst
          (BitVec.ofNat 32 (1048576 * pageSize)) = .ok [] := rfl
    simp [moveBlit, MoveEnv.allGranted, MmCursor.enter, mmNodeAddr, blitLoop, hcopy]
  · have hlength := congrArg List.length h
    rw [length_pageTransfers (n := 2 ^ 20) (by simp [BoMem.pages, MmNode.pages])
      (by simp [BoMem.pages, MmNode.pages])] at hlength
    simp [pageSize] at hlength

end Amdgpu
