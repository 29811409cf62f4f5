import AmdgpuPro.Lib.Bitmap
import AmdgpuPro.Vm.PageTable

set_option autoImplicit false

/-!
# Validation of the buffer objects of a submission

Before a submission runs, `amdgpu_cs_list_validate` has each buffer object of a list moved to a
domain it may be in. If there is no memory, `amdgpu_cs_try_evict` moves another buffer object of
the submission out of the way, and puts its entry to the front of the list, behind the cursor of
the loop; the loop does not come to it any more.

For a buffer object with a shadow, `amdgpu_cs_validate` calls `amdgpu_cs_bo_validate` with the
buffer object itself for a second time, and never with its shadow.

## Main definitions

* `Amdgpu.CsListValidated` — the buffer objects of a list and their shadows were moved to domains
  they may be in.
* `CsMoves` — how an iteration may change the list around its cursor.

## Main results

* `Amdgpu.csListValidate_placed` — every entry of the list is placed or pinned.
* `csListValidate_iff` — a call that returns `0`.

## Design

What `ttm_bo_validate` returns comes from a list of outcomes, one for each call; a call of the
driver that needs more of them has not returned. A placement is the list of its memory types, and
only they can be the outcome of a success. A shadow is no entry of a list, since it has no handle.
-/

namespace Amdgpu

/-! ## Domains and placements -/

/-- `amdgpu_mem_type_to_domain` -/
def memTypeToDomain : MemType → BitVec 32
  | .system => 0x1
  | .tt => 0x2
  | .vram => 0x4
  | .gds => 0x8
  | .gws => 0x10
  | .oa => 0x20
  | .dgma => 0x40
  | .dgmaImport => 0x80

/-- The memory types in the order of `amdgpu_ttm_placement_init`. -/
def placementOrder (directGma : Bool) : List MemType :=
  (if directGma then [.dgma, .dgmaImport] else []) ++ [.vram, .tt, .system, .gds, .gws, .oa]

/-- The memory types of the placement that `amdgpu_ttm_placement_from_domain` makes; `directGma`
stands for `amdgpu_direct_gma_size != 0`. -/
def placementFromDomain (directGma : Bool) (domain : BitVec 32) : List MemType :=
  let types := (placementOrder directGma).filter fun t => domain &&& memTypeToDomain t ≠ 0
  if types = [] then [.system] else types

/-! ## Model -/

/-- A buffer object, as the functions that make it and that set its placement leave it. -/
structure ValidateBo where
  pinCount : ℕ
  preferedDomains : BitVec 32
  allowedDomains : BitVec 32
  /-- `amdgpu_ttm_tt_get_usermm` -/
  usermm : Option ℕ
  shadow : Option ℕ
  prefered_allowed : ∀ i, preferedDomains.getLsbD i = true → allowedDomains.getLsbD i = true
  allowed_eq_zero : preferedDomains = 0 → allowedDomains = 0

/-- What does not change in a call. -/
structure ValidateEnv where
  /-- `lobj->robj` -/
  robj : ℕ → ℕ
  bo : ℕ → ValidateBo
  directGma : Bool
  /-- `current->mm` -/
  mm : ℕ
  /-- `p->bytes_moved_threshold` -/
  bytesMovedThreshold : BitVec 64
  /-- the pages of the buffer object are bound when the loop comes to the entry -/
  bound : ℕ → Bool
  robj_ne_shadow : ∀ entry b, (bo b).shadow ≠ some (robj entry)
  /-- there are no domains without memory -/
  allowed_placed : ∀ b i, (bo b).allowedDomains.getLsbD i = true →
    ∃ t ∈ placementOrder directGma, memTypeToDomain t = BitVec.twoPow 32 i

/-- What a call of `ttm_bo_validate` returns, with the memory type it chose and the bytes that were
moved. -/
structure TtmOutcome where
  result : Except Errno MemType
  moved : BitVec 64

/-- `p->evictable`: it can be `NULL`, or the head of the list taken for an entry. -/
inductive Evictable
  | null
  | head
  | entry (e : ℕ)
  deriving DecidableEq

/-- What changes in a call. -/
structure ValidateState where
  /-- the entries of `p->validated` -/
  validated : List ℕ
  evictable : Evictable
  bytesMoved : BitVec 64
  memType : ℕ → MemType
  /-- `lobj->user_pages` is not `NULL` -/
  userPages : ℕ → Bool
  /-- the entry whose pages were copied to the buffer object -/
  ttmPages : ℕ → Option ℕ
  outcomes : List TtmOutcome
  /-- the successful calls of `ttm_bo_validate` -/
  placed : List (ℕ × MemType)

section Model

variable (env : ValidateEnv)

/-- `ttm_bo_validate` with a placement for `domain` -/
def ttmBoValidate (bo : ℕ) (domain : BitVec 32) (p : ValidateState) :
    Option (ValidateState × Option Errno) :=
  match p.outcomes with
  | [] => none
  | outcome :: outcomes =>
    let p := { p with outcomes := outcomes, bytesMoved := p.bytesMoved + outcome.moved }
    match outcome.result with
    | .error e => some (p, some e)
    | .ok t =>
      if t ∈ placementFromDomain env.directGma domain then
        some ({ p with
          memType := Function.update p.memType bo t
          placed := (bo, t) :: p.placed }, none)
      else none

/-- `amdgpu_cs_bo_validate` -/
def csBoValidate (bo : ℕ) (p : ValidateState) : Option (ValidateState × Option Errno) :=
  if (env.bo bo).pinCount ≠ 0 then some (p, none)
  else
    let domain :=
      if p.bytesMoved < env.bytesMovedThreshold then (env.bo bo).preferedDomains
      else (env.bo bo).allowedDomains
    match ttmBoValidate env bo domain p with
    | none => none
    | some (p, r) =>
      if r = some .ENOMEM ∧ domain ≠ (env.bo bo).allowedDomains then
        ttmBoValidate env bo (env.bo bo).allowedDomains p
      else some (p, r)

/-- `list_prev_entry` of an entry, whose predecessors are given -/
def Evictable.prev : List ℕ → Evictable
  | [] => .head
  | e :: _ => .entry e

/-- The loop of `amdgpu_cs_try_evict` over the entries from `p->evictable` back to the head. -/
def csTryEvictLoop (validated : ℕ) : List ℕ → ValidateState → Option (ValidateState × Bool)
  | [], p => some ({ p with evictable := .head }, false)
  | candidate :: rest, p =>
    let p := { p with evictable := .entry candidate }
    let bo := env.robj candidate
    let domain := (env.bo validated).allowedDomains
    let other := (env.bo bo).allowedDomains &&& ~~~domain
    if bo = validated then some (p, false)
    else if memTypeToDomain (p.memType bo) &&& domain = 0 then csTryEvictLoop validated rest p
    else if other = 0 then csTryEvictLoop validated rest p
    else
      match ttmBoValidate env bo other p with
      | none => none
      | some (p, some _) => some (p, false)
      | some (p, none) =>
        some ({ p with
          evictable := .prev rest
          validated := candidate :: p.validated.erase candidate }, true)

/-- `amdgpu_cs_try_evict` -/
def csTryEvict (validated : ℕ) (p : ValidateState) : Option (ValidateState × Bool) :=
  match p.evictable with
  | .entry e =>
    csTryEvictLoop env validated (e :: (p.validated.takeWhile (· ≠ e)).reverse) p
  | _ => some (p, false)

/-- The loop of `amdgpu_cs_validate`. -/
def csValidateLoop (bo : ℕ) : ℕ → ValidateState → Option (ValidateState × Option Errno)
  | 0, _ => none
  | fuel + 1, p =>
    match csBoValidate env bo p with
    | none => none
    | some (p, r) =>
      if r = some .ENOMEM then
        match csTryEvict env bo p with
        | none => none
        | some (p, true) => csValidateLoop bo fuel p
        | some (p, false) => some (p, r)
      else some (p, r)

/-- `amdgpu_cs_validate`. Every iteration of the loop but the last one takes an outcome. -/
def csValidate (bo : ℕ) (p : ValidateState) : Option (ValidateState × Option Errno) :=
  match csValidateLoop env bo (p.outcomes.length + 1) p with
  | none => none
  | some (p, some e) => some (p, some e)
  | some (p, none) =>
    -- the source passes `bo` here, and not `bo->shadow`
    if (env.bo bo).shadow.isSome then csBoValidate env bo p else some (p, none)

/-- `binding_userptr`: there are user pages, and nobody bound the buffer object already. -/
def ValidateState.bindingUserptr (p : ValidateState) (lobj : ℕ) : Bool :=
  p.userPages lobj && !env.bound lobj

/-- What the loop body of `amdgpu_cs_list_validate` does before it validates the buffer object: the
user pages are copied, and the entry cannot be evicted any more. -/
def csListBegin (lobj : ℕ) (p : ValidateState) : ValidateState where
  __ := p
  ttmPages := if p.bindingUserptr env lobj then
    Function.update p.ttmPages (env.robj lobj) (some lobj) else p.ttmPages
  evictable := if p.evictable = .entry lobj then .null else p.evictable

/-- What it does afterwards: the array of the user pages is freed. -/
def csListEnd (bindingUserptr : Bool) (lobj : ℕ) (p : ValidateState) : ValidateState where
  __ := p
  userPages := if bindingUserptr then Function.update p.userPages lobj false else p.userPages

/-- The loop body of `amdgpu_cs_list_validate`. -/
def csListEntry (lobj : ℕ) (p : ValidateState) : Option (ValidateState × Option Errno) :=
  if (env.bo (env.robj lobj)).usermm.any (· ≠ env.mm) then some (p, some .EPERM)
  else
    match csValidate env (env.robj lobj) (csListBegin env lobj p) with
    | none => none
    | some (q, some e) => some (q, some e)
    | some (q, none) => some (csListEnd (p.bindingUserptr env lobj) lobj q, none)

/-- The entry after `lobj`, or `none` at the end of the list. -/
def nextEntry (list : List ℕ) (lobj : ℕ) : Option ℕ := (list.dropWhile (· ≠ lobj)).tail.head?

/-- The list the loop goes over: another one, or `p->validated` itself. -/
def ValidateState.iterated (p : ValidateState) (other : Option (List ℕ)) : List ℕ :=
  other.getD p.validated

/-- The loop of `amdgpu_cs_list_validate` from an entry on. -/
def csListLoop (other : Option (List ℕ)) :
    ℕ → Option ℕ → ValidateState → Option (ValidateState × Option Errno)
  | _, none, p => some (p, none)
  | 0, some _, _ => none
  | fuel + 1, some lobj, p =>
    match csListEntry env lobj p with
    | none => none
    | some (p, some e) => some (p, some e)
    | some (p, none) => csListLoop other fuel (nextEntry (p.iterated other) lobj) p

/-- `amdgpu_cs_list_validate` for `p->validated`, or for another list. -/
def csListValidate (other : Option (List ℕ)) (p : ValidateState) :
    Option (ValidateState × Option Errno) :=
  csListLoop env other (p.iterated other).length (p.iterated other).head? p

/-! ## Property -/

/-- The buffer object was moved, in this call, to a domain it may be in. -/
def ValidateState.Placed (p : ValidateState) (bo : ℕ) : Prop :=
  ∃ t, (bo, t) ∈ p.placed ∧ (env.bo bo).allowedDomains &&& memTypeToDomain t ≠ 0

/-- The buffer objects of the list that are not pinned, and the shadows of all of them, were moved
to domains they may be in. -/
def CsListValidated (list : List ℕ) (p : ValidateState) : Prop :=
  ∀ entry ∈ list, ((env.bo (env.robj entry)).pinCount = 0 → p.Placed env (env.robj entry)) ∧
    ∀ shadow ∈ (env.bo (env.robj entry)).shadow, p.Placed env shadow

/-- An entry is once on a list, and `p->evictable` is on its list. -/
structure ValidateState.Linked (p : ValidateState) (other : Option (List ℕ)) : Prop where
  nodup : p.validated.Nodup
  evictable : ∀ e, p.evictable = .entry e → e ∈ p.validated
  other : ∀ list ∈ other, list.Nodup

end Model

/-! ## Placements -/

section Placements

variable {env : ValidateEnv} {domain : BitVec 32} {b : ℕ} {t : MemType}

/-- Each domain is one bit. -/
theorem exists_memTypeToDomain_eq (t : MemType) : ∃ i, memTypeToDomain t = BitVec.twoPow 32 i := by
  cases t
  · exact ⟨0, rfl⟩
  · exact ⟨1, rfl⟩
  · exact ⟨2, rfl⟩
  · exact ⟨3, rfl⟩
  · exact ⟨4, rfl⟩
  · exact ⟨5, rfl⟩
  · exact ⟨6, rfl⟩
  · exact ⟨7, rfl⟩

/-- A placement for allowed domains has memory types of these domains only. -/
theorem ValidateEnv.and_of_placement (hdomain : domain ≠ 0)
    (hallowed : ∀ i, domain.getLsbD i = true → (env.bo b).allowedDomains.getLsbD i = true)
    (ht : t ∈ placementFromDomain env.directGma domain) : domain &&& memTypeToDomain t ≠ 0 := by
  rw [placementFromDomain] at ht
  split_ifs at ht with hempty
  · obtain ⟨i, hi⟩ : ∃ i, domain.getLsbD i = true := by
      by_contra hnone
      refine hdomain (BitVec.eq_of_getLsbD_eq fun i _ => ?_)
      simpa using not_exists.mp hnone i
    obtain ⟨t', ht', hdom⟩ := env.allowed_placed b i (hallowed i hi)
    have hnot := List.filter_eq_nil_iff.mp hempty t' ht'
    rw [hdom] at hnot
    exact absurd (Bitmap.and_twoPow_ne_zero.mpr hi) (by simpa using hnot)
  · exact of_decide_eq_true (List.mem_filter.mp ht).2

theorem ValidateEnv.domain_of_placement (hdomain : domain ≠ 0)
    (hallowed : ∀ i, domain.getLsbD i = true → (env.bo b).allowedDomains.getLsbD i = true)
    (ht : t ∈ placementFromDomain env.directGma domain) :
    (env.bo b).allowedDomains &&& memTypeToDomain t ≠ 0 := by
  have hmem := env.and_of_placement hdomain hallowed ht
  obtain ⟨i, hi⟩ := exists_memTypeToDomain_eq t
  rw [hi] at hmem ⊢
  exact Bitmap.and_twoPow_ne_zero.mpr (hallowed i (Bitmap.and_twoPow_ne_zero.mp hmem))

end Placements

/-! ## One iteration -/

section Iteration

variable {env : ValidateEnv} {other : Option (List ℕ)} {lobj bo : ℕ} {p q r : ValidateState}

/-- What holds all the time: the lists are linked, and everything that was placed is an entry, and
is in a domain it may be in if there is one. -/
structure ValidateInv (env : ValidateEnv) (other : Option (List ℕ)) (p : ValidateState) :
    Prop where
  linked : p.Linked other
  listed : ∀ x ∈ p.placed, ∃ entry, x.1 = env.robj entry
  allowed : ∀ x ∈ p.placed, (env.bo x.1).allowedDomains ≠ 0 →
    (env.bo x.1).allowedDomains &&& memTypeToDomain x.2 ≠ 0

/-- The buffer object of the entry was placed. -/
def ValidateState.Handled (env : ValidateEnv) (p : ValidateState) (entry : ℕ) : Prop :=
  ∃ t, (env.robj entry, t) ∈ p.placed

/-- **What an iteration does to the list**: the entries stay on it, those behind the cursor stay
there, and those that are put behind it were placed. -/
structure CsMoves (env : ValidateEnv) (lobj : ℕ) (p q : ValidateState) : Prop where
  placed : ∀ x ∈ p.placed, x ∈ q.placed
  mem : ∀ entry, entry ∈ q.validated ↔ entry ∈ p.validated
  cut : ∀ pre post, p.validated = pre ++ lobj :: post → ∃ pre' post',
    q.validated = pre' ++ lobj :: post' ∧ post'.Sublist post ∧
      ∀ entry ∈ pre', entry ∈ pre ∨ q.Handled env entry

/-- A step of an iteration keeps the invariant, and moves entries as allowed. -/
def CsKeeps (env : ValidateEnv) (other : Option (List ℕ)) (lobj : ℕ) (p q : ValidateState) : Prop :=
  ValidateInv env other p → ValidateInv env other q ∧ CsMoves env lobj p q

theorem CsMoves.of_eq (hplaced : ∀ x ∈ p.placed, x ∈ q.placed)
    (hvalidated : q.validated = p.validated) : CsMoves env lobj p q where
  placed := hplaced
  mem := fun entry => by rw [hvalidated]
  cut := fun pre post h =>
    ⟨pre, post, hvalidated.trans h, List.Sublist.refl post, fun _ => .inl⟩

theorem CsMoves.trans (h₁ : CsMoves env lobj p q) (h₂ : CsMoves env lobj q r) :
    CsMoves env lobj p r where
  placed := fun x hx => h₂.placed x (h₁.placed x hx)
  mem := fun entry => (h₂.mem entry).trans (h₁.mem entry)
  cut := fun pre post h => by
    obtain ⟨pre₁, post₁, hq, hpost₁, hpre₁⟩ := h₁.cut pre post h
    obtain ⟨pre₂, post₂, hr, hpost₂, hpre₂⟩ := h₂.cut pre₁ post₁ hq
    refine ⟨pre₂, post₂, hr, hpost₂.trans hpost₁, fun entry hentry => ?_⟩
    rcases hpre₂ entry hentry with hentry | hhandled
    · exact (hpre₁ entry hentry).imp_right fun ⟨t, ht⟩ => ⟨t, h₂.placed _ ht⟩
    · exact .inr hhandled

theorem CsKeeps.refl (p : ValidateState) : CsKeeps env other lobj p p :=
  fun h => ⟨h, .of_eq (fun _ => id) rfl⟩

theorem CsKeeps.trans (h₁ : CsKeeps env other lobj p q) (h₂ : CsKeeps env other lobj q r) :
    CsKeeps env other lobj p r := fun h => by
  obtain ⟨hq, hpq⟩ := h₁ h
  obtain ⟨hr, hqr⟩ := h₂ hq
  exact ⟨hr, hpq.trans hqr⟩

/-- A change that leaves the lists and what was placed alone. -/
theorem CsKeeps.of_eq (hvalidated : q.validated = p.validated)
    (hevictable : ∀ e, q.evictable = .entry e → e ∈ p.validated ∨ p.evictable = .entry e)
    (hplaced : q.placed = p.placed) : CsKeeps env other lobj p q := fun h => by
  refine ⟨⟨⟨?_, fun e he => ?_, h.linked.other⟩, ?_, ?_⟩, .of_eq ?_ hvalidated⟩
  · rw [hvalidated]
    exact h.linked.nodup
  · rw [hvalidated]
    exact (hevictable e he).elim id (h.linked.evictable e)
  · rw [hplaced]
    exact h.listed
  · rw [hplaced]
    exact h.allowed
  · rw [hplaced]
    exact fun _ => id

/-- What a call of `ttm_bo_validate` changes. -/
theorem ttmBoValidate_spec {domain : BitVec 32} {e : Option Errno}
    (h : ttmBoValidate env bo domain p = some (q, e)) :
    q.validated = p.validated ∧ q.evictable = p.evictable ∧
      q.outcomes.length + 1 = p.outcomes.length ∧
      (e ≠ none ∧ q.placed = p.placed ∨ e = none ∧
        ∃ t ∈ placementFromDomain env.directGma domain, q.placed = (bo, t) :: p.placed) := by
  rw [ttmBoValidate] at h
  cases houtcomes : p.outcomes with
  | nil =>
    rw [houtcomes] at h
    cases h
  | cons outcome outcomes =>
    rw [houtcomes] at h
    dsimp only at h
    cases hresult : outcome.result with
    | error e' =>
      rw [hresult] at h
      cases h
      exact ⟨rfl, rfl, rfl, .inl ⟨Option.some_ne_none _, rfl⟩⟩
    | ok t =>
      rw [hresult] at h
      dsimp only at h
      split_ifs at h with ht
      cases h
      exact ⟨rfl, rfl, rfl, .inr ⟨rfl, t, ht, rfl⟩⟩

/-- A call for domains the buffer object of an entry may be in. -/
theorem ttmBoValidate_keeps {domain : BitVec 32} {e : Option Errno} {entry : ℕ}
    (hallowed : ∀ i, domain.getLsbD i = true →
      (env.bo (env.robj entry)).allowedDomains.getLsbD i = true)
    (hzero : domain = 0 → (env.bo (env.robj entry)).allowedDomains = 0)
    (h : ttmBoValidate env (env.robj entry) domain p = some (q, e)) :
    CsKeeps env other lobj p q ∧ (e = none → q.Handled env entry) := by
  obtain ⟨hvalidated, hevictable, -, ⟨hne, hplaced⟩ | ⟨rfl, t, ht, hplaced⟩⟩ :=
    ttmBoValidate_spec h
  · exact ⟨.of_eq hvalidated (fun e he => .inr (hevictable ▸ he)) hplaced,
      fun hnone => absurd hnone hne⟩
  · refine ⟨fun hinv => ⟨⟨⟨?_, ?_, hinv.linked.other⟩, ?_, ?_⟩, .of_eq ?_ hvalidated⟩, fun _ => ?_⟩
    · rw [hvalidated]
      exact hinv.linked.nodup
    · rw [hvalidated, hevictable]
      exact hinv.linked.evictable
    · rw [hplaced]
      exact List.forall_mem_cons.mpr ⟨⟨entry, rfl⟩, hinv.listed⟩
    · rw [hplaced]
      refine List.forall_mem_cons.mpr ⟨fun hne => ?_, hinv.allowed⟩
      exact env.domain_of_placement (fun h => hne (hzero h)) hallowed ht
    · rw [hplaced]
      exact fun x hx => List.mem_cons_of_mem _ hx
    · exact ⟨t, hplaced ▸ List.mem_cons_self⟩

/-- **One buffer object is validated.** -/
theorem csBoValidate_keeps {e : Option Errno} {entry : ℕ}
    (h : csBoValidate env (env.robj entry) p = some (q, e)) :
    CsKeeps env other lobj p q ∧
      (e = none → (env.bo (env.robj entry)).pinCount = 0 → q.Handled env entry) := by
  rw [csBoValidate] at h
  by_cases hpin : (env.bo (env.robj entry)).pinCount ≠ 0
  · rw [if_pos hpin] at h
    cases h
    exact ⟨.refl p, fun _ hzero => absurd hzero hpin⟩
  rw [if_neg hpin] at h
  dsimp only at h
  -- both choices of the domain are allowed
  set domain := if p.bytesMoved < env.bytesMovedThreshold then
    (env.bo (env.robj entry)).preferedDomains else (env.bo (env.robj entry)).allowedDomains
  have hallowed : ∀ i, domain.getLsbD i = true →
      (env.bo (env.robj entry)).allowedDomains.getLsbD i = true := fun i hi => by
    simp only [domain] at hi
    split_ifs at hi
    · exact (env.bo (env.robj entry)).prefered_allowed i hi
    · exact hi
  have hzero : domain = 0 → (env.bo (env.robj entry)).allowedDomains = 0 := fun hzero => by
    simp only [domain] at hzero
    split_ifs at hzero
    · exact (env.bo (env.robj entry)).allowed_eq_zero hzero
    · exact hzero
  cases hfirst : ttmBoValidate env (env.robj entry) domain p with
  | none =>
    rw [hfirst] at h
    cases h
  | some res =>
    obtain ⟨p₁, e₁⟩ := res
    have hkeeps₁ : CsKeeps env other lobj p p₁ ∧ _ := ttmBoValidate_keeps hallowed hzero hfirst
    rw [hfirst] at h
    dsimp only at h
    split_ifs at h with hretry
    · have hkeeps₂ : CsKeeps env other lobj p₁ q ∧ _ := ttmBoValidate_keeps (fun _ => id) id h
      exact ⟨hkeeps₁.1.trans hkeeps₂.1, fun he _ => hkeeps₂.2 he⟩
    · cases h
      exact ⟨hkeeps₁.1, fun he _ => hkeeps₁.2 he⟩

/-- The entry of a candidate is put to the front of the list. -/
theorem ValidateState.Linked.move {candidate : ℕ} (h : p.Linked other)
    (hcandidate : candidate ∈ p.validated) {rest : List ℕ} (hrest : ∀ e ∈ rest, e ∈ p.validated)
    (hvalidated : q.validated = candidate :: p.validated.erase candidate)
    (hevictable : q.evictable = .prev rest) : q.Linked other := by
  have hperm := List.perm_cons_erase hcandidate
  refine ⟨?_, fun e he => ?_, h.other⟩
  · rw [hvalidated]
    exact hperm.nodup_iff.mp h.nodup
  · rw [hevictable] at he
    rw [hvalidated]
    cases rest with
    | nil => cases he
    | cons e' rest =>
      cases he
      exact hperm.mem_iff.mp (hrest e List.mem_cons_self)

/-- A candidate that was placed is put to the front, and so behind the cursor. -/
theorem CsMoves.of_move {candidate : ℕ} (hcandidate : candidate ∈ p.validated)
    (hne : candidate ≠ lobj)
    (hvalidated : q.validated = candidate :: p.validated.erase candidate)
    (hplaced : ∀ x ∈ p.placed, x ∈ q.placed) (hhandled : q.Handled env candidate) :
    CsMoves env lobj p q where
  placed := hplaced
  mem := fun entry => by
    rw [hvalidated]
    exact (List.perm_cons_erase hcandidate).mem_iff.symm
  cut := fun pre post hcut => by
    by_cases hpre : candidate ∈ pre
    · refine ⟨candidate :: pre.erase candidate, post, ?_, List.Sublist.refl post, ?_⟩
      · rw [hvalidated, hcut, List.erase_append_left _ hpre, List.cons_append]
      · rintro entry hentry
        exact .inl ((List.perm_cons_erase hpre).mem_iff.mpr hentry)
    · refine ⟨candidate :: pre, post.erase candidate, ?_, List.erase_sublist, ?_⟩
      · rw [hvalidated, hcut, List.erase_append_right _ hpre,
          List.erase_cons_tail (by simpa using hne.symm), List.cons_append]
      · intro entry hentry
        rcases List.mem_cons.mp hentry with rfl | hentry
        · exact .inr hhandled
        · exact .inl hentry

/-- The candidates are entries of the list. -/
theorem csTryEvictLoop_keeps {candidates : List ℕ} {evicted : Bool}
    (hcandidates : ∀ e ∈ candidates, e ∈ p.validated)
    (h : csTryEvictLoop env (env.robj lobj) candidates p = some (q, evicted)) :
    CsKeeps env other lobj p q := by
  induction candidates generalizing p with
  | nil =>
    cases h
    exact .of_eq rfl (fun e he => by cases he) rfl
  | cons candidate rest ih =>
    obtain ⟨hcandidate, hrest⟩ := List.forall_mem_cons.mp hcandidates
    rw [csTryEvictLoop] at h
    dsimp only at h
    -- the cursor for evictions is at the candidate
    have hat : CsKeeps env other lobj p { p with evictable := .entry candidate } :=
      .of_eq rfl (fun e he => .inl (by cases he; exact hcandidate)) rfl
    split_ifs at h with hsame hdomain hother
    · cases h
      exact hat
    · exact hat.trans (ih hrest h)
    · exact hat.trans (ih hrest h)
    cases hres : ttmBoValidate env (env.robj candidate)
      ((env.bo (env.robj candidate)).allowedDomains &&& ~~~(env.bo (env.robj lobj)).allowedDomains)
      { p with evictable := .entry candidate } with
    | none =>
      rw [hres] at h
      cases h
    | some res =>
      obtain ⟨p₁, e₁⟩ := res
      have hkeeps₁ : CsKeeps env other lobj { p with evictable := .entry candidate } p₁ ∧ _ :=
        ttmBoValidate_keeps (fun i hi => by simp at hi; exact hi.1) (fun h => absurd h hother) hres
      obtain ⟨hvalidated, -⟩ := ttmBoValidate_spec hres
      rw [hres] at h
      cases e₁ with
      | some e =>
        cases h
        exact hat.trans hkeeps₁.1
      | none =>
        cases h
        refine (hat.trans hkeeps₁.1).trans fun hinv => ?_
        have hcandidate₁ : candidate ∈ p₁.validated := hvalidated ▸ hcandidate
        have hne : candidate ≠ lobj := fun heq => hsame (heq ▸ rfl)
        refine ⟨⟨hinv.linked.move hcandidate₁ (hvalidated ▸ hrest) rfl rfl, hinv.listed,
          hinv.allowed⟩, .of_move hcandidate₁ hne rfl (fun _ => id) (hkeeps₁.2 rfl)⟩

/-- **An eviction** keeps the cursor of the loop, and what it puts behind the cursor was placed. -/
theorem csTryEvict_keeps {evicted : Bool}
    (h : csTryEvict env (env.robj lobj) p = some (q, evicted)) : CsKeeps env other lobj p q :=
  fun hinv => by
    rw [csTryEvict] at h
    split at h
    · next e he =>
      refine csTryEvictLoop_keeps (fun e' he' => ?_) h hinv
      rcases List.mem_cons.mp he' with rfl | he'
      · exact hinv.linked.evictable _ he
      · exact (List.takeWhile_sublist _).mem (List.mem_reverse.mp he')
    · cases h
      exact CsKeeps.refl p hinv

theorem csValidateLoop_keeps {fuel : ℕ} {e : Option Errno}
    (h : csValidateLoop env (env.robj lobj) fuel p = some (q, e)) :
    CsKeeps env other lobj p q ∧
      (e = none → (env.bo (env.robj lobj)).pinCount = 0 → q.Handled env lobj) := by
  induction fuel generalizing p with
  | zero => cases h
  | succ fuel ih =>
    rw [csValidateLoop] at h
    cases hbo : csBoValidate env (env.robj lobj) p with
    | none =>
      rw [hbo] at h
      cases h
    | some res =>
      obtain ⟨p₁, e₁⟩ := res
      have hkeeps₁ : CsKeeps env other lobj p p₁ ∧ _ := csBoValidate_keeps hbo
      rw [hbo] at h
      dsimp only at h
      split_ifs at h with hnomem
      · cases hevict : csTryEvict env (env.robj lobj) p₁ with
        | none =>
          rw [hevict] at h
          cases h
        | some res =>
          obtain ⟨p₂, evicted⟩ := res
          have hkeeps₂ : CsKeeps env other lobj p₁ p₂ := csTryEvict_keeps hevict
          rw [hevict] at h
          cases evicted with
          | true =>
            obtain ⟨hkeeps₃, hhandled⟩ := ih h
            exact ⟨(hkeeps₁.1.trans hkeeps₂).trans hkeeps₃, hhandled⟩
          | false =>
            cases h
            exact ⟨hkeeps₁.1.trans hkeeps₂, fun he => by rw [hnomem] at he; cases he⟩
      · cases h
        exact hkeeps₁

/-- **One iteration validates its buffer object**, twice if that has a shadow. -/
theorem csValidate_keeps {e : Option Errno} (h : csValidate env (env.robj lobj) p = some (q, e)) :
    CsKeeps env other lobj p q ∧
      (e = none → (env.bo (env.robj lobj)).pinCount = 0 → q.Handled env lobj) := by
  rw [csValidate] at h
  cases hloop : csValidateLoop env (env.robj lobj) (p.outcomes.length + 1) p with
  | none =>
    rw [hloop] at h
    cases h
  | some res =>
    obtain ⟨p₁, e₁⟩ := res
    have hkeeps₁ : CsKeeps env other lobj p p₁ ∧ _ := csValidateLoop_keeps hloop
    rw [hloop] at h
    cases e₁ with
    | some e₁ =>
      cases h
      exact hkeeps₁
    | none =>
      dsimp only at h
      split_ifs at h
      · have hkeeps₂ : CsKeeps env other lobj p₁ q ∧ _ := csBoValidate_keeps h
        exact ⟨hkeeps₁.1.trans hkeeps₂.1, hkeeps₂.2⟩
      · cases h
        exact hkeeps₁

/-- **One entry.** -/
theorem csListEntry_keeps {e : Option Errno} (h : csListEntry env lobj p = some (q, e)) :
    CsKeeps env other lobj p q ∧
      (e = none → (env.bo (env.robj lobj)).pinCount = 0 → q.Handled env lobj) := by
  have hbegin : CsKeeps env other lobj p (csListBegin env lobj p) := by
    refine .of_eq rfl (fun e he => .inr ?_) rfl
    simp only [csListBegin] at he
    split_ifs at he
    exact he
  rw [csListEntry] at h
  split_ifs at h
  · cases h
    exact ⟨.refl p, fun he => (by cases he)⟩
  cases hvalidate : csValidate env (env.robj lobj) (csListBegin env lobj p) with
  | none =>
    rw [hvalidate] at h
    cases h
  | some res =>
    obtain ⟨p₁, e₁⟩ := res
    have hkeeps₁ : CsKeeps env other lobj (csListBegin env lobj p) p₁ ∧ _ :=
      csValidate_keeps hvalidate
    rw [hvalidate] at h
    cases e₁ with
    | some e₁ =>
      cases h
      exact ⟨hbegin.trans hkeeps₁.1, hkeeps₁.2⟩
    | none =>
      cases h
      have hend : CsKeeps env other lobj p₁ (csListEnd (p.bindingUserptr env lobj) lobj p₁) :=
        .of_eq rfl (fun _ => .inr) rfl
      exact ⟨(hbegin.trans hkeeps₁.1).trans hend, hkeeps₁.2⟩

end Iteration

/-! ## A list -/

section List

variable {env : ValidateEnv} {other : Option (List ℕ)} {lobj : ℕ} {p q : ValidateState}

/-- An iteration moves entries of the list only behind the cursor, and only if they were placed. -/
theorem csListEntry_cut {e : Option Errno} (h : csListEntry env lobj p = some (q, e))
    (hinv : ValidateInv env other p) {pre post : List ℕ}
    (hcut : p.iterated other = pre ++ lobj :: post) :
    ∃ pre' post', q.iterated other = pre' ++ lobj :: post' ∧ post'.Sublist post ∧
      (∀ entry ∈ pre', entry ∈ pre ∨ q.Handled env entry) ∧
      ∀ entry, entry ∈ q.iterated other ↔ entry ∈ p.iterated other := by
  obtain ⟨-, hmoves⟩ := (csListEntry_keeps h).1 hinv
  cases other with
  | some list =>
    exact ⟨pre, post, hcut, List.Sublist.refl post, fun _ => .inl, fun _ => Iff.rfl⟩
  | none =>
    obtain ⟨pre', post', hq, hpost, hpre⟩ := hmoves.cut pre post hcut
    exact ⟨pre', post', hq, hpost, hpre, hmoves.mem⟩

theorem ValidateState.Linked.iterated_nodup (h : p.Linked other) : (p.iterated other).Nodup := by
  cases other with
  | none => exact h.nodup
  | some list => exact h.other list rfl

theorem nextEntry_append {pre post : List ℕ} (h : lobj ∉ pre) :
    nextEntry (pre ++ lobj :: post) lobj = post.head? := by
  rw [nextEntry, List.dropWhile_append_of_pos (by
    intro e he
    simpa using fun heq : e = lobj => h (heq ▸ he))]
  simp

/-- **The cursor moves on by one entry** after an iteration. -/
theorem csListEntry_advance {e : Option Errno} (h : csListEntry env lobj p = some (q, e))
    (hinv : ValidateInv env other p) {pre post : List ℕ}
    (hcut : p.iterated other = pre ++ lobj :: post) :
    ∃ pre' post', q.iterated other = (pre' ++ [lobj]) ++ post' ∧
      nextEntry (q.iterated other) lobj = post'.head? ∧ post'.length ≤ post.length ∧
      (∀ entry ∈ pre', entry ∈ pre ∨ q.Handled env entry) ∧
      ∀ entry, entry ∈ q.iterated other ↔ entry ∈ p.iterated other := by
  obtain ⟨pre', post', hq, hpost, hpre, hmem⟩ := csListEntry_cut h hinv hcut
  have hnodup := ((csListEntry_keeps h).1 hinv).1.linked.iterated_nodup
  rw [hq] at hnodup
  have hnot : lobj ∉ pre' := fun hmem' =>
    (List.disjoint_of_nodup_append hnodup) hmem' List.mem_cons_self
  refine ⟨pre', post', ?_, ?_, hpost.length_le, hpre, hmem⟩
  · rw [hq, List.append_assoc, List.singleton_append]
  · rw [hq, nextEntry_append hnot]

/-- **The loop**: all entries in front of the cursor were placed, or are pinned; so at the end all
entries are. -/
theorem csListLoop_placed {fuel : ℕ} (hinv : ValidateInv env other p)
    {pre post : List ℕ} (hcut : p.iterated other = pre ++ post)
    (hpre : ∀ entry ∈ pre, (env.bo (env.robj entry)).pinCount = 0 → p.Handled env entry)
    (h : csListLoop env other fuel post.head? p = some (q, none)) :
    ValidateInv env other q ∧ ∀ entry ∈ p.iterated other,
      (env.bo (env.robj entry)).pinCount = 0 → q.Handled env entry := by
  induction fuel generalizing p pre post with
  | zero =>
    cases post with
    | nil =>
      cases h
      rw [hcut, List.append_nil]
      exact ⟨hinv, hpre⟩
    | cons lobj post => cases h
  | succ fuel ih =>
    cases post with
    | nil =>
      cases h
      rw [hcut, List.append_nil]
      exact ⟨hinv, hpre⟩
    | cons lobj post =>
      rw [List.head?_cons, csListLoop] at h
      cases hentry : csListEntry env lobj p with
      | none =>
        rw [hentry] at h
        cases h
      | some res =>
        obtain ⟨p₁, e₁⟩ := res
        obtain ⟨hkeeps, hhandled⟩ := csListEntry_keeps hentry
        obtain ⟨hinv₁, hmoves⟩ := hkeeps hinv
        obtain ⟨pre₁, post₁, hcut₁, hnext, -, hpre₁, hmem⟩ := csListEntry_advance hentry hinv hcut
        rw [hentry] at h
        cases e₁ with
        | some e₁ => cases h
        | none =>
          dsimp only at h
          rw [hnext] at h
          have hpre₂ : ∀ entry ∈ pre₁ ++ [lobj],
              (env.bo (env.robj entry)).pinCount = 0 → p₁.Handled env entry := by
            intro entry hmem₁ hpin
            rcases List.mem_append.mp hmem₁ with hmem₁ | hmem₁
            · rcases hpre₁ entry hmem₁ with hmem₁ | hhandled₁
              · obtain ⟨t, ht⟩ := hpre entry hmem₁ hpin
                exact ⟨t, hmoves.placed _ ht⟩
              · exact hhandled₁
            · obtain rfl := List.mem_singleton.mp hmem₁
              exact hhandled rfl hpin
          obtain ⟨hinv₂, hall⟩ := ih hinv₁ hcut₁ hpre₂ h
          exact ⟨hinv₂, fun entry hmem₁ => hall entry ((hmem entry).mpr hmem₁)⟩

/-- The loop over the list has enough fuel, since the entries behind the cursor become fewer. -/
theorem csListLoop_fuel {n m : ℕ} (hinv : ValidateInv env other p) {pre post : List ℕ}
    (hcut : p.iterated other = pre ++ post) (hn : post.length ≤ n) (hm : post.length ≤ m) :
    csListLoop env other n post.head? p = csListLoop env other m post.head? p := by
  induction n generalizing p m pre post with
  | zero =>
    obtain rfl := List.length_eq_zero_iff.mp (Nat.le_zero.mp hn)
    cases m <;> rfl
  | succ n ih =>
    cases post with
    | nil => cases m <;> rfl
    | cons lobj post =>
      cases m with
      | zero => cases hm
      | succ m =>
        rw [List.head?_cons, csListLoop, csListLoop]
        cases hentry : csListEntry env lobj p with
        | none => rfl
        | some res =>
          obtain ⟨p₁, e₁⟩ := res
          cases e₁ with
          | some e₁ => rfl
          | none =>
            obtain ⟨hinv₁, -⟩ := (csListEntry_keeps hentry).1 hinv
            obtain ⟨pre₁, post₁, hcut₁, hnext, hlen, -⟩ := csListEntry_advance hentry hinv hcut
            dsimp only
            rw [hnext]
            rw [List.length_cons] at hn hm
            exact ih hinv₁ hcut₁ (by omega) (by omega)

/-- **All entries of the list** were placed or are pinned when the call returns `0`. -/
theorem csListValidate_placed (hlinked : p.Linked other) (hstart : p.placed = [])
    (h : csListValidate env other p = some (q, none)) :
    ValidateInv env other q ∧ ∀ entry ∈ p.iterated other,
      (env.bo (env.robj entry)).pinCount = 0 → q.Handled env entry := by
  have hinv : ValidateInv env other p := by
    refine ⟨hlinked, ?_, ?_⟩ <;> rw [hstart] <;> simp
  exact csListLoop_placed hinv (List.nil_append _).symm (by simp) h

/-- **Validation of a list.** When `amdgpu_cs_list_validate` returns `0`, all buffer objects of the
list that are not pinned, and the shadows of all of them, were moved to domains they may be in, if
and only if no buffer object of the list has a shadow, and each one that is not pinned may be in
some domain. -/
theorem csListValidate_iff (hlinked : p.Linked other) (hstart : p.placed = [])
    (h : csListValidate env other p = some (q, none)) :
    CsListValidated env (p.iterated other) q ↔ ∀ entry ∈ p.iterated other,
      (env.bo (env.robj entry)).shadow = none ∧
        ((env.bo (env.robj entry)).pinCount = 0 →
          (env.bo (env.robj entry)).allowedDomains ≠ 0) := by
  obtain ⟨hinv, hhandled⟩ := csListValidate_placed hlinked hstart h
  refine forall₂_congr fun entry hentry => ?_
  constructor
  · rintro ⟨hplaced, hshadow⟩
    refine ⟨?_, fun hpin hzero => ?_⟩
    · -- what was placed is an entry, and a shadow is none
      cases hsome : (env.bo (env.robj entry)).shadow with
      | none => rfl
      | some shadow =>
        obtain ⟨t, ht, -⟩ := hshadow shadow hsome
        obtain ⟨entry', heq⟩ := hinv.listed _ ht
        exact absurd (hsome.trans (congrArg some heq)) (env.robj_ne_shadow entry' _)
    · obtain ⟨t, -, hne⟩ := hplaced hpin
      rw [hzero] at hne
      simp at hne
  · rintro ⟨hnone, hallowed⟩
    refine ⟨fun hpin => ?_, fun shadow hsome => ?_⟩
    · obtain ⟨t, ht⟩ := hhandled entry hentry hpin
      exact ⟨t, ht, hinv.allowed _ ht (hallowed hpin)⟩
    · rw [hnone] at hsome
      cases hsome

end List

/-- A buffer object that prefers all domains it may be in. -/
def plainBo (domains : BitVec 32) (shadow : Option ℕ) : ValidateBo :=
  ⟨0, domains, domains, none, shadow, fun _ => id, id⟩

/-- The domains without direct GMA have memory. -/
theorem placementOrder_of_and {domains : BitVec 32} (h : domains &&& 0x3f = domains) {i : ℕ}
    (hi : domains.getLsbD i = true) :
    ∃ t ∈ placementOrder false, memTypeToDomain t = BitVec.twoPow 32 i := by
  have hlt := BitVec.lt_of_getLsbD hi
  rw [← h, BitVec.getLsbD_and, Bool.and_eq_true] at hi
  have hsix : ∀ j < 32, (0x3f : BitVec 32).getLsbD j = true →
      ∃ t ∈ placementOrder false, memTypeToDomain t = BitVec.twoPow 32 j := by
    decide
  exact hsix i hlt hi.2

/-- The buffer object `0` may be in VRAM and GTT, the others also in system memory. -/
def noShadowEnv : ValidateEnv where
  robj := id
  bo := fun b => plainBo (if b = 0 then 6 else 7) none
  directGma := false
  mm := 0
  bytesMovedThreshold := 0
  bound := fun _ => false
  robj_ne_shadow := fun _ _ h => (by cases h)
  allowed_placed := fun b i hi => by
    refine placementOrder_of_and ?_ hi
    by_cases hb : b = 0 <;> simp [plainBo, hb]

/-- Two entries, both in VRAM. There is no memory for the first one until the second one is put
into system memory. -/
def evictSecond : ValidateState where
  validated := [0, 1]
  evictable := .entry 1
  bytesMoved := 0
  memType := fun _ => .vram
  userPages := fun _ => false
  ttmPages := fun _ => none
  outcomes := [⟨.error .ENOMEM, 0⟩, ⟨.ok .system, 4096⟩, ⟨.ok .vram, 4096⟩]
  placed := []

/-- The entry that was put behind the cursor is not visited, but was placed. -/
theorem csListValidate_iff_evictSecond :
    ∃ q, csListValidate noShadowEnv none evictSecond = some (q, none) ∧ q.validated = [1, 0] ∧
      q.placed = [(0, .vram), (1, .system)] ∧ CsListValidated noShadowEnv [0, 1] q := by
  have hlinked : evictSecond.Linked none :=
    ⟨by decide, fun e he => by cases he; decide, fun _ h => (by cases h)⟩
  have hrun : ∃ q, csListValidate noShadowEnv none evictSecond = some (q, none) ∧
      q.validated = [1, 0] ∧ q.placed = [(0, .vram), (1, .system)] := ⟨_, rfl, rfl, rfl⟩
  obtain ⟨q, hrun, hvalidated, hplaced⟩ := hrun
  exact ⟨q, hrun, hvalidated, hplaced, (csListValidate_iff hlinked rfl hrun).mpr (by decide)⟩

/-- The buffer object `0` has the shadow `1`. -/
def shadowEnv : ValidateEnv where
  robj := fun _ => 0
  bo := fun b => plainBo (if b = 0 then 6 else 2) (if b = 0 then some 1 else none)
  directGma := false
  mm := 0
  bytesMovedThreshold := 0
  bound := fun _ => false
  robj_ne_shadow := fun _ b => by
    by_cases hb : b = 0 <;> simp [plainBo, hb]
  allowed_placed := fun b i hi => by
    refine placementOrder_of_and ?_ hi
    by_cases hb : b = 0 <;> simp [plainBo, hb]

/-- One entry, whose buffer object is placed two times. -/
def shadowList : ValidateState where
  validated := [0]
  evictable := .entry 0
  bytesMoved := 0
  memType := fun _ => .system
  userPages := fun _ => false
  ttmPages := fun _ => none
  outcomes := [⟨.ok .vram, 4096⟩, ⟨.ok .vram, 0⟩]
  placed := []

/-- The call returns `0`, and the shadow was not validated. -/
theorem csListValidate_misses_shadow :
    ∃ q, csListValidate shadowEnv none shadowList = some (q, none) ∧
      (shadowEnv.bo (shadowEnv.robj 0)).shadow = some 1 ∧ q.placed = [(0, .vram), (0, .vram)] ∧
      ¬ CsListValidated shadowEnv [0] q := by
  have hrun : ∃ q, csListValidate shadowEnv none shadowList = some (q, none) ∧
      q.placed = [(0, .vram), (0, .vram)] := ⟨_, rfl, rfl⟩
  obtain ⟨q, hrun, hplaced⟩ := hrun
  refine ⟨q, hrun, rfl, hplaced, fun hvalidated => ?_⟩
  obtain ⟨t, ht, -⟩ := (hvalidated 0 List.mem_cons_self).2 1 rfl
  rw [hplaced] at ht
  simp at ht

end Amdgpu
