import AmdgpuPro.Kernel
import AmdgpuPro.Lib.Ledger
import Mathlib.Data.List.TakeWhile

set_option autoImplicit false

/-!
# The list of buffer objects of a submission

`amdgpu_bo_list_set` replaces the contents of a list by the buffer objects of an array of handles.
It fills a new array from both ends, with ordinary buffer objects from the front and with user
memory from the back, and takes a reference for each entry. After an error it drops the references
of as many entries, from the front, as it took.

## Main definitions

* `Amdgpu.BoListSetOk` — an error changes nothing, and a success exchanges the references of the old
  contents for those of the new.
* `NoUserptrBeforeError` — there is no user memory before the first entry that fails.

## Main results

* `Amdgpu.boListSet_error_held` — the references an error leaves behind.
* `boListSet_refs_iff` — the references are right if and only if there is no user memory before an
  entry that fails.

## Design

An array slot of zeros is `none`. A buffer object is the number of its address. A lookup of a
handle takes a reference of the GEM object, which is dropped again at once.
-/

namespace Amdgpu

/-! ## The function -/

/-- `drm_amdgpu_bo_list_entry` -/
structure BoListInfo where
  boHandle : BitVec 32
  boPriority : BitVec 32

/-- `amdgpu_bo_list_entry`, as far as it is filled here; `tv` is about `robj` -/
structure BoListEntry where
  robj : ℕ
  priority : BitVec 32
  deriving DecidableEq

/-- A reference of a GEM object or of a buffer object. -/
inductive BoRes
  | gem (bo : ℕ)
  | bo (bo : ℕ)
  deriving DecidableEq

/-- What a call of `amdgpu_bo_list_set` meets. -/
structure BoListEnv where
  /-- `drm_gem_object_lookup` -/
  lookup : BitVec 32 → Option ℕ
  /-- `amdgpu_ttm_tt_get_usermm` -/
  usermm : ℕ → Option ℕ
  preferedDomains : ℕ → BitVec 32
  /-- `current->mm` -/
  mm : ℕ
  /-- `drm_malloc_ab` succeeds -/
  arrayAlloc : Bool
  gdsGfxBo : Option ℕ
  gwsGfxBo : Option ℕ
  oaGfxBo : Option ℕ

/-- `amdgpu_bo_list`; `num_entries` is the length of the array -/
structure BoList where
  gdsObj : Option ℕ
  gwsObj : Option ℕ
  oaObj : Option ℕ
  firstUserptr : ℕ
  array : List (Option BoListEntry)

/-- The variables of `amdgpu_bo_list_set` with the references that are held. -/
structure BoListFill where
  i : ℕ
  array : List (Option BoListEntry)
  lastEntry : ℕ
  firstUserptr : ℕ
  gdsObj : Option ℕ
  gwsObj : Option ℕ
  oaObj : Option ℕ
  held : Ledger BoRes

/-- A list and the references that are held. -/
structure BoListState where
  list : BoList
  held : Ledger BoRes

/-- `AMDGPU_BO_LIST_MAX_PRIORITY` -/
def boListMaxPriority : BitVec 32 := 32

/-- `min(info[i].bo_priority, AMDGPU_BO_LIST_MAX_PRIORITY)` -/
def boListPriority (priority : BitVec 32) : BitVec 32 :=
  if priority < boListMaxPriority then priority else boListMaxPriority

/-- `AMDGPU_GEM_DOMAIN_GDS` -/
def gemDomainGds : BitVec 32 := 0x8

/-- `AMDGPU_GEM_DOMAIN_GWS` -/
def gemDomainGws : BitVec 32 := 0x10

/-- `AMDGPU_GEM_DOMAIN_OA` -/
def gemDomainOa : BitVec 32 := 0x20

section Model

variable (env : BoListEnv)

/-- The entry for a buffer object is stored at `array[j]`, and the iteration ends. -/
def BoListFill.store (fill : BoListFill) (j bo : ℕ) (priority : BitVec 32) : BoListFill :=
  { fill with
    i := fill.i + 1
    array := fill.array.set j (some ⟨bo, boListPriority priority⟩)
    gdsObj := if env.preferedDomains bo = gemDomainGds then some bo else fill.gdsObj
    gwsObj := if env.preferedDomains bo = gemDomainGws then some bo else fill.gwsObj
    oaObj := if env.preferedDomains bo = gemDomainOa then some bo else fill.oaObj }

/-- The loop body of `amdgpu_bo_list_set`. -/
def boListSetEntry (info : BoListInfo) (fill : BoListFill) : Outcome BoListFill :=
  match env.lookup info.boHandle with
  | none => .ret fill (some .ENOENT)
  | some bo =>
    let held := ((fill.held.acquire (.gem bo)).acquire (.bo bo)).release (.gem bo)
    match env.usermm bo with
    | some mm =>
      if mm ≠ env.mm then .ret { fill with held := held.release (.bo bo) } (some .EPERM)
      else
        let fill := { fill with held := held, firstUserptr := fill.firstUserptr - 1 }
        .ret (fill.store env fill.firstUserptr bo info.boPriority) none
    | none =>
      let fill' := { fill with held := held, lastEntry := fill.lastEntry + 1 }
      .ret (fill'.store env fill.lastEntry bo info.boPriority) none

/-- The loop of `amdgpu_bo_list_set`. -/
def boListSetLoop : List BoListInfo → BoListFill → Outcome BoListFill
  | [], fill => .ret fill none
  | info :: infos, fill => (boListSetEntry env info fill).andThen (boListSetLoop infos)

/-- `amdgpu_bo_unref(&array[i].robj)`, which does nothing for `NULL` -/
def boUnref (slot : Option BoListEntry) (held : Ledger BoRes) : Ledger BoRes :=
  match slot with
  | none => held
  | some entry => held.release (.bo entry.robj)

/-- `while (i--) amdgpu_bo_unref(&array[i].robj);` -/
def boUnrefBelow (array : List (Option BoListEntry)) : ℕ → Ledger BoRes → Ledger BoRes
  | 0, held => held
  | i + 1, held => boUnrefBelow array i (boUnref array[i]?.join held)

/-- The variables before the loop, with the array cleared. -/
def BoListFill.init (n : ℕ) (held : Ledger BoRes) : BoListFill where
  i := 0
  array := List.replicate n none
  lastEntry := 0
  firstUserptr := n
  gdsObj := env.gdsGfxBo
  gwsObj := env.gwsGfxBo
  oaObj := env.oaGfxBo
  held := held

/-- `amdgpu_bo_list_set` -/
def boListSet (infos : List BoListInfo) (st : BoListState) : Outcome BoListState :=
  if !env.arrayAlloc then .ret st (some .ENOMEM)
  else
    match boListSetLoop env infos (.init env infos.length st.held) with
    | .ret fill none =>
      .ret ⟨⟨fill.gdsObj, fill.gwsObj, fill.oaObj, fill.firstUserptr, fill.array⟩,
        st.list.array.foldl (fun held slot => boUnref slot held) fill.held⟩ none
    | .ret fill (some e) => .ret ⟨st.list, boUnrefBelow fill.array fill.i fill.held⟩ (some e)
    | .bug fill => .bug ⟨st.list, fill.held⟩

/-! ## Property and condition -/

/-- The references of the entries of an array. -/
def robjs (array : List (Option BoListEntry)) : List BoRes :=
  array.filterMap (Option.map fun entry => .bo entry.robj)

/-- The references of the buffer objects of an array of handles. -/
def infoRobjs (infos : List BoListInfo) : List BoRes :=
  infos.filterMap fun info => (env.lookup info.boHandle).map .bo

/-- An error leaves the references and the list as they were. A success has a list with an entry
for each handle, took one reference for each entry and dropped those of the old contents. -/
def BoListSetOk (infos : List BoListInfo) (st : BoListState) : Outcome BoListState → Prop
  | .ret st' none =>
    st'.list.array.length = infos.length ∧ (robjs st'.list.array).length = infos.length ∧
      (robjs st'.list.array).Perm (infoRobjs env infos) ∧
      ∀ k, st'.held k =
        st.held k + (robjs st'.list.array).count k - (robjs st.list.array).count k
  | .ret st' (some _) => st' = st
  | .bug _ => False

/-- The handle has a buffer object, which is not user memory of another process. -/
def BoListInfo.accepted (info : BoListInfo) : Bool :=
  match env.lookup info.boHandle with
  | none => false
  | some bo => (env.usermm bo).all (· = env.mm)

/-- The handle is one of user memory. -/
def BoListInfo.isUserptr (info : BoListInfo) : Bool :=
  ((env.lookup info.boHandle).bind env.usermm).isSome

/-- All entries are accepted, or none of those before the first that is not is user memory. -/
def NoUserptrBeforeError (infos : List BoListInfo) : Prop :=
  (∀ info ∈ infos, info.accepted env) ∨
    ∀ info ∈ infos.takeWhile (·.accepted env), ¬ info.isUserptr env

/-- The entry for an accepted handle. -/
def BoListInfo.entry (info : BoListInfo) : BoListEntry :=
  ⟨(env.lookup info.boHandle).getD 0, boListPriority info.boPriority⟩

/-- The entries of the ordinary buffer objects. -/
def ordinaryEntries (infos : List BoListInfo) : List BoListEntry :=
  (infos.filter (!·.isUserptr env)).map (·.entry env)

/-- The entries of user memory. -/
def userptrEntries (infos : List BoListInfo) : List BoListEntry :=
  (infos.filter (·.isUserptr env)).map (·.entry env)

end Model

/-! ## References -/

section References

variable (array : List (Option BoListEntry)) (held : Ledger BoRes) (k : BoRes)

theorem boUnref_apply (slot : Option BoListEntry) :
    boUnref slot held k = held k - (robjs [slot]).count k := by
  cases slot with
  | none => simp [boUnref, robjs]
  | some entry =>
    have hrobjs : robjs [some entry] = [.bo entry.robj] := rfl
    rw [hrobjs, boUnref, Ledger.release_apply, List.count_singleton]
    by_cases h : k = .bo entry.robj
    · simp [h]
    · simp [h, Ne.symm h]

/-- Dropping the references of a whole array. -/
theorem foldl_boUnref_apply :
    array.foldl (fun held slot => boUnref slot held) held k = held k - (robjs array).count k := by
  induction array generalizing held with
  | nil => simp [robjs]
  | cons slot array ih =>
    have hsplit : robjs (slot :: array) = robjs [slot] ++ robjs array := by
      cases slot <;> rfl
    rw [List.foldl_cons, ih, boUnref_apply, hsplit, List.count_append]
    push_cast
    ring

/-- Dropping the references of the first entries of an array. -/
theorem boUnrefBelow_apply (i : ℕ) :
    boUnrefBelow array i held k = held k - (robjs (array.take i)).count k := by
  induction i generalizing held with
  | zero => simp [boUnrefBelow, robjs]
  | succ i ih =>
    have hsplit : robjs (array.take (i + 1)) = robjs (array.take i) ++ robjs [array[i]?.join] := by
      rw [List.take_add_one, robjs, List.filterMap_append]
      rcases array[i]? with _ | _ | entry <;> rfl
    rw [boUnrefBelow, ih, boUnref_apply, hsplit, List.count_append]
    push_cast
    ring

end References

/-! ## The array while it is filled -/

section Filled

variable (env : BoListEnv)

/-- The references of entries. -/
def entryRobjs (entries : List BoListEntry) : List BoRes :=
  entries.map fun entry => .bo entry.robj

/-- The array holds `front` at its front and `back` at its end, and the references of both were
taken on top of `held`. -/
structure BoListFill.Filled (n : ℕ) (held : Ledger BoRes) (front back : List BoListEntry)
    (fill : BoListFill) : Prop where
  i : fill.i = front.length + back.length
  le : fill.i ≤ n
  array : fill.array =
    front.map some ++ (List.replicate (n - fill.i) none ++ back.map some)
  lastEntry : fill.lastEntry = front.length
  firstUserptr : fill.firstUserptr = n - back.length
  held : ∀ k, fill.held k = held k + (entryRobjs (front ++ back)).count k

variable {env} {n : ℕ} {held : Ledger BoRes} {front back : List BoListEntry} {fill : BoListFill}

theorem filled_init (env : BoListEnv) (n : ℕ) (held : Ledger BoRes) :
    (BoListFill.init env n held).Filled n held [] [] where
  i := rfl
  le := Nat.zero_le n
  array := by simp [BoListFill.init]
  lastEntry := rfl
  firstUserptr := rfl
  held := by simp [BoListFill.init, entryRobjs]

@[simp] theorem robjs_append (a b : List (Option BoListEntry)) :
    robjs (a ++ b) = robjs a ++ robjs b :=
  List.filterMap_append

@[simp] theorem robjs_replicate_none (g : ℕ) : robjs (List.replicate g none) = [] := by
  simp [robjs]

theorem robjs_map_some (entries : List BoListEntry) :
    robjs (entries.map some) = entryRobjs entries := by
  simp [robjs, entryRobjs]

/-- One more entry is one more reference. -/
theorem count_entryRobjs_insert (front back : List BoListEntry) (entry : BoListEntry) (k : BoRes) :
    (entryRobjs (front ++ entry :: back)).count k =
      (entryRobjs (front ++ back)).count k + if k = .bo entry.robj then 1 else 0 := by
  simp only [entryRobjs, List.map_append, List.map_cons, List.count_append, List.count_cons,
    beq_iff_eq, eq_comm (a := k)]
  omega

/-- The references after a lookup: the one of the GEM object was dropped. -/
theorem held_lookup_apply (held : Ledger BoRes) (bo : ℕ) (k : BoRes) :
    (((held.acquire (.gem bo)).acquire (.bo bo)).release (.gem bo)) k =
      held k + if k = .bo bo then 1 else 0 := by
  simp only [Ledger.release_apply, Ledger.acquire_apply]
  ring

/-- An accepted handle has a buffer object, ordinary or of this process. -/
theorem BoListInfo.accepted_iff {info : BoListInfo} :
    info.accepted env ↔ ∃ bo, env.lookup info.boHandle = some bo ∧
      ∀ mm, env.usermm bo = some mm → mm = env.mm := by
  rw [BoListInfo.accepted]
  cases env.lookup info.boHandle with
  | none => simp
  | some bo => simp [Option.all_eq_true]

/-- An ordinary buffer object goes to the end of the front. -/
theorem BoListFill.Filled.ordinary {info : BoListInfo} (h : fill.Filled n held front back)
    (hlt : fill.i < n) (hacc : info.accepted env) (huser : info.isUserptr env = false) :
    ∃ fill', boListSetEntry env info fill = .ret fill' none ∧
      fill'.Filled n held (front ++ [info.entry env]) back := by
  obtain ⟨bo, hbo, -⟩ := BoListInfo.accepted_iff.mp hacc
  have hmm : env.usermm bo = none := by simpa [BoListInfo.isUserptr, hbo] using huser
  have hentry : info.entry env = ⟨bo, boListPriority info.boPriority⟩ := by
    rw [BoListInfo.entry, hbo, Option.getD_some]
  refine ⟨_, by rw [boListSetEntry, hbo]; dsimp only; rw [hmm], ?_⟩
  rw [hentry]
  have hgap : n - fill.i = n - (fill.i + 1) + 1 := by omega
  refine ⟨?_, hlt, ?_, ?_, h.firstUserptr, fun k => ?_⟩
  · simp only [BoListFill.store, h.i, List.length_append, List.length_singleton]
    omega
  · simp [BoListFill.store, h.array, h.lastEntry, hgap, List.replicate_succ]
  · simp [BoListFill.store, h.lastEntry]
  · rw [List.append_assoc, List.singleton_append, count_entryRobjs_insert]
    simp only [BoListFill.store, held_lookup_apply, h.held]
    push_cast
    ring

/-- User memory goes in front of the back. -/
theorem BoListFill.Filled.userptr {info : BoListInfo} (h : fill.Filled n held front back)
    (hlt : fill.i < n) (hacc : info.accepted env) (huser : info.isUserptr env = true) :
    ∃ fill', boListSetEntry env info fill = .ret fill' none ∧
      fill'.Filled n held front (info.entry env :: back) := by
  obtain ⟨bo, hbo, hown⟩ := BoListInfo.accepted_iff.mp hacc
  obtain ⟨mm, hmm⟩ : ∃ mm, env.usermm bo = some mm := by
    simpa [BoListInfo.isUserptr, hbo, Option.isSome_iff_exists] using huser
  have hentry : info.entry env = ⟨bo, boListPriority info.boPriority⟩ := by
    rw [BoListInfo.entry, hbo, Option.getD_some]
  refine ⟨_, by
    rw [boListSetEntry, hbo]; dsimp only; rw [hmm]; dsimp only; rw [if_neg (by simp [hown mm hmm])],
    ?_⟩
  rw [hentry]
  have hi := h.i
  have hfirst : fill.firstUserptr - 1 = front.length + (n - (fill.i + 1)) := by
    rw [h.firstUserptr]
    omega
  have hgap : n - fill.i = n - (fill.i + 1) + 1 := by omega
  refine ⟨?_, hlt, ?_, h.lastEntry, ?_, fun k => ?_⟩
  · simp only [BoListFill.store, h.i, List.length_cons]
    omega
  · simp [BoListFill.store, h.array, hfirst, hgap, List.replicate_succ']
  · simp only [BoListFill.store, h.firstUserptr, List.length_cons]
    omega
  · rw [count_entryRobjs_insert]
    simp only [BoListFill.store, held_lookup_apply, h.held]
    push_cast
    ring

/-- An entry that is not accepted fails, and leaves no reference. -/
theorem BoListFill.Filled.rejected {info : BoListInfo} (h : fill.Filled n held front back)
    (hacc : info.accepted env = false) :
    ∃ fill' e, boListSetEntry env info fill = .ret fill' (some e) ∧
      fill'.Filled n held front back := by
  rw [boListSetEntry]
  cases hbo : env.lookup info.boHandle with
  | none => exact ⟨fill, .ENOENT, rfl, h⟩
  | some bo =>
    obtain ⟨mm, hmm, hne⟩ : ∃ mm, env.usermm bo = some mm ∧ mm ≠ env.mm := by
      rw [← Bool.not_eq_true, BoListInfo.accepted_iff] at hacc
      push Not at hacc
      exact hacc bo hbo
    dsimp only
    rw [hmm]
    dsimp only
    rw [if_pos hne]
    refine ⟨_, .EPERM, rfl, { h with held := fun k => ?_ }⟩
    dsimp only
    rw [Ledger.release_apply, held_lookup_apply, add_sub_cancel_right, h.held]

/-- The entries below `i` are the front, and the part of the back that is behind a gap shorter
than the back. -/
theorem BoListFill.Filled.robjs_take (h : fill.Filled n held front back) :
    robjs (fill.array.take fill.i) =
      entryRobjs front ++ entryRobjs (back.take (back.length - (n - fill.i))) := by
  have hfront : (front.map some).take fill.i = front.map some :=
    List.take_of_length_le (by rw [List.length_map, h.i]; omega)
  have hback : fill.i - front.length = back.length := by rw [h.i]; omega
  rw [h.array, List.take_append, List.take_append, hfront, List.length_map, hback,
    List.length_replicate, List.take_replicate, ← List.map_take]
  simp only [robjs_append, robjs_replicate_none, List.nil_append, robjs_map_some]

/-- **The loop** stops at the first entry that is not accepted, with the entries before it in the
array: the ordinary ones from the front, and user memory from the back.

**Proof sketch.** Induction over the array of handles. An entry that is accepted makes the front or
the back longer, and the loop goes on with the rest. -/
theorem boListSetLoop_filled (env : BoListEnv) (infos : List BoListInfo)
    (h : fill.Filled n held front back) (hlen : fill.i + infos.length ≤ n) :
    ∃ fill' r, boListSetLoop env infos fill = .ret fill' r ∧
      (r = none ↔ ∀ info ∈ infos, info.accepted env) ∧
      fill'.Filled n held (front ++ ordinaryEntries env (infos.takeWhile (·.accepted env)))
        ((userptrEntries env (infos.takeWhile (·.accepted env))).reverse ++ back) := by
  induction infos generalizing fill front back with
  | nil => exact ⟨fill, none, rfl, by simp, by simpa [ordinaryEntries, userptrEntries] using h⟩
  | cons info infos ih =>
    rw [List.length_cons] at hlen
    cases hacc : info.accepted env with
    | false =>
      obtain ⟨fill', e, heq, hfill⟩ := h.rejected hacc
      refine ⟨fill', some e, by rw [boListSetLoop, heq]; rfl, by simp [hacc], ?_⟩
      simpa [ordinaryEntries, userptrEntries, List.takeWhile_cons, hacc] using hfill
    | true =>
      cases huser : info.isUserptr env with
      | false =>
        obtain ⟨fill', heq, hfill⟩ := h.ordinary (by omega) hacc huser
        have hi : fill'.i = fill.i + 1 := by
          rw [hfill.i, h.i, List.length_append, List.length_singleton]
          omega
        obtain ⟨fill'', r, hloop, hr, hfill''⟩ := ih hfill (by omega)
        refine ⟨fill'', r, by rw [boListSetLoop, heq]; exact hloop, by simpa [hacc] using hr, ?_⟩
        simpa [ordinaryEntries, userptrEntries, List.takeWhile_cons, hacc, huser] using hfill''
      | true =>
        obtain ⟨fill', heq, hfill⟩ := h.userptr (by omega) hacc huser
        have hi : fill'.i = fill.i + 1 := by
          rw [hfill.i, h.i, List.length_cons]
          omega
        obtain ⟨fill'', r, hloop, hr, hfill''⟩ := ih hfill (by omega)
        refine ⟨fill'', r, by rw [boListSetLoop, heq]; exact hloop, by simpa [hacc] using hr, ?_⟩
        simpa [ordinaryEntries, userptrEntries, List.takeWhile_cons, hacc, huser] using hfill''

end Filled

/-! ## The whole call -/

section Call

variable (env : BoListEnv) (infos : List BoListInfo)

/-- The entries of both kinds are those of all handles. -/
theorem entries_perm : (ordinaryEntries env infos ++ (userptrEntries env infos).reverse).Perm
    (infos.map (·.entry env)) := by
  have hsplit : (ordinaryEntries env infos ++ userptrEntries env infos).Perm
      (infos.map (·.entry env)) := by
    rw [ordinaryEntries, userptrEntries, ← List.map_append]
    refine List.Perm.map _ (List.perm_append_comm.trans ?_)
    exact List.filter_append_perm _ infos
  exact ((List.reverse_perm _).append_left _).trans hsplit

theorem infoRobjs_of_accepted (h : ∀ info ∈ infos, info.accepted env) :
    infoRobjs env infos = entryRobjs (infos.map (·.entry env)) := by
  rw [infoRobjs, entryRobjs, List.map_map, ← List.filterMap_eq_map]
  refine List.filterMap_congr fun info hinfo => ?_
  obtain ⟨bo, hbo, -⟩ := BoListInfo.accepted_iff.mp (h info hinfo)
  simp [BoListInfo.entry, hbo]

/-- A call whose entries are all accepted succeeds, and its references are right. -/
theorem boListSet_accepted (halloc : env.arrayAlloc) (st : BoListState)
    (h : ∀ info ∈ infos, info.accepted env) :
    BoListSetOk env infos st (boListSet env infos st) := by
  obtain ⟨fill, r, hloop, hr, hfill⟩ := boListSetLoop_filled env infos
    (filled_init env infos.length st.held) (by simp [BoListFill.init])
  obtain rfl := hr.mpr h
  rw [List.takeWhile_eq_self_iff.mpr h, List.nil_append, List.append_nil] at hfill
  have hperm := entries_perm env infos
  have hi : fill.i = infos.length := by
    rw [hfill.i, ← List.length_append, hperm.length_eq, List.length_map]
  have harray : fill.array =
      (ordinaryEntries env infos ++ (userptrEntries env infos).reverse).map some := by
    rw [hfill.array, hi, Nat.sub_self, List.replicate_zero, List.nil_append, List.map_append]
  rw [boListSet, halloc, hloop]
  simp only [Bool.not_true, Bool.false_eq_true, if_false, BoListSetOk, harray, robjs_map_some]
  have hlen := hperm.length_eq
  rw [List.length_map] at hlen
  refine ⟨by rw [List.length_map, hlen], by rw [entryRobjs, List.length_map, hlen], ?_,
    fun k => ?_⟩
  · rw [infoRobjs_of_accepted env infos h]
    exact hperm.map _
  · rw [foldl_boUnref_apply, hfill.held]

/-- **An error** drops the references of the ordinary entries, and of user memory only where the
front of the array was as long as to reach it: the first entries of user memory, as many as there
are handles from the failing one on, keep their references. -/
theorem boListSet_error_held (halloc : env.arrayAlloc) (st : BoListState)
    (h : ¬ ∀ info ∈ infos, info.accepted env) :
    ∃ held e, boListSet env infos st = .ret ⟨st.list, held⟩ (some e) ∧
      ∀ k, held k = st.held k + (entryRobjs ((userptrEntries env
        (infos.takeWhile (·.accepted env))).take
          (infos.length - (infos.takeWhile (·.accepted env)).length))).count k := by
  obtain ⟨fill, r, hloop, hr, hfill⟩ := boListSetLoop_filled env infos
    (filled_init env infos.length st.held) (by simp [BoListFill.init])
  obtain ⟨e, rfl⟩ := Option.ne_none_iff_exists'.mp (mt hr.mp h)
  refine ⟨boUnrefBelow fill.array fill.i fill.held, e, ?_, fun k => ?_⟩
  · rw [boListSet, halloc, hloop]
    rfl
  · set pre := infos.takeWhile (·.accepted env)
    set users := userptrEntries env pre
    rw [List.nil_append, List.append_nil] at hfill
    have hi : fill.i = pre.length := by
      rw [hfill.i, ← List.length_append, (entries_perm env pre).length_eq, List.length_map]
    have hdropped : (users.reverse.take (users.reverse.length - (infos.length - pre.length))) =
        (users.drop (infos.length - pre.length)).reverse := by
      rw [List.length_reverse, ← List.reverse_drop]
    have hsplit := congrArg (fun l => (entryRobjs l).count k)
      (List.take_append_drop (infos.length - pre.length) users)
    rw [boUnrefBelow_apply, hfill.held, hfill.robjs_take, hi, hdropped]
    simp only [entryRobjs, List.map_append, List.map_reverse, List.count_append,
      List.count_reverse] at hsplit ⊢
    omega

/-- An error changes nothing if and only if no user memory comes before the failing entry. -/
theorem boListSet_error_iff (halloc : env.arrayAlloc) (st : BoListState)
    (h : ¬ ∀ info ∈ infos, info.accepted env) :
    BoListSetOk env infos st (boListSet env infos st) ↔
      ∀ info ∈ infos.takeWhile (·.accepted env), ¬ info.isUserptr env := by
  obtain ⟨held, e, heq, hheld⟩ := boListSet_error_held env infos halloc st h
  set pre := infos.takeWhile (·.accepted env)
  have hshort : 0 < infos.length - pre.length := by
    have hle : pre.length ≤ infos.length := (List.takeWhile_prefix _).length_le
    have hne : pre.length ≠ infos.length := fun hlen =>
      h (List.takeWhile_eq_self_iff.mp ((List.takeWhile_prefix _).eq_of_length hlen))
    omega
  have husers : (∀ info ∈ pre, ¬ info.isUserptr env) ↔ userptrEntries env pre = [] := by
    simp [userptrEntries]
  rw [heq, husers, BoListSetOk]
  constructor
  · intro hst
    cases husers : userptrEntries env pre with
    | nil => rfl
    | cons entry entries =>
      -- the first user memory is at the end of the array, which is never reached
      have hleak := hheld (.bo entry.robj)
      have hpos : 0 < (entryRobjs ((userptrEntries env pre).take
          (infos.length - pre.length))).count (.bo entry.robj) := by
        rw [husers, List.count_pos_iff]
        obtain ⟨g, hg⟩ := Nat.exists_eq_succ_of_ne_zero hshort.ne'
        simp [hg, entryRobjs]
      have hsame : held = st.held := congrArg BoListState.held hst
      rw [hsame] at hleak
      omega
  · intro hnil
    have hsame : held = st.held := by
      funext k
      rw [hheld k, hnil]
      simp [entryRobjs]
    rw [hsame]

/-- **References of a list.** `amdgpu_bo_list_set` leaves everything as it was when it fails, and
exchanges the references of the old contents for one reference per entry when it succeeds, if and
only if no user memory comes before an entry at which it fails. -/
theorem boListSet_refs_iff (st : BoListState) :
    BoListSetOk env infos st (boListSet env infos st) ↔
      (env.arrayAlloc = true → NoUserptrBeforeError env infos) := by
  by_cases halloc : env.arrayAlloc = true
  · rw [forall_prop_of_true halloc, NoUserptrBeforeError]
    by_cases h : ∀ info ∈ infos, info.accepted env
    · exact iff_of_true (boListSet_accepted env infos halloc st h) (.inl h)
    · rw [boListSet_error_iff env infos halloc st h, or_iff_right h]
  · rw [Bool.not_eq_true] at halloc
    simp [boListSet, BoListSetOk, halloc]

end Call

/-- A process with user memory 7 at handle 1, and no other handle. -/
def userptrEnv : BoListEnv where
  lookup := fun handle => if handle = 1 then some 7 else none
  usermm := fun _ => some 5
  preferedDomains := fun _ => 2
  mm := 5
  arrayAlloc := true
  gdsGfxBo := none
  gwsGfxBo := none
  oaGfxBo := none

/-- A list without entries, and no references. -/
def emptyBoList : BoListState := ⟨⟨none, none, none, 0, []⟩, Ledger.empty⟩

/-- After the user memory at handle 1 the unknown handle 2 fails, and a reference of the user
memory is kept. -/
theorem boListSet_keeps_reference :
    emptyBoList.held (.bo 7) = 0 ∧
      ∃ st, boListSet userptrEnv [⟨1, 0⟩, ⟨2, 0⟩] emptyBoList = .ret st (some .ENOENT) ∧
        st.held (.bo 7) = 1 := by
  exact ⟨rfl, _, rfl, by decide⟩

end Amdgpu
