import AmdgpuPro.Lib.Bitmap
import AmdgpuPro.Vce.Parse

set_option autoImplicit false

/-!
# VCE sessions

The device has a table of sessions. While it goes over a command buffer,
`amdgpu_vce_ring_parse_cs` puts new sessions into free slots, and keeps in `allocated` which slots
an error has to free again. A session that is destroyed and created again in one buffer counts as
allocated, even if it was there before; so an error frees it. And `amdgpu_vce_validate_handle`
finds a free slot for the handle `0`, whose `filp` may still be that of the file.

## Main definitions

* `Amdgpu.VceSlotsKept` — the occupied slots of a table are unchanged, the others are free.
* `VceState.SessionOwned` — the current session has a handle and belongs to the file.
* `VceState.Recreates`, `VceState.NamesZero` — the commands that break this.
* `VceChange` — what a command does to the table.

## Main results

* `Amdgpu.vce_sessions_iff` — which calls keep the slots, and which use sessions of the file only.
-/

namespace Amdgpu

/-- `AMDGPU_MAX_VCE_HANDLES` -/
def vceMaxHandles : ℕ := 16

deriving instance DecidableEq for VceCmd

/-! ## Properties -/

/-- The occupied slots are as before, and no other slot is occupied. -/
structure VceSlotsKept (before after : List VceSlot) : Prop where
  length : after.length = before.length
  slot : ∀ (i : ℕ) (old new : VceSlot), before[i]? = some old → after[i]? = some new →
    (old.handle ≠ 0 → new = old) ∧ (old.handle = 0 → new.handle = 0)

namespace VceState

/-- The current session has a handle, and its slot belongs to the file. -/
def SessionOwned (env : VceEnv) (st : VceState) : Prop :=
  ∀ i ∈ st.sessionIdx, ∃ slot ∈ st.slots[i]?, slot.handle ≠ 0 ∧ slot.filp = some env.filp

/-- The command at `idx`, if it has a valid length. -/
def command (st : VceState) : Option VceCmd :=
  if st.get 0 < 8 ∨ st.get 0 &&& 3 ≠ 0 then none else vceCmd (st.get 1)

/-- The command is a session command for the handle `0`. -/
def NamesZero (st : VceState) : Prop := st.command = some .session ∧ st.get 2 = 0

instance (st : VceState) : Decidable st.NamesZero := inferInstanceAs (Decidable (_ ∧ _))

/-- The command creates a session again that was occupied before the call and that a command of
the buffer destroyed. -/
def Recreates (before : List VceSlot) (st : VceState) : Prop :=
  st.command = some .create ∧ st.destroyed &&& st.sessionBit ≠ 0 ∧
    ∃ i ∈ st.sessionIdx, ∃ slot ∈ before[i]?, slot.handle ≠ 0

instance (before : List VceSlot) (st : VceState) : Decidable (st.Recreates before) :=
  inferInstanceAs (Decidable (_ ∧ _ ∧ _))

/-- What the parser knows about the table. -/
def table (st : VceState) : List VceSlot × BitVec 32 × Option ℕ × Option ℕ :=
  (st.slots, st.allocated, st.sessionIdx, st.size)

theorem table_eq {st : VceState} {t : List VceSlot × BitVec 32 × Option ℕ × Option ℕ} :
    st.table = t ↔
      st.slots = t.1 ∧ st.allocated = t.2.1 ∧ st.sessionIdx = t.2.2.1 ∧ st.size = t.2.2.2 := by
  obtain ⟨slots, allocated, sessionIdx, size⟩ := t
  simp [table]

end VceState

/-! ## One command -/

/-- What a command does to the table. -/
inductive VceChange (env : VceEnv) (cmd : Option VceCmd) (st : VceState) : Outcome VceState → Prop
  /-- nothing -/
  | same {o : Outcome VceState} (htable : o.state.table = st.table)
      (hsession : o.Succeeds → cmd ≠ some .session)
      (hcreate : cmd = some .create → st.destroyed &&& st.sessionBit = 0) : VceChange env cmd st o
  /-- a session is found -/
  | pick {o : Outcome VceState} {i : ℕ} {slot : VceSlot} (hcmd : cmd = some .session)
      (hslot : st.slots[i]? = some slot) (hhandle : slot.handle = st.get 2)
      (hfilp : slot.filp = some env.filp)
      (htable : o.state.table = (st.slots, st.allocated, some i, some i)) : VceChange env cmd st o
  /-- a session is put into a free slot -/
  | claim {o : Outcome VceState} {i : ℕ} {slot : VceSlot} (hcmd : cmd = some .session)
      (hslot : st.slots[i]? = some slot) (hfree : slot.handle = 0) (hhandle : st.get 2 ≠ 0)
      (htable : o.state.table = (st.slots.set i ⟨st.get 2, some env.filp, 0⟩,
        st.allocated ||| 1 <<< i, some i, some i)) : VceChange env cmd st o
  /-- a session is created -/
  | create {o : Outcome VceState} (value : BitVec 32) (hcmd : cmd = some .create)
      (hmay : st.destroyed &&& st.sessionBit = 0 → st.allocated &&& st.sessionBit ≠ 0)
      (htable : o.state.table =
        (st.size.elim st.slots fun i =>
            st.slots.modify i fun slot => { slot with imgSize := value },
          st.allocated ||| st.sessionBit, st.sessionIdx, st.size)) : VceChange env cmd st o

section Command

variable {env : VceEnv} {st : VceState}

/-- `1 << i` -/
theorem one_shiftLeft_eq (i : ℕ) : ((1 <<< i : ℕ) : BitVec 32) = BitVec.twoPow 32 i := by
  refine BitVec.eq_of_toNat_eq ?_
  simp [Nat.shiftLeft_eq]

theorem VceState.sessionBit_eq : st.sessionBit = BitVec.twoPow 32 (st.sessionIdx.getD 31) :=
  one_shiftLeft_eq _

/-- What follows a call leaves the table alone. -/
theorem table_andThen (o : Outcome VceState) {f : VceState → Outcome VceState}
    (hf : ∀ st, (f st).state.table = st.table) : (o.andThen f).state.table = o.state.table := by
  rcases o with ⟨st, _ | e⟩ | st
  · exact hf st
  · rfl
  · rfl

theorem vceCsReloc_table (lo hi : ℕ) (size index : BitVec 32) :
    (vceCsReloc env lo hi size index st).state.table = st.table := by
  rw [vceCsReloc]
  dsimp only
  split <;> rfl

/-- Writing `*size` changes an image size of the table, or none. -/
theorem VceState.table_setSize (value : BitVec 32) : (st.setSize value).table =
    (st.size.elim st.slots fun i => st.slots.modify i fun slot => { slot with imgSize := value },
      st.allocated, st.sessionIdx, st.size) := by
  cases hsize : st.size <;> simp [VceState.setSize, VceState.table, hsize]

theorem vceCreate_change : VceChange env (some .create) st (vceCreate st) := by
  rw [vceCreate]
  by_cases hdestroyed : st.destroyed &&& st.sessionBit = 0
  · by_cases hallocated : st.allocated &&& st.sessionBit = 0
    · refine .same ?_ (fun h => ?_) fun _ => hdestroyed
      all_goals simp only [VceState.mayCreate, hdestroyed, hallocated] at *
      · rfl
      · cases h
    · have hmay : st.mayCreate = true := by
        rw [VceState.mayCreate, Bool.or_eq_true]
        exact .inr (decide_eq_true hallocated)
      have hset : st.allocated ||| st.sessionBit = st.allocated := by
        rw [VceState.sessionBit_eq] at hallocated ⊢
        exact Bitmap.setBit_of_getLsbD (Bitmap.and_twoPow_ne_zero.mp hallocated)
      refine .create (st.get 8 * st.get 10 * 8 * 3 / 2) rfl (fun _ => hallocated) ?_
      simp only [hmay, hdestroyed, ne_eq, not_true, if_false, Bool.not_true, Bool.false_eq_true,
        Outcome.state_ret, VceState.table_setSize, hset]
      rfl
  · have hmay : st.mayCreate = true := by
      rw [VceState.mayCreate, Bool.or_eq_true]
      exact .inl (decide_eq_true hdestroyed)
    refine .create (st.get 8 * st.get 10 * 8 * 3 / 2) rfl (fun h => absurd h hdestroyed) ?_
    simp only [hmay, hdestroyed, ne_eq, not_false_eq_true, if_true, Bool.not_true,
      Bool.false_eq_true, if_false, Outcome.state_ret, VceState.table_setSize]
    rfl

theorem vceSession_change : VceChange env (some .session) st (vceSession env st) := by
  rw [vceSession]
  have hget : (st.touch 2).get 2 = st.get 2 := rfl
  rw [hget, vceValidateHandle]
  cases hfound : (st.touch 2).slots.findIdx? (·.handle = st.get 2) with
  | some i =>
    obtain ⟨hlt, hhandle, -⟩ := List.findIdx?_eq_some_iff_getElem.mp hfound
    dsimp only
    split_ifs with hfilp
    · exact .same rfl (fun h => (by cases h)) fun h => (by cases h)
    · have hslot := List.getElem?_eq_getElem hlt
      rw [hslot] at hfilp
      exact .pick rfl hslot (of_decide_eq_true hhandle) (not_not.mp hfilp) rfl
  | none =>
    dsimp only
    cases hfree : (st.touch 2).slots.findIdx? (·.handle = 0) with
    | none => exact .same rfl (fun h => (by cases h)) fun h => (by cases h)
    | some i =>
      obtain ⟨hlt, hzero, -⟩ := List.findIdx?_eq_some_iff_getElem.mp hfree
      refine .claim rfl (List.getElem?_eq_getElem hlt) (of_decide_eq_true hzero) (fun h => ?_) rfl
      have hne := List.findIdx?_eq_none_iff.mp hfound _ (List.getElem_mem hlt)
      rw [h] at hne
      exact absurd hzero (by simpa using hne)

/-- What the commands do to the table. -/
theorem vceSwitch_change (cmd : VceCmd) : VceChange env (some cmd) st (vceSwitch env st cmd) := by
  cases cmd with
  | session => exact vceSession_change
  | create => exact vceCreate_change
  | encode =>
    refine .same ?_ (fun _ h => (by cases h)) fun h => (by cases h)
    rw [vceSwitch]
    rw [table_andThen _ fun st' => vceCsReloc_table 12 11 (st'.sizeVal / 3) 0]
    exact vceCsReloc_table 10 9 st.sizeVal 0
  | contextBuffer | feedbackBuffer | bitstreamBuffer =>
    exact .same (vceCsReloc_table _ _ _ _) (fun _ h => (by cases h)) fun h => (by cases h)
  | taskInfo | plain | hwConfig | destroy =>
    exact .same rfl (fun _ h => (by cases h)) fun h => (by cases h)

theorem VceChange.andThen {cmd : Option VceCmd} {o : Outcome VceState}
    (h : VceChange env cmd st o) {f : VceState → Outcome VceState}
    (hf : ∀ st, (f st).state.table = st.table) : VceChange env cmd st (o.andThen f) := by
  have htable := table_andThen o hf
  have hsucceeds : (o.andThen f).Succeeds → o.Succeeds := by
    rcases o with ⟨st, _ | e⟩ | st
    · exact fun _ => rfl
    · exact id
    · exact id
  cases h with
  | same hsame hsession hcreate =>
    exact .same (htable.trans hsame) (fun h => hsession (hsucceeds h)) hcreate
  | pick hcmd hslot hhandle hfilp h => exact .pick hcmd hslot hhandle hfilp (htable.trans h)
  | claim hcmd hslot hfree hhandle h => exact .claim hcmd hslot hfree hhandle (htable.trans h)
  | create value hcmd hmay h => exact .create value hcmd hmay (htable.trans h)

/-- **What a command does to the table**, if it succeeds or not. -/
theorem vceCommand_change : VceChange env st.command st (vceCommand env st) := by
  -- the header is read into a state with the same table
  let st₁ := ({ st with len := st.get 0 }.touch 0).touch 1
  rw [vceCommand, VceState.command]
  by_cases hlen : st.get 0 < 8 ∨ st.get 0 &&& 3 ≠ 0
  · rw [if_pos hlen, if_pos (show st₁.len < 8 ∨ st₁.len &&& 3 ≠ 0 from hlen)]
    exact .same rfl (fun h => (by cases h)) fun h => (by cases h)
  rw [if_neg hlen, if_neg (show ¬ (st₁.len < 8 ∨ st₁.len &&& 3 ≠ 0) from hlen)]
  cases hcmd : vceCmd (st.get 1) with
  | none =>
    rw [show vceCmd (st₁.get 1) = none from hcmd]
    exact .same rfl (fun h => (by cases h)) fun h => (by cases h)
  | some cmd =>
    rw [show vceCmd (st₁.get 1) = some cmd from hcmd]
    refine VceChange.andThen ?_ fun st => ?_
    · have hswitch : VceChange env (some cmd) st₁ (vceSwitch env st₁ cmd) := vceSwitch_change cmd
      cases hswitch with
      | same htable hsession hcreate => exact .same htable hsession hcreate
      | pick hcmd hslot hhandle hfilp htable => exact .pick hcmd hslot hhandle hfilp htable
      | claim hcmd hslot hfree hhandle htable => exact .claim hcmd hslot hfree hhandle htable
      | create value hcmd hmay htable => exact .create value hcmd hmay htable
    · split_ifs <;> rfl

end Command

/-! ## Slots that an error frees -/

/-- What the parser kept of the table: occupied slots have their handles, and slots that do not
count as allocated are as before, or still free. -/
structure VceTracks (before : List VceSlot) (st : VceState) : Prop where
  length : st.slots.length = before.length
  size : st.size = st.sessionIdx
  session_lt : ∀ i, st.sessionIdx = some i → i < before.length
  occupied : ∀ (i : ℕ) (old new : VceSlot), before[i]? = some old → st.slots[i]? = some new →
    old.handle ≠ 0 → new.handle = old.handle ∧ (st.allocated.getLsbD i = false → new = old)
  free : ∀ (i : ℕ) (old new : VceSlot), before[i]? = some old → st.slots[i]? = some new →
    old.handle = 0 → st.allocated.getLsbD i = false → new.handle = 0

/-- A session that was there before counts as allocated. -/
def VceState.Retaken (before : List VceSlot) (st : VceState) : Prop :=
  ∃ (i : ℕ) (old : VceSlot), before[i]? = some old ∧ old.handle ≠ 0 ∧
    st.allocated.getLsbD i = true

section Tracks

variable {env : VceEnv} {before : List VceSlot} {st st' : VceState}

/-- Setting a bit of `allocated`. -/
theorem getLsbD_or_bit {x bit : BitVec 32} {i j : ℕ} (hbit : bit = BitVec.twoPow 32 j)
    (hj : j < 32) : (x ||| bit).getLsbD i = (x.getLsbD i || decide (j = i)) := by
  rw [hbit]
  simp [hj]

theorem VceTracks.of_table (h : VceTracks before st) (hslots : st'.slots = st.slots)
    (hallocated : st'.allocated = st.allocated) (hsize : st'.size = st'.sessionIdx)
    (hsession : ∀ i, st'.sessionIdx = some i → i < before.length) : VceTracks before st' where
  length := hslots ▸ h.length
  size := hsize
  session_lt := hsession
  occupied := by rw [hslots, hallocated]; exact h.occupied
  free := by rw [hslots, hallocated]; exact h.free

/-- A free slot of the table was free before. -/
theorem VceTracks.free_before (h : VceTracks before st) {i : ℕ} {slot old : VceSlot}
    (hslot : st.slots[i]? = some slot) (hfree : slot.handle = 0) (hold : before[i]? = some old) :
    old.handle = 0 := by
  by_contra hne
  have hhandle := (h.occupied i old slot hold hslot hne).1
  exact hne (hhandle ▸ hfree)

/-- A session is put into a free slot. -/
theorem VceTracks.claim (h : VceTracks before st) (hlen : before.length = vceMaxHandles) {i : ℕ}
    {slot new : VceSlot} (hslot : st.slots[i]? = some slot) (hfree : slot.handle = 0)
    (hslots : st'.slots = st.slots.set i new)
    (hallocated : st'.allocated = st.allocated ||| BitVec.twoPow 32 i)
    (hsize : st'.size = some i) (hsession : st'.sessionIdx = some i) :
    VceTracks before st' ∧ (st'.Retaken before ↔ st.Retaken before) := by
  have hi : i < before.length := h.length ▸ (List.getElem?_eq_some_iff.mp hslot).1
  have hlt : i < 32 := by
    rw [hlen, vceMaxHandles] at hi
    omega
  have hbit : ∀ j, st'.allocated.getLsbD j = (st.allocated.getLsbD j || decide (i = j)) :=
    fun j => by rw [hallocated, getLsbD_or_bit rfl hlt]
  have hget : ∀ j, j ≠ i → st'.slots[j]? = st.slots[j]? := fun j hj => by
    rw [hslots, List.getElem?_set_ne hj.symm]
  have hbefore : ∀ old, before[i]? = some old → old.handle = 0 := fun old =>
    h.free_before hslot hfree
  refine ⟨⟨by rw [hslots, List.length_set, h.length], hsize.trans hsession.symm, ?_, ?_, ?_⟩, ?_⟩
  · intro j hj
    obtain rfl := Option.some.inj (hsession.symm.trans hj)
    exact hi
  · intro j old new hold hnew hne
    have hj : j ≠ i := by
      rintro rfl
      exact hne (hbefore old hold)
    rw [hget j hj] at hnew
    simpa [hbit, hj.symm] using h.occupied j old new hold hnew hne
  · intro j old new hold hnew hzero hfalse
    rw [hbit, Bool.or_eq_false_iff, decide_eq_false_iff_not] at hfalse
    rw [hget j (Ne.symm hfalse.2)] at hnew
    exact h.free j old new hold hnew hzero hfalse.1
  · refine exists_congr fun j => exists_congr fun old => and_congr_right fun hold =>
      and_congr_right fun hne => ?_
    have hj : i ≠ j := by
      rintro rfl
      exact hne (hbefore old hold)
    simp [hbit, hj]

/-- The bit of the session in `allocated`; without a session that is bit 31, which has no slot. -/
theorem VceTracks.getLsbD_create (h : VceTracks before st) (hlen : before.length = vceMaxHandles)
    (hallocated : st'.allocated = st.allocated ||| st.sessionBit) (j : ℕ) :
    st'.allocated.getLsbD j =
      (st.allocated.getLsbD j || decide (st.sessionIdx.getD 31 = j)) := by
  have hlt : st.sessionIdx.getD 31 < 32 := by
    cases hidx : st.sessionIdx with
    | none => exact Nat.lt_succ_self 31
    | some i =>
      have hi := h.session_lt i hidx
      rw [hlen, vceMaxHandles] at hi
      exact hi.trans (by decide)
  rw [hallocated, getLsbD_or_bit VceState.sessionBit_eq hlt]

/-- Only the image size of a slot that counts as allocated is new. -/
theorem VceTracks.slot_of_create (h : VceTracks before st) (hlen : before.length = vceMaxHandles)
    {value : BitVec 32}
    (hslots : st'.slots = st.size.elim st.slots
      fun i => st.slots.modify i fun slot => { slot with imgSize := value })
    (hallocated : st'.allocated = st.allocated ||| st.sessionBit) {j : ℕ} {new : VceSlot}
    (hnew : st'.slots[j]? = some new) :
    ∃ slot, st.slots[j]? = some slot ∧ new.handle = slot.handle ∧
      (st'.allocated.getLsbD j = false → new = slot) := by
  rw [hslots, h.size] at hnew
  cases hidx : st.sessionIdx with
  | none =>
    rw [hidx] at hnew
    exact ⟨new, hnew, rfl, fun _ => rfl⟩
  | some i =>
    rw [hidx, Option.elim_some, List.getElem?_modify, Option.map_eq_map,
      Option.map_eq_some_iff] at hnew
    obtain ⟨slot, hslot, rfl⟩ := hnew
    refine ⟨slot, hslot, by split_ifs <;> rfl, fun hfalse => if_neg ?_⟩
    rw [h.getLsbD_create hlen hallocated, hidx] at hfalse
    simp only [Option.getD_some, Bool.or_eq_false_iff, decide_eq_false_iff_not] at hfalse
    exact hfalse.2

/-- Which sessions of before count as allocated after a session is created. -/
theorem VceTracks.retaken_create_iff (h : VceTracks before st)
    (hlen : before.length = vceMaxHandles)
    (hmay : st.destroyed &&& st.sessionBit = 0 → st.allocated &&& st.sessionBit ≠ 0)
    (hallocated : st'.allocated = st.allocated ||| st.sessionBit)
    (hcmd : st.command = some .create) :
    st'.Retaken before ↔ st.Retaken before ∨ st.Recreates before := by
  have hbit := h.getLsbD_create hlen hallocated
  constructor
  · rintro ⟨j, old, hold, hne, hj⟩
    rw [hbit, Bool.or_eq_true, decide_eq_true_eq] at hj
    rcases hj with hj | rfl
    · exact .inl ⟨j, old, hold, hne, hj⟩
    cases hidx : st.sessionIdx with
    | none =>
      rw [hidx] at hold
      have h31 := (List.getElem?_eq_some_iff.mp hold).1
      rw [hlen, vceMaxHandles] at h31
      exact absurd h31 (by decide)
    | some i =>
      rw [hidx] at hold
      by_cases hdestroyed : st.destroyed &&& st.sessionBit = 0
      · have hset := hmay hdestroyed
        rw [VceState.sessionBit_eq, hidx] at hset
        exact .inl ⟨i, old, hold, hne, Bitmap.and_twoPow_ne_zero.mp hset⟩
      · exact .inr ⟨hcmd, hdestroyed, i, hidx, old, hold, hne⟩
  · rintro (⟨j, old, hold, hne, hj⟩ | ⟨-, -, i, hidx, old, hold, hne⟩)
    · exact ⟨j, old, hold, hne, by rw [hbit, hj, Bool.true_or]⟩
    · have hidx' : st.sessionIdx = some i := hidx
      exact ⟨i, old, hold, hne, by simp [hbit, hidx']⟩

/-- A session is created. -/
theorem VceTracks.create (h : VceTracks before st) (hlen : before.length = vceMaxHandles)
    {value : BitVec 32}
    (hslots : st'.slots = st.size.elim st.slots
      fun i => st.slots.modify i fun slot => { slot with imgSize := value })
    (hallocated : st'.allocated = st.allocated ||| st.sessionBit)
    (hsession : st'.sessionIdx = st.sessionIdx) (hsize : st'.size = st.size) :
    VceTracks before st' where
  length := by
    rw [hslots, ← h.length]
    cases st.size <;> simp
  size := hsize.trans (h.size.trans hsession.symm)
  session_lt i hi := h.session_lt i (hsession ▸ hi)
  occupied j old new hold hnew hne := by
    obtain ⟨slot, hslot, hhandle, heq⟩ := h.slot_of_create hlen hslots hallocated hnew
    obtain ⟨hsame, hkept⟩ := h.occupied j old slot hold hslot hne
    refine ⟨hhandle.trans hsame, fun hfalse => (heq hfalse).trans (hkept ?_)⟩
    rw [h.getLsbD_create hlen hallocated, Bool.or_eq_false_iff] at hfalse
    exact hfalse.1
  free j old new hold hnew hzero hfalse := by
    obtain ⟨slot, hslot, hhandle, -⟩ := h.slot_of_create hlen hslots hallocated hnew
    rw [h.getLsbD_create hlen hallocated, Bool.or_eq_false_iff] at hfalse
    exact hhandle.trans (h.free j old slot hold hslot hzero hfalse.1)

/-- **One command**: an occupied slot counts as allocated if it did before, or its session is
created again. -/
theorem VceTracks.step (h : VceTracks before st) (hlen : before.length = vceMaxHandles) :
    VceTracks before (vceCommand env st).state ∧
      ((vceCommand env st).state.Retaken before ↔ st.Retaken before ∨ st.Recreates before) := by
  have hchange : VceChange env st.command st (vceCommand env st) := vceCommand_change
  cases hchange with
  | same htable hsession hcreate =>
    obtain ⟨hslots, hallocated, hidx, hsize⟩ := VceState.table_eq.mp htable
    refine ⟨h.of_table hslots hallocated (hsize.trans (h.size.trans hidx.symm))
      (hidx ▸ h.session_lt), ?_⟩
    rw [VceState.Retaken, hallocated]
    refine (or_iff_left ?_).symm
    rintro ⟨hcmd, hdestroyed, -⟩
    exact hdestroyed (hcreate hcmd)
  | @pick i slot hcmd hslot hhandle hfilp htable =>
    obtain ⟨hslots, hallocated, hidx, hsize⟩ := VceState.table_eq.mp htable
    refine ⟨h.of_table hslots hallocated (hsize.trans hidx.symm) fun j hj => ?_, ?_⟩
    · obtain rfl := Option.some.inj (hidx.symm.trans hj)
      exact h.length ▸ (List.getElem?_eq_some_iff.mp hslot).1
    · rw [VceState.Retaken, hallocated]
      refine (or_iff_left ?_).symm
      rintro ⟨hcreate, -⟩
      cases hcmd.symm.trans hcreate
  | @claim i slot hcmd hslot hfree hhandle htable =>
    obtain ⟨hslots, hallocated, hidx, hsize⟩ := VceState.table_eq.mp htable
    rw [one_shiftLeft_eq] at hallocated
    obtain ⟨htracks, hretaken⟩ := h.claim hlen hslot hfree hslots hallocated hsize hidx
    refine ⟨htracks, hretaken.trans (or_iff_left ?_).symm⟩
    rintro ⟨hcreate, -⟩
    cases hcmd.symm.trans hcreate
  | create value hcmd hmay htable =>
    obtain ⟨hslots, hallocated, hidx, hsize⟩ := VceState.table_eq.mp htable
    exact ⟨h.create hlen hslots hallocated hidx hsize,
      h.retaken_create_iff hlen hmay hallocated hcmd⟩

/-- **The commands of a buffer**: an occupied slot counts as allocated if and only if one of them
creates its session again. -/
theorem vceLoop_retaken_iff (h : VceTracks before st) (hlen : before.length = vceMaxHandles)
    {fuel : ℕ} (hfuel : env.lengthDw ≤ fuel + st.idx) :
    VceTracks before (vceLoop env fuel st).state ∧
      (¬ (vceLoop env fuel st).state.Retaken before ↔ ¬ st.Retaken before ∧
        ∀ k s, vceStates env st k = some s → s.idx < env.lengthDw → ¬ s.Recreates before) := by
  induction fuel generalizing st with
  | zero =>
    refine ⟨h, (and_iff_left fun k s hs hlt => absurd ?_ (not_le.mpr hlt)).symm⟩
    exact vceStates_end (by omega) hs
  | succ fuel ih =>
    rw [vceLoop]
    split_ifs with hend
    · exact ⟨h, (and_iff_left fun k s hs hlt =>
        absurd (vceStates_end hend hs) (not_le.mpr hlt)).symm⟩
    have hlt := not_le.mp hend
    rw [vceStates_forall _ hlt, forall_prop_of_true hlt]
    have hcmd : VceTracks before (vceCommand env st).state ∧
      ((vceCommand env st).state.Retaken before ↔ _) := h.step hlen
    rcases hout : vceCommand env st with ⟨st', _ | e⟩ | st'
    · rw [hout] at hcmd
      have hidx := vceCommand_idx hout
      obtain ⟨htracks, hretaken⟩ := ih hcmd.1 (by simp only [Outcome.state_ret]; omega)
      refine ⟨htracks, ?_⟩
      rw [Outcome.andThen, show (¬ (vceLoop env fuel st').state.Retaken before ↔ _) from hretaken,
        hcmd.2, not_or, and_assoc]
      simp only [Outcome.ret.injEq, and_true, forall_eq', Outcome.state_ret]
    · rw [hout] at hcmd
      refine ⟨hcmd.1, ?_⟩
      rw [Outcome.andThen, show (Outcome.ret st' (some e)).state.Retaken before ↔ _ from hcmd.2,
        not_or]
      simp
    · rw [hout] at hcmd
      refine ⟨hcmd.1, ?_⟩
      rw [Outcome.andThen, show (Outcome.bug st').state.Retaken before ↔ _ from hcmd.2, not_or]
      simp

/-- An error frees the slots that count as allocated. -/
theorem VceTracks.out_kept_iff (h : VceTracks before st) (e : Errno) :
    VceSlotsKept before (vceOut (some e) st).state.slots ↔ ¬ st.Retaken before := by
  have hget : ∀ i : ℕ, (vceOut (some e) st).state.slots[i]? = st.slots[i]?.map fun slot =>
      if st.allocated.getLsbD i = true then { slot with handle := 0 } else slot := fun i => by
    simp only [vceOut, reduceCtorEq, if_false, Outcome.state_ret, List.getElem?_mapIdx,
      one_shiftLeft_eq, BitVec.ofNat_eq_ofNat, Bitmap.and_twoPow_ne_zero]
  constructor
  · rintro hkept ⟨i, old, hold, hne, hbit⟩
    have hi : i < st.slots.length := h.length ▸ (List.getElem?_eq_some_iff.mp hold).1
    have hnew := hget i
    rw [List.getElem?_eq_getElem hi, Option.map_some, if_pos hbit] at hnew
    have hsame := (hkept.slot i old _ hold hnew).1 hne
    exact hne (hsame ▸ rfl)
  · intro hretaken
    refine ⟨by simp [vceOut, h.length], fun i old new hold hnew => ?_⟩
    rw [hget, Option.map_eq_some_iff] at hnew
    obtain ⟨slot, hslot, rfl⟩ := hnew
    by_cases hbit : st.allocated.getLsbD i = true
    · exact ⟨fun hne => absurd ⟨i, old, hold, hne, hbit⟩ hretaken, fun _ => by rw [if_pos hbit]⟩
    · rw [if_neg hbit]
      rw [Bool.not_eq_true] at hbit
      exact ⟨fun hne => (h.occupied i old slot hold hslot hne).2 hbit,
        fun hzero => h.free i old slot hold hslot hzero hbit⟩

/-- Nothing happened to the table before the first command. -/
theorem VceTracks.init (ptr : IbWords) (before : List VceSlot) (tmp : BitVec 32) :
    VceTracks before (.init ptr before tmp) where
  length := rfl
  size := rfl
  session_lt := fun i h => (by cases h)
  occupied := fun i old new hold hnew _ => by
    obtain rfl := Option.some.inj (hold.symm.trans hnew)
    exact ⟨rfl, fun _ => rfl⟩
  free := fun i old new hold hnew hzero _ => by
    obtain rfl := Option.some.inj (hold.symm.trans hnew)
    exact hzero

end Tracks

/-! ## Sessions of a buffer -/

section Owned

variable {env : VceEnv} {st st' : VceState}

/-- **One command**: after a session of the file, the current session is one of the file, unless
the command named the handle `0`. -/
theorem VceState.SessionOwned.step (h : st.SessionOwned env)
    (hcmd : vceCommand env st = .ret st' none) : st'.SessionOwned env ↔ ¬ st.NamesZero := by
  have hchange : VceChange env st.command st (vceCommand env st) := vceCommand_change
  rw [hcmd] at hchange
  cases hchange with
  | same htable hsession hcreate =>
    obtain ⟨hslots, -, hidx, -⟩ := VceState.table_eq.mp htable
    refine iff_of_true ?_ fun hzero => hsession rfl hzero.1
    rw [VceState.SessionOwned] at h ⊢
    rw [Outcome.state_ret] at hslots hidx
    rwa [hslots, hidx]
  | @pick i slot hcmd hslot hhandle hfilp htable =>
    obtain ⟨hslots, -, hidx, -⟩ := VceState.table_eq.mp htable
    rw [Outcome.state_ret] at hslots hidx
    rw [VceState.SessionOwned, hidx, hslots, VceState.NamesZero, ← hhandle]
    constructor
    · rintro howned ⟨-, hzero⟩
      obtain ⟨slot', hslot', hne, -⟩ := howned i rfl
      obtain rfl := Option.some.inj (hslot.symm.trans hslot')
      exact hne hzero
    · intro hzero j hj
      obtain rfl := Option.some.inj hj
      exact ⟨slot, hslot, fun h => hzero ⟨hcmd, h⟩, hfilp⟩
  | @claim i slot hcmd hslot hfree hhandle htable =>
    obtain ⟨hslots, -, hidx, -⟩ := VceState.table_eq.mp htable
    rw [Outcome.state_ret] at hslots hidx
    refine iff_of_true ?_ fun hzero => hhandle hzero.2
    rw [VceState.SessionOwned, hidx, hslots]
    intro j hj
    obtain rfl := Option.some.inj hj
    have hi := (List.getElem?_eq_some_iff.mp hslot).1
    exact ⟨_, List.getElem?_set_self hi, hhandle, rfl⟩
  | create value hcmd hmay htable =>
    obtain ⟨hslots, -, hidx, -⟩ := VceState.table_eq.mp htable
    rw [Outcome.state_ret] at hslots hidx
    refine iff_of_true ?_ fun hzero => (by cases hcmd.symm.trans hzero.1)
    rw [VceState.SessionOwned, hidx, hslots]
    intro i hi
    obtain ⟨slot, hslot, hne, hfilp⟩ := h i hi
    cases hsize : st.size with
    | none => exact ⟨slot, hslot, hne, hfilp⟩
    | some j =>
      refine ⟨if j = i then { slot with imgSize := value } else slot, ?_, ?_, ?_⟩
      · rw [Option.elim_some, Option.mem_def, List.getElem?_modify, Option.mem_def.mp hslot]
        rfl
      · split_ifs <;> exact hne
      · split_ifs <;> exact hfilp

/-- At the end of the buffer there is only the current session. -/
theorem vceStates_owned_of_end (h : st.SessionOwned env) (hend : env.lengthDw ≤ st.idx) :
    (∀ k s, vceStates env st k = some s → s.SessionOwned env) ↔
      ∀ k s, vceStates env st k = some s → s.idx < env.lengthDw → ¬ s.NamesZero := by
  refine iff_of_true (fun k s hs => ?_) fun k s hs hlt =>
    absurd (vceStates_end hend hs) (not_le.mpr hlt)
  cases k with
  | zero => cases hs; exact h
  | succ k => rw [vceStates, if_pos hend] at hs; cases hs

/-- **The commands of a buffer**: if they succeed, all sessions are sessions of the file if and
only if no command names the handle `0`. -/
theorem vceLoop_owned_iff (h : st.SessionOwned env) {fuel : ℕ}
    (hfuel : env.lengthDw ≤ fuel + st.idx) (hloop : vceLoop env fuel st = .ret st' none) :
    (∀ k s, vceStates env st k = some s → s.SessionOwned env) ↔
      ∀ k s, vceStates env st k = some s → s.idx < env.lengthDw → ¬ s.NamesZero := by
  induction fuel generalizing st with
  | zero => exact vceStates_owned_of_end h (by omega)
  | succ fuel ih =>
    by_cases hend : env.lengthDw ≤ st.idx
    · exact vceStates_owned_of_end h hend
    rw [vceLoop, if_neg hend] at hloop
    obtain ⟨st₁, hcmd, hrest⟩ := Outcome.andThen_eq_ret_none.mp hloop
    have hlt := not_le.mp hend
    have hnext := vceCommand_idx hcmd
    rw [vceStates_forall _ hlt, vceStates_forall _ hlt, forall_prop_of_true hlt]
    simp only [hcmd, Outcome.ret.injEq, and_true, forall_eq']
    rw [and_iff_right h]
    by_cases hzero : st.NamesZero
    · refine iff_of_false (fun hall => ?_) fun hall => hall.1 hzero
      exact (h.step hcmd).mp (hall 0 st₁ rfl) hzero
    · rw [and_iff_right hzero]
      exact ih ((h.step hcmd).mpr hzero) (by omega) hrest

end Owned

/-! ## A call of the parser -/

/-- **VCE sessions.** A call that fails leaves the occupied slots as they were and no other slot
occupied if and only if no command creates a session again that was there before and was destroyed
in the buffer. After a call that succeeds all sessions of the buffer had a handle and belonged to
the file if and only if no session command names the handle `0`. -/
theorem vce_sessions_iff (env : VceEnv) (ptr : IbWords) {slots : List VceSlot} (tmp : BitVec 32)
    (hslots : slots.length = vceMaxHandles) :
    (∀ st e, vceRingParseCs env (.init ptr slots tmp) = .ret st (some e) →
      (VceSlotsKept slots st.slots ↔ (env.sysvmAccess = none → ∀ k s,
        vceStates env (.init ptr slots tmp) k = some s → s.idx < env.lengthDw →
          ¬ s.Recreates slots))) ∧
    (∀ st, vceRingParseCs env (.init ptr slots tmp) = .ret st none →
      ((∀ k s, vceStates env (.init ptr slots tmp) k = some s → s.SessionOwned env) ↔ ∀ k s,
        vceStates env (.init ptr slots tmp) k = some s → s.idx < env.lengthDw →
          ¬ s.NamesZero)) := by
  have hloop : VceTracks slots (vceLoop env env.lengthDw (.init ptr slots tmp)).state ∧
      (¬ (vceLoop env env.lengthDw (.init ptr slots tmp)).state.Retaken slots ↔ _) :=
    vceLoop_retaken_iff (VceTracks.init ptr slots tmp) hslots (by simp)
  have hretaken : ¬ (VceState.init ptr slots tmp).Retaken slots := by
    rintro ⟨i, old, -, -, hbit⟩
    simp [VceState.init] at hbit
  have howned : (VceState.init ptr slots tmp).SessionOwned env := fun i hi => (by cases hi)
  rw [and_iff_right hretaken] at hloop
  rw [vceRingParseCs]
  cases hsysvm : env.sysvmAccess with
  | some e =>
    refine ⟨fun st e' hparse => ?_, fun st hparse => (by cases hparse)⟩
    obtain ⟨rfl, -⟩ := Outcome.ret.inj hparse
    refine iff_of_true ⟨rfl, fun i old new hold hnew => ?_⟩ fun h => (by cases h)
    obtain rfl := Option.some.inj (hold.symm.trans hnew)
    exact ⟨fun _ => rfl, id⟩
  | none =>
    simp only [Option.isSome_none, Bool.false_eq_true, if_false, forall_const]
    rcases hout : vceLoop env env.lengthDw (.init ptr slots tmp) with ⟨st₁, _ | e⟩ | st₁
    all_goals rw [hout] at hloop
    · refine ⟨fun st e hparse => ?_, fun st hparse => vceLoop_owned_iff howned (by simp) hout⟩
      dsimp only at hparse
      rw [show (if st₁.allocated &&& ~~~st₁.created ≠ 0 then some Errno.ENOENT else none) = some e
        from (Outcome.ret.inj hparse).2] at hparse
      rw [← hloop.2, ← hloop.1.out_kept_iff e, Outcome.state_ret, hparse, Outcome.state_ret]
    · refine ⟨fun st e' hparse => ?_, fun st hparse => (by cases hparse)⟩
      obtain ⟨rfl, -⟩ := Outcome.ret.inj hparse
      rw [← hloop.2]
      exact hloop.1.out_kept_iff e
    · exact ⟨fun st e' hparse => (by cases hparse), fun st hparse => (by cases hparse)⟩

/-- Every command advances. -/
theorem vceStates_idx {env : VceEnv} {st s : VceState} {k : ℕ}
    (h : vceStates env st k = some s) : st.idx + k ≤ s.idx := by
  induction k generalizing st with
  | zero => cases h; rfl
  | succ k ih =>
    rw [vceStates] at h
    split_ifs at h
    split at h
    · next st' hcmd =>
      have hidx := vceCommand_idx hcmd
      have hrest := ih h
      omega
    · cases h

/-- A submission of `n` dwords by the file `1`. -/
def dwordsEnv (n : ℕ) : VceEnv := { onePageEnv with lengthDw := n }

/-- The session `5` of the file `1`, and free slots, the first of which is left from that file. -/
def oneSession : List VceSlot :=
  ⟨5, some 1, 0x300⟩ :: ⟨0, some 1, 0⟩ :: List.replicate 14 ⟨0, none, 0⟩

/-- The session `5` is destroyed, the session `6` is created, and then there is a command with an
unknown number. -/
def newSessionIb : IbWords := fun i =>
  [12, 1, 5, 8, 0x02000001, 12, 1, 6, 44, 0x01000001, 0, 0, 0, 0, 0, 0, 16, 0, 16, 8, 7].getD i 0

/-- A call that fails and leaves the table as it was, and one that succeeds with two sessions. -/
theorem vce_sessions_iff_newSession :
    (∃ st, vceRingParseCs (dwordsEnv 21) (.init newSessionIb oneSession 0) =
        .ret st (some .EINVAL) ∧ VceSlotsKept oneSession st.slots) ∧
    (∃ st, vceRingParseCs (dwordsEnv 19) (.init newSessionIb oneSession 0) = .ret st none ∧
      ∀ k s, vceStates (dwordsEnv 19) (.init newSessionIb oneSession 0) k = some s →
        s.SessionOwned (dwordsEnv 19)) := by
  have hlen : oneSession.length = vceMaxHandles := rfl
  obtain ⟨hfails, -⟩ := vce_sessions_iff (dwordsEnv 21) newSessionIb 0 hlen
  obtain ⟨-, hsucceeds⟩ := vce_sessions_iff (dwordsEnv 19) newSessionIb 0 hlen
  have hrecreates : ∀ k < 21, ∀ s ∈ vceStates (dwordsEnv 21) (.init newSessionIb oneSession 0) k,
      ¬ s.Recreates oneSession := by
    decide +kernel
  have hzero : ∀ k < 19, ∀ s ∈ vceStates (dwordsEnv 19) (.init newSessionIb oneSession 0) k,
      ¬ s.NamesZero := by
    decide +kernel
  refine ⟨⟨_, rfl, (hfails _ _ rfl).mpr fun _ k s hs hlt => hrecreates k ?_ s hs⟩,
    ⟨_, rfl, (hsucceeds _ rfl).mpr fun k s hs hlt => hzero k ?_ s hs⟩⟩
  · exact (Nat.le_add_left k _).trans_lt ((vceStates_idx hs).trans_lt hlt)
  · exact (Nat.le_add_left k _).trans_lt ((vceStates_idx hs).trans_lt hlt)

/-- The session `5` is destroyed and created again with another size, and then there is a command
with an unknown number. -/
def recreatedIb : IbWords := fun i =>
  [12, 1, 5, 8, 0x02000001, 44, 0x01000001, 0, 0, 0, 0, 0, 0, 16, 0, 16, 8, 7].getD i 0

/-- A session command for the handle `0`. -/
def zeroSessionIb : IbWords := fun i => [12, 1, 0].getD i 0

/-- The call fails, and the session that was there before it is gone; and a call succeeds with a
session that has no handle. -/
theorem vce_session_lost :
    (∃ st, vceRingParseCs (dwordsEnv 18) (.init recreatedIb oneSession 0) =
        .ret st (some .EINVAL) ∧ oneSession[0]? = some ⟨5, some 1, 0x300⟩ ∧
      st.slots[0]? = some ⟨0, some 1, 0xc00⟩ ∧ ¬ VceSlotsKept oneSession st.slots) ∧
    (∃ st s, vceRingParseCs (dwordsEnv 3) (.init zeroSessionIb oneSession 0) = .ret st none ∧
      vceStates (dwordsEnv 3) (.init zeroSessionIb oneSession 0) 1 = some s ∧
      s.sessionIdx = some 1 ∧ s.slots[1]? = some ⟨0, some 1, 0⟩ ∧
      ¬ s.SessionOwned (dwordsEnv 3)) := by
  refine ⟨⟨_, rfl, rfl, rfl, fun hkept => ?_⟩, ⟨_, _, rfl, rfl, rfl, rfl, fun howned => ?_⟩⟩
  · have hslot := (hkept.slot 0 _ _ rfl rfl).1 (by decide)
    exact absurd (congrArg VceSlot.handle hslot) (by decide)
  · obtain ⟨slot, hslot, hne, -⟩ := howned 1 rfl
    obtain rfl : VceSlot.mk 0 (some 1) 0 = slot := Option.some.inj hslot
    exact hne rfl

end Amdgpu
