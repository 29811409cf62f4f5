import AmdgpuPro.Lib.Align
import AmdgpuPro.Sa.Model
import Mathlib.Data.List.TakeWhile

set_option autoImplicit false

/-!
# No range is given away twice

The invariant ties what was given away to the list: a range that may still be used belongs to a
suballocation in `olist`, which has the fence its owner freed it with. What is removed from the list
has a fence that has signaled, so its range is not in use any more.

## Main definitions

* `Amdgpu.SaState.Core` — the invariant of the lists and the ranges.
* `SaState.PcOk` — what the thread with the lock knows.

## Main results

* `Amdgpu.SaState.Core.removeLocked`, `SaState.Core.tryAlloc`, `SaState.Core.free` — the functions
  keep the invariant.
* `sa_safe` — every run is safe.
-/

namespace Amdgpu

open Transition

namespace SaState

/-! ## The invariant -/

/-- The invariant of the lists and the ranges. -/
structure Core (cfg : SaConfig) (s : SaState) : Prop where
  ids : (s.olist.map SaBo.id).Nodup
  range : ∀ b ∈ s.olist, b.soffset ≤ b.eoffset ∧ b.eoffset ≤ cfg.size
  sorted : s.olist.Pairwise fun b b' => b.eoffset ≤ b'.soffset
  hole : ∀ bo, s.hole = some bo → ∃ b ∈ s.olist, b.id = bo
  flist : ∀ i, ∀ bo ∈ s.flist i, ∃ b ∈ s.olist, b.id = bo ∧ b.fence ≠ none
  grants : ∀ g ∈ s.grants, g.InUse s → ∃ b ∈ s.olist, b.id = g.bo ∧ b.soffset = g.soffset ∧
    b.eoffset = g.soffset + g.size ∧ g.released = b.fence.map some
  distinct : s.grants.Pairwise fun g g' => g.InUse s → g'.InUse s → g.bo ≠ g'.bo
  aligned : ∀ g ∈ s.grants, g.align ∣ g.soffset
  inside : ∀ g ∈ s.grants, g.soffset + g.size ≤ cfg.size

/-- A request has passed the checks, and its `struct amdgpu_sa_bo` is not in the list. -/
structure ReqOk (cfg : SaConfig) (s : SaState) (req : SaRequest) : Prop where
  align_le : req.align ≤ cfg.align
  size_le : req.size ≤ cfg.size
  fresh : ∀ b ∈ s.olist, b.id ≠ req.bo

/-- What the thread with the lock knows: the suballocation it has found has signaled. -/
def PcOk (cfg : SaConfig) (s : SaState) : Prop :=
  match s.pc with
  | .unlocked => True
  | .tryFree req _ => ReqOk cfg s req
  | .tryAlloc req _ => ReqOk cfg s req
  | .nextHole req _ => ReqOk cfg s req
  | .scan req _ scan => ReqOk cfg s req ∧ ∀ bo, scan.bestBo = some bo →
      ∃ b ∈ s.olist, b.id = bo ∧ ∃ f, b.fence = some f ∧ s.signaled f = true
  | .fault => False

variable {cfg : SaConfig} {s t : SaState} {b : SaBo} {bo : ℕ} {f : Fence} {g : SaGrant}
  {req : SaRequest}

theorem Core.init : Core cfg init := by
  constructor <;> simp [SaState.init]

/-! ## Pointers -/

theorem mem_of_find (h : s.find bo = some b) : b ∈ s.olist ∧ b.id = bo :=
  ⟨List.mem_of_find?_eq_some h, by simpa using List.find?_some h⟩

/-- Two suballocations in the list with the same address are the same. -/
theorem Core.eq_of_id (h : Core cfg s) {b' : SaBo} (hb : b ∈ s.olist) (hb' : b' ∈ s.olist)
    (hid : b.id = b'.id) : b = b' :=
  List.inj_on_of_nodup_map h.ids hb hb' hid

/-- A pointer to something in the list can be followed. -/
theorem Core.find_eq (h : Core cfg s) (hb : b ∈ s.olist) : s.find b.id = some b := by
  cases hfind : s.find b.id with
  | none => simpa using List.find?_eq_none.mp hfind b hb
  | some b' =>
    obtain ⟨hb', hid⟩ := mem_of_find hfind
    rw [h.eq_of_id hb' hb hid]

/-- What is before a suballocation is in the list, and another one. -/
theorem mem_of_prev {c : ℕ} (h : s.prev bo = some c) :
    ∃ b ∈ s.olist, b.id = c ∧ b.id ≠ bo := by
  obtain ⟨b, hlast, rfl⟩ := Option.map_eq_some_iff.mp h
  have hmem := List.mem_of_getLast? hlast
  refine ⟨b, (List.takeWhile_sublist _).mem hmem, rfl, ?_⟩
  simpa using List.mem_takeWhile_imp hmem

/-! ## Fences -/

/-- A range that is in use when more fences have signaled was in use before. -/
theorem inUse_of_signal (h : g.InUse { s with signaled := Function.update s.signaled f true }) :
    g.InUse s := by
  unfold SaGrant.InUse at h ⊢
  split at h
  · trivial
  · exact h
  · rename_i f' _
    simp only at h ⊢
    by_cases hf : f' = f
    · rw [hf, Function.update_self] at h
      cases h
    · rwa [Function.update_of_ne hf] at h

/-- The signal of a fence keeps the invariant. -/
theorem Core.signal (h : Core cfg s) (f : Fence) :
    Core cfg { s with signaled := Function.update s.signaled f true } where
  ids := h.ids
  range := h.range
  sorted := h.sorted
  hole := h.hole
  flist := h.flist
  grants g hg huse := h.grants g hg (inUse_of_signal huse)
  distinct := h.distinct.imp fun hne huse huse' =>
    hne (inUse_of_signal huse) (inUse_of_signal huse')
  aligned := h.aligned
  inside := h.inside

/-- The range of a suballocation whose fence has signaled is not in use. -/
theorem Core.ne_of_signaled (h : Core cfg s) (hb : b ∈ s.olist) (hfence : b.fence = some f)
    (hsig : s.signaled f = true) : ∀ g ∈ s.grants, g.InUse s → g.bo ≠ b.id := by
  intro g hg huse hid
  obtain ⟨b', hb', hid', -, -, hreleased⟩ := h.grants g hg huse
  rw [h.eq_of_id hb' hb (hid'.trans hid), hfence] at hreleased
  simp [SaGrant.InUse, hreleased, hsig] at huse

/-! ## Removing -/

/-- **Removing a suballocation whose range is not in use keeps the invariant.** -/
theorem Core.removeLocked (h : Core cfg s) (hunused : ∀ g ∈ s.grants, g.InUse s → g.bo ≠ bo) :
    Core cfg (s.removeLocked bo) where
  ids := h.ids.sublist (List.filter_sublist.map _)
  range b hb := h.range b (List.mem_of_mem_filter hb)
  sorted := h.sorted.filter _
  hole c hc := by
    simp only [SaState.removeLocked] at hc
    split_ifs at hc with hhole
    · obtain ⟨b, hb, hid, hne⟩ := mem_of_prev hc
      exact ⟨b, List.mem_filter.mpr ⟨hb, by simpa using hne⟩, hid⟩
    · obtain ⟨b, hb, rfl⟩ := h.hole c hc
      have hne : b.id ≠ bo := fun heq => hhole (heq ▸ hc)
      exact ⟨b, List.mem_filter.mpr ⟨hb, by simpa using hne⟩, rfl⟩
  flist i c hc := by
    simp only [SaState.removeLocked, List.mem_filter] at hc
    obtain ⟨b, hb, rfl, hfence⟩ := h.flist i c hc.1
    exact ⟨b, List.mem_filter.mpr ⟨hb, hc.2⟩, rfl, hfence⟩
  grants g hg huse := by
    obtain ⟨b, hb, hid, hrest⟩ := h.grants g hg huse
    have hne : b.id ≠ bo := hid ▸ hunused g hg huse
    exact ⟨b, List.mem_filter.mpr ⟨hb, by simpa using hne⟩, hid, hrest⟩
  distinct := h.distinct
  aligned := h.aligned
  inside := h.inside

/-! ## Allocating -/

/-- The list, split at the hole. -/
theorem take_append_afterHole (s : SaState) : s.olist.take s.holePos ++ s.afterHole = s.olist :=
  List.take_append_drop _ _

/-- The hole is at the beginning, or starts where the last suballocation up to it ends. -/
theorem Core.take_holePos (h : Core cfg s) :
    (s.olist.take s.holePos = [] ∧ s.holeSoffset = 0) ∨
      ∃ pre c, s.olist.take s.holePos = pre ++ [c] ∧ s.holeSoffset = c.eoffset := by
  unfold holePos holeSoffset
  cases hhole : s.hole with
  | none => exact .inl ⟨rfl, rfl⟩
  | some bo =>
    obtain ⟨c, hc, rfl⟩ := h.hole bo hhole
    have hlt : s.olist.findIdx (fun b => b.id = c.id) < s.olist.length :=
      List.findIdx_lt_length_of_exists ⟨c, hc, by simp⟩
    have hget : s.olist[s.olist.findIdx fun b => b.id = c.id] = c := by
      refine h.eq_of_id (List.getElem_mem hlt) hc ?_
      simpa using List.findIdx_getElem (w := hlt)
    refine .inr ⟨s.olist.take (s.olist.findIdx fun b => b.id = c.id), c, ?_, ?_⟩
    · simp only [List.take_add_one, List.getElem?_eq_getElem hlt, hget, Option.toList_some]
    · simp only [h.find_eq hc, Option.map_some, Option.getD_some]

/-- What is up to the hole ends before it starts. -/
theorem Core.le_holeSoffset (h : Core cfg s) (hb : b ∈ s.olist.take s.holePos) :
    b.eoffset ≤ s.holeSoffset := by
  obtain ⟨hnil, -⟩ | ⟨pre, c, htake, hsoffset⟩ := h.take_holePos
  · rw [hnil] at hb
    cases hb
  · have hsorted := h.sorted.sublist (List.take_sublist s.holePos s.olist)
    have hc : c ∈ s.olist := List.mem_of_mem_take (htake ▸ List.mem_append_right _ (by simp))
    rw [htake] at hb hsorted
    rw [hsoffset]
    rcases List.mem_append.mp hb with hb | hb
    · have hle := (List.pairwise_append.mp hsorted).2.2 b hb c (by simp)
      exact hle.trans (h.range c hc).1
    · rw [List.mem_singleton.mp hb]

/-- What is after the hole starts after its end. -/
theorem Core.holeEoffset_le (h : Core cfg s) (hb : b ∈ s.afterHole) :
    s.holeEoffset cfg ≤ b.soffset := by
  have hsorted := h.sorted.sublist (List.drop_sublist s.holePos s.olist)
  change s.afterHole.Pairwise _ at hsorted
  unfold holeEoffset
  cases hafter : s.afterHole with
  | nil =>
    rw [hafter] at hb
    cases hb
  | cons c rest =>
    have hc : c ∈ s.olist := List.mem_of_mem_drop (hafter ▸ List.mem_cons_self : c ∈ s.afterHole)
    rw [hafter] at hb hsorted
    rcases List.mem_cons.mp hb with rfl | hb
    · exact le_rfl
    · have hle := List.rel_of_pairwise_cons hsorted hb
      exact (h.range c hc).1.trans hle

/-- The hole has a start and an end. -/
theorem Core.hole_le (h : Core cfg s) :
    s.holeSoffset ≤ s.holeEoffset cfg ∧ s.holeEoffset cfg ≤ cfg.size := by
  have hsize : ∀ b ∈ s.afterHole, b ∈ s.olist := fun b hb => List.mem_of_mem_drop hb
  obtain ⟨-, hsoffset⟩ | ⟨pre, c, htake, hsoffset⟩ := h.take_holePos
  · rw [hsoffset]
    refine ⟨Nat.zero_le _, ?_⟩
    unfold holeEoffset
    split
    · exact le_rfl
    · rename_i b rest hafter
      have hb := h.range b (hsize b (hafter ▸ List.mem_cons_self))
      exact hb.1.trans hb.2
  · have hc : c ∈ s.olist.take s.holePos := htake ▸ List.mem_append_right _ (by simp)
    have hsorted := h.sorted
    rw [← take_append_afterHole s, List.pairwise_append] at hsorted
    rw [hsoffset]
    unfold holeEoffset
    split
    · exact ⟨(h.range c (List.mem_of_mem_take hc)).2, le_rfl⟩
    · rename_i b rest hafter
      have hb : b ∈ s.afterHole := hafter ▸ List.mem_cons_self
      have hrange := h.range b (hsize b hb)
      exact ⟨hsorted.2.2 c hc b hb, hrange.1.trans hrange.2⟩

theorem unsignedSub_of_le {a b : ℕ} (hle : b ≤ a) (hlt : a < 2 ^ 32) : unsignedSub a b = a - b := by
  have heq : a + (2 ^ 32 - b) = a - b + 2 ^ 32 := by omega
  rw [unsignedSub, heq, Nat.add_mod_right, Nat.mod_eq_of_lt (by omega)]

/-- What `amdgpu_sa_bo_try_alloc` gives away: an aligned range in the hole. -/
theorem Core.tryAlloc_eq (h : Core cfg s) (hreq : ReqOk cfg s req)
    (halloc : s.tryAlloc cfg req = some t) : ∃ soffset, req.align ∣ soffset ∧
      s.holeSoffset ≤ soffset ∧ soffset + req.size ≤ s.holeEoffset cfg ∧
      t = { s with
        olist := s.olist.take s.holePos ++
          ⟨req.bo, soffset, soffset + req.size, none⟩ :: s.afterHole
        hole := some req.bo
        grants := ⟨req.bo, soffset, req.size, req.align, none⟩ :: s.grants } := by
  obtain ⟨hle, hsize⟩ := h.hole_le
  have hfits := cfg.fits
  have halign := hreq.align_le
  have hreqSize := hreq.size_le
  have hpos := req.align_pos
  have hpad := Align.pad_lt (n := s.holeSoffset) hpos
  have hdvd := Align.dvd_add_pad hpos s.holeSoffset
  unfold Align.pad at hpad hdvd
  simp only [SaState.tryAlloc] at halloc
  -- nothing overflows, because the size and the alignment of the manager fit
  rw [unsignedSub_of_le hle (by omega), Nat.mod_eq_of_lt (by omega)] at halloc
  split_ifs at halloc with hroom
  rw [Nat.mod_eq_of_lt (show s.holeSoffset + (req.align - s.holeSoffset % req.align) % req.align <
    2 ^ 32 by omega), Nat.mod_eq_of_lt (show s.holeSoffset +
      (req.align - s.holeSoffset % req.align) % req.align + req.size < 2 ^ 32 by omega)] at halloc
  exact ⟨_, hdvd, Nat.le_add_right _ _, by omega, (Option.some.inj halloc).symm⟩

/-- **Allocating in the hole keeps the invariant.** -/
theorem Core.tryAlloc (h : Core cfg s) (hreq : ReqOk cfg s req)
    (halloc : s.tryAlloc cfg req = some t) : Core cfg t := by
  obtain ⟨soffset, hdvd, hstart, hend, rfl⟩ := h.tryAlloc_eq hreq halloc
  obtain ⟨-, hsize⟩ := h.hole_le
  have hmem : ∀ b, b ∈ s.olist.take s.holePos ++
      ⟨req.bo, soffset, soffset + req.size, none⟩ :: s.afterHole ↔
        b ∈ s.olist ∨ b = ⟨req.bo, soffset, soffset + req.size, none⟩ := by
    intro b
    conv_rhs => rw [← take_append_afterHole s]
    simp only [List.mem_append, List.mem_cons]
    tauto
  have hold : ∀ b ∈ s.olist, b ∈ s.olist.take s.holePos ++
      ⟨req.bo, soffset, soffset + req.size, none⟩ :: s.afterHole :=
    fun b hb => (hmem b).mpr (.inl hb)
  have hperm : (s.olist.take s.holePos ++
      ⟨req.bo, soffset, soffset + req.size, none⟩ :: s.afterHole).Perm
        (⟨req.bo, soffset, soffset + req.size, none⟩ :: s.olist) := by
    conv_rhs => rw [← take_append_afterHole s]
    exact List.perm_middle
  refine ⟨?_, ?_, ?_, ?_, ?_, ?_, ?_, ?_, ?_⟩
  · rw [(hperm.map SaBo.id).nodup_iff, List.map_cons, List.nodup_cons]
    refine ⟨fun hid => ?_, h.ids⟩
    obtain ⟨b, hb, hid⟩ := List.mem_map.mp hid
    exact hreq.fresh b hb hid
  · intro b hb
    rcases (hmem b).mp hb with hb | rfl
    · exact h.range b hb
    · exact ⟨Nat.le_add_right _ _, hend.trans hsize⟩
  · have hsorted := h.sorted
    rw [← take_append_afterHole s, List.pairwise_append] at hsorted
    refine List.pairwise_append.mpr ⟨hsorted.1, List.pairwise_cons.mpr ⟨?_, hsorted.2.1⟩, ?_⟩
    · exact fun b hb => hend.trans (h.holeEoffset_le hb)
    · intro b hb b' hb'
      rcases List.mem_cons.mp hb' with rfl | hb'
      · exact (h.le_holeSoffset hb).trans hstart
      · exact hsorted.2.2 b hb b' hb'
  · rintro bo hbo
    cases hbo
    exact ⟨_, (hmem _).mpr (.inr rfl), rfl⟩
  · intro i bo hbo
    obtain ⟨b, hb, hrest⟩ := h.flist i bo hbo
    exact ⟨b, hold b hb, hrest⟩
  · intro g hg huse
    rcases List.mem_cons.mp hg with rfl | hg
    · exact ⟨_, (hmem _).mpr (.inr rfl), rfl, rfl, rfl, rfl⟩
    · obtain ⟨b, hb, hrest⟩ := h.grants g hg huse
      exact ⟨b, hold b hb, hrest⟩
  · refine List.pairwise_cons.mpr ⟨fun g hg _ huse hid => ?_, h.distinct⟩
    obtain ⟨b, hb, hid', -⟩ := h.grants g hg huse
    exact hreq.fresh b hb (hid'.trans hid.symm)
  · intro g hg
    rcases List.mem_cons.mp hg with rfl | hg
    · exact hdvd
    · exact h.aligned g hg
  · intro g hg
    rcases List.mem_cons.mp hg with rfl | hg
    · exact hend.trans hsize
    · exact h.inside g hg

/-! ## Freeing by the owner -/

theorem releaseGrant_fields (bo : ℕ) (fence : Option Fence) (g : SaGrant) :
    (releaseGrant bo fence g).bo = g.bo ∧ (releaseGrant bo fence g).soffset = g.soffset ∧
      (releaseGrant bo fence g).size = g.size ∧ (releaseGrant bo fence g).align = g.align := by
  unfold releaseGrant
  split_ifs <;> simp

/-- What is in use after its owner freed it was in use before. -/
theorem inUse_of_releaseGrant {fence : Option Fence} (h : (releaseGrant bo fence g).InUse s) :
    g.InUse s := by
  unfold releaseGrant at h
  split_ifs at h with hcond
  · simp [SaGrant.InUse, hcond.2]
  · exact h

/-- What is in use after a suballocation was freed: its own range, if its fence has not signaled, or
another one. -/
theorem Core.inUse_releaseGrant (h : Core cfg s) (hb : b ∈ s.olist) (hfence : b.fence = none)
    {fence : Option Fence} (hg : g ∈ s.grants) (huse : (releaseGrant b.id fence g).InUse s) :
    (g.bo = b.id ∧ (releaseGrant b.id fence g).released = some fence ∧
        ∃ f, fence = some f ∧ s.signaled f = false) ∨
      (g.bo ≠ b.id ∧ releaseGrant b.id fence g = g) := by
  by_cases hbo : g.bo = b.id
  · refine .inl ⟨hbo, ?_⟩
    obtain ⟨b', hb', hid, -, -, hreleased⟩ := h.grants g hg (inUse_of_releaseGrant huse)
    rw [h.eq_of_id hb' hb (hid.trans hbo), hfence, Option.map_none] at hreleased
    rw [releaseGrant, if_pos ⟨hbo, hreleased⟩] at huse ⊢
    refine ⟨rfl, ?_⟩
    cases fence with
    | none => exact huse.elim
    | some f => exact ⟨f, rfl, huse⟩
  · refine .inr ⟨hbo, ?_⟩
    rw [releaseGrant, if_neg fun hcond => hbo hcond.1]

/-- A suballocation that is freed without a fence to wait for is removed. -/
theorem Core.free_removed (h : Core cfg s) (hb : b ∈ s.olist) (hfence : b.fence = none)
    {fence : Option Fence} (hdone : ∀ f, fence = some f → s.signaled f = true) :
    Core cfg ({ s with grants := s.grants.map (releaseGrant b.id fence) }.removeLocked b.id) := by
  have hother : ∀ g ∈ s.grants, (releaseGrant b.id fence g).InUse s →
      g.bo ≠ b.id ∧ releaseGrant b.id fence g = g := by
    intro g hg huse
    obtain ⟨-, -, f, hf, hsig⟩ | hother := h.inUse_releaseGrant hb hfence hg huse
    · rw [hdone f hf] at hsig
      cases hsig
    · exact hother
  have hcore : Core cfg { s with grants := s.grants.map (releaseGrant b.id fence) } := by
    refine ⟨h.ids, h.range, h.sorted, h.hole, h.flist, ?_, ?_, ?_, ?_⟩
    · intro g' hg' huse
      obtain ⟨g, hg, rfl⟩ := List.mem_map.mp hg'
      rw [(hother g hg huse).2]
      exact h.grants g hg (inUse_of_releaseGrant huse)
    · refine List.pairwise_map.mpr (h.distinct.imp fun {g g'} hne huse huse' => ?_)
      rw [(releaseGrant_fields _ _ g).1, (releaseGrant_fields _ _ g').1]
      exact hne (inUse_of_releaseGrant huse) (inUse_of_releaseGrant huse')
    · intro g' hg'
      obtain ⟨g, hg, rfl⟩ := List.mem_map.mp hg'
      obtain ⟨-, hsoffset, -, halign⟩ := releaseGrant_fields b.id fence g
      rw [hsoffset, halign]
      exact h.aligned g hg
    · intro g' hg'
      obtain ⟨g, hg, rfl⟩ := List.mem_map.mp hg'
      obtain ⟨-, hsoffset, hsize, -⟩ := releaseGrant_fields b.id fence g
      rw [hsoffset, hsize]
      exact h.inside g hg
  refine hcore.removeLocked fun g' hg' huse => ?_
  obtain ⟨g, hg, rfl⟩ := List.mem_map.mp hg'
  rw [(hother g hg huse).2]
  exact (hother g hg huse).1

/-- A suballocation that is freed with a fence that has not signaled stays in the list, with it. -/
theorem Core.free_fenced (h : Core cfg s) (hb : b ∈ s.olist) (hfence : b.fence = none)
    (hsig : s.signaled f = false) : Core cfg (s.free b.id (some f)) := by
  have hfree : s.free b.id (some f) = { s with
      grants := s.grants.map (releaseGrant b.id (some f))
      olist := s.olist.map fun c => if c.id = b.id then { c with fence := some f } else c
      flist := Function.update s.flist (f.context % saNumFenceLists)
        (s.flist (f.context % saNumFenceLists) ++ [b.id]) } := by
    simp [SaState.free, hsig]
  rw [hfree]
  have hid : ∀ c : SaBo, (if c.id = b.id then { c with fence := some f } else c).id = c.id := by
    intro c
    split_ifs <;> rfl
  have hsoffset : ∀ c : SaBo,
      (if c.id = b.id then { c with fence := some f } else c).soffset = c.soffset := by
    intro c
    split_ifs <;> rfl
  have heoffset : ∀ c : SaBo,
      (if c.id = b.id then { c with fence := some f } else c).eoffset = c.eoffset := by
    intro c
    split_ifs <;> rfl
  have hmem : ∀ c ∈ s.olist, (if c.id = b.id then { c with fence := some f } else c) ∈
      s.olist.map fun c => if c.id = b.id then { c with fence := some f } else c :=
    fun c hc => List.mem_map_of_mem hc
  refine ⟨?_, ?_, ?_, ?_, ?_, ?_, ?_, ?_, ?_⟩
  · simpa only [List.map_map, Function.comp_def, hid] using h.ids
  · intro c' hc'
    obtain ⟨c, hc, rfl⟩ := List.mem_map.mp hc'
    rw [hsoffset, heoffset]
    exact h.range c hc
  · refine List.pairwise_map.mpr (h.sorted.imp fun {c c'} hle => ?_)
    rwa [hsoffset, heoffset]
  · intro bo hbo
    obtain ⟨c, hc, rfl⟩ := h.hole bo hbo
    exact ⟨_, hmem c hc, hid c⟩
  · intro i bo hbo
    have hcases : bo ∈ s.flist i ∨ bo = b.id := by
      simp only [Function.update_apply] at hbo
      split_ifs at hbo with hi
      · simpa [hi] using hbo
      · exact .inl hbo
    obtain hbo | rfl := hcases
    · obtain ⟨c, hc, rfl, hne⟩ := h.flist i bo hbo
      refine ⟨_, hmem c hc, hid c, ?_⟩
      split_ifs
      · exact Option.some_ne_none f
      · exact hne
    · refine ⟨_, hmem b hb, hid b, ?_⟩
      rw [if_pos rfl]
      exact Option.some_ne_none f
  · intro g' hg' huse
    obtain ⟨g, hg, rfl⟩ := List.mem_map.mp hg'
    obtain ⟨c, hc, hcid, hcs, hce, hcr⟩ := h.grants g hg (inUse_of_releaseGrant huse)
    obtain ⟨hgbo, hgs, hgsize, -⟩ := releaseGrant_fields b.id (some f) g
    refine ⟨_, hmem c hc, ?_⟩
    rw [hid, hsoffset, heoffset, hgbo, hgs, hgsize]
    refine ⟨hcid, hcs, hce, ?_⟩
    obtain ⟨hbo, hreleased, -⟩ | ⟨hbo, heq⟩ := h.inUse_releaseGrant hb hfence hg huse
    · rw [hreleased, if_pos (hcid.trans hbo), Option.map_some]
    · rw [heq, if_neg (hcid ▸ hbo), hcr]
  · refine List.pairwise_map.mpr (h.distinct.imp fun {g g'} hne huse huse' => ?_)
    rw [(releaseGrant_fields _ _ g).1, (releaseGrant_fields _ _ g').1]
    exact hne (inUse_of_releaseGrant huse) (inUse_of_releaseGrant huse')
  · intro g' hg'
    obtain ⟨g, hg, rfl⟩ := List.mem_map.mp hg'
    obtain ⟨-, hgs, -, halign⟩ := releaseGrant_fields b.id (some f) g
    rw [hgs, halign]
    exact h.aligned g hg
  · intro g' hg'
    obtain ⟨g, hg, rfl⟩ := List.mem_map.mp hg'
    obtain ⟨-, hgs, hgsize, -⟩ := releaseGrant_fields b.id (some f) g
    rw [hgs, hgsize]
    exact h.inside g hg

/-- **Freeing keeps the invariant.** -/
theorem Core.free (h : Core cfg s) (hb : b ∈ s.olist) (hfence : b.fence = none)
    (fence : Option Fence) : Core cfg (s.free b.id fence) ∧ (s.free b.id fence).pc = s.pc := by
  cases fence with
  | none => exact ⟨h.free_removed hb hfence fun _ hf => (Option.some_ne_none _ hf.symm).elim, rfl⟩
  | some f =>
    cases hsig : s.signaled f with
    | false =>
      refine ⟨h.free_fenced hb hfence hsig, ?_⟩
      simp [SaState.free, hsig]
    | true =>
      have hremove : s.free b.id (some f) =
          { s with grants := s.grants.map (releaseGrant b.id (some f)) }.removeLocked b.id := by
        simp [SaState.free, hsig]
      rw [hremove]
      have hdone : ∀ f', some f = some f' → s.signaled f' = true := by
        rintro _ ⟨⟩
        exact hsig
      exact ⟨h.free_removed hb hfence hdone, rfl⟩

/-! ## The next hole -/

/-- Where the thread is does not matter for the lists. -/
theorem Core.withPc (h : Core cfg s) (pc : SaPc) : Core cfg { s with pc := pc } :=
  ⟨h.ids, h.range, h.sorted, h.hole, h.flist, h.grants, h.distinct, h.aligned, h.inside⟩

/-- The hole may be put at any place of the list. -/
theorem Core.withHole (h : Core cfg s) {hole : Option ℕ}
    (hhole : ∀ bo, hole = some bo → ∃ b ∈ s.olist, b.id = bo) :
    Core cfg { s with hole := hole } :=
  ⟨h.ids, h.range, h.sorted, hhole, h.flist, h.grants, h.distinct, h.aligned, h.inside⟩

/-- A request that has passed the checks is still good for a part of the list. -/
theorem ReqOk.mono (h : ReqOk cfg s req) (hsub : ∀ b ∈ t.olist, b ∈ s.olist) : ReqOk cfg t req :=
  ⟨h.align_le, h.size_le, fun b hb => h.fresh b (hsub b hb)⟩

/-- A round over the fence lists uses no pointer to something that is not there, and what it finds
has signaled. -/
theorem Core.scanList (h : Core cfg s) (i : ℕ) {scan : SaScan}
    (hbest : ∀ bo, scan.bestBo = some bo →
      ∃ b ∈ s.olist, b.id = bo ∧ ∃ f, b.fence = some f ∧ s.signaled f = true) :
    ∃ scan', s.scanList cfg i scan = some scan' ∧ ∀ bo, scan'.bestBo = some bo →
      ∃ b ∈ s.olist, b.id = bo ∧ ∃ f, b.fence = some f ∧ s.signaled f = true := by
  unfold SaState.scanList
  cases hlist : s.flist i with
  | nil => exact ⟨scan, rfl, hbest⟩
  | cons bo rest =>
    obtain ⟨b, hb, rfl, hne⟩ := h.flist i bo (hlist ▸ List.mem_cons_self)
    obtain ⟨f, hfence⟩ := Option.ne_none_iff_exists'.mp hne
    simp only [h.find_eq hb, hfence]
    generalize unsignedSub _ _ = tmp
    split
    · exact ⟨scan, rfl, hbest⟩
    · rename_i hsig
      split
      · exact ⟨scan, rfl, hbest⟩
      · split
        · refine ⟨_, rfl, fun bo hbo => ?_⟩
          cases hbo
          exact ⟨b, hb, rfl, f, hfence, by simpa using hsig⟩
        · exact ⟨scan, rfl, hbest⟩

/-! ## Every run -/

/-- The lists are in order, and so is what the thread with the lock knows. -/
def Inv (cfg : SaConfig) (s : SaState) : Prop := Core cfg s ∧ PcOk cfg s

/-- What the thread knows stays true when a fence signals. -/
theorem PcOk.signal (h : PcOk cfg s) (f : Fence) :
    PcOk cfg { s with signaled := Function.update s.signaled f true } := by
  unfold PcOk at h ⊢
  cases hpc : s.pc with
  | unlocked => trivial
  | tryFree req tries | tryAlloc req tries | nextHole req tries =>
    simp only [hpc] at h ⊢
    exact h.mono fun b hb => hb
  | scan req i scan =>
    simp only [hpc] at h ⊢
    refine ⟨h.1.mono fun b hb => hb, fun bo hbo => ?_⟩
    obtain ⟨b, hb, hid, f', hfence, hsig⟩ := h.2 bo hbo
    refine ⟨b, hb, hid, f', hfence, ?_⟩
    simp only [Function.update_apply]
    split_ifs
    · rfl
    · exact hsig
  | fault => simp only [hpc] at h

/-- What a step of the thread with the lock can come to. -/
inductive Ran (cfg : SaConfig) (s : SaState) : SaState → Prop
  /-- a suballocation after the hole is removed -/
  | freed {req : SaRequest} {tries : ℕ → ℕ} {b : SaBo} {f : Fence} (hpc : s.pc = .tryFree req tries)
      (hb : b ∈ s.olist) (hfence : b.fence = some f) (hsig : s.signaled f = true) :
      Ran cfg s (s.removeLocked b.id)
  /-- there is no other one -/
  | kept {req : SaRequest} {tries : ℕ → ℕ} (hpc : s.pc = .tryFree req tries) :
      Ran cfg s { s with pc := .tryAlloc req tries }
  /-- there is room in the hole -/
  | room {req : SaRequest} {tries : ℕ → ℕ} {t : SaState} (hpc : s.pc = .tryAlloc req tries)
      (halloc : s.tryAlloc cfg req = some t) : Ran cfg s { t with pc := .unlocked }
  /-- there is no room -/
  | full {req : SaRequest} {tries : ℕ → ℕ} (hpc : s.pc = .tryAlloc req tries)
      (halloc : s.tryAlloc cfg req = none) : Ran cfg s { s with pc := .nextHole req tries }
  /-- the hole is put at the beginning -/
  | wrap {req : SaRequest} {tries : ℕ → ℕ} (hpc : s.pc = .nextHole req tries)
      (hend : s.afterHole = []) : Ran cfg s { s with hole := none, pc := .tryFree req tries }
  /-- the loop over the fence lists begins -/
  | first {req : SaRequest} {tries : ℕ → ℕ} {best : ℕ} (hpc : s.pc = .nextHole req tries) :
      Ran cfg s { s with pc := .scan req 0 ⟨tries, best, none⟩ }
  /-- it goes on -/
  | next {req : SaRequest} {i : ℕ} {scan scan' : SaScan} (hpc : s.pc = .scan req i scan)
      (hi : i < saNumFenceLists) (hscan : s.scanList cfg i scan = some scan') :
      Ran cfg s { s with pc := .scan req (i + 1) scan' }
  /-- a suballocation that was found is removed, and its place is the hole -/
  | found {req : SaRequest} {i : ℕ} {scan : SaScan} {b : SaBo} {f : Fence} {tries : ℕ → ℕ}
      (hpc : s.pc = .scan req i scan) (hi : saNumFenceLists ≤ i) (hbest : scan.bestBo = some b.id)
      (hb : b ∈ s.olist) (hfence : b.fence = some f) (hsig : s.signaled f = true) :
      Ran cfg s { { s with hole := s.prev b.id }.removeLocked b.id with pc := .tryFree req tries }
  /-- none was found, and the thread waits -/
  | waits {req : SaRequest} {i : ℕ} {scan : SaScan} (hpc : s.pc = .scan req i scan)
      (hi : saNumFenceLists ≤ i) (hbest : scan.bestBo = none) : Ran cfg s { s with pc := .unlocked }

/-- A round of `amdgpu_sa_bo_try_free` removes a suballocation whose fence has signaled. -/
theorem tryFree_eq (hfree : s.tryFree = some t) :
    ∃ b f, b ∈ s.olist ∧ b.fence = some f ∧ s.signaled f = true ∧ t = s.removeLocked b.id := by
  unfold SaState.tryFree at hfree
  split at hfree
  · cases hfree
  · rename_i b rest hafter
    have hmem : b ∈ s.afterHole := hafter ▸ List.mem_cons_self
    split at hfree
    · cases hfree
    · rename_i f hfence
      split_ifs at hfree with hsig
      exact ⟨b, f, List.mem_of_mem_drop hmem, hfence, hsig, (Option.some.inj hfree).symm⟩

/-- **What a step of the thread with the lock can come to.** -/
theorem Inv.run_cases (h : Inv cfg s) (hrun : s.run cfg = some t) : Ran cfg s t := by
  obtain ⟨hcore, hpcok⟩ := h
  unfold SaState.run at hrun
  unfold PcOk at hpcok
  cases hpc : s.pc with
  | unlocked => simp [hpc] at hrun
  | tryFree req tries =>
    simp only [hpc] at hrun
    cases hfree : s.tryFree with
    | some t' =>
      simp only [hfree, Option.some.injEq] at hrun
      obtain ⟨b, f, hb, hfence, hsig, rfl⟩ := tryFree_eq hfree
      exact hrun ▸ .freed hpc hb hfence hsig
    | none =>
      simp only [hfree, Option.some.injEq] at hrun
      exact hrun ▸ .kept hpc
  | tryAlloc req tries =>
    simp only [hpc] at hrun
    cases halloc : s.tryAlloc cfg req with
    | some t' =>
      simp only [halloc, Option.some.injEq] at hrun
      exact hrun ▸ .room hpc halloc
    | none =>
      simp only [halloc, Option.some.injEq] at hrun
      exact hrun ▸ .full hpc halloc
  | nextHole req tries =>
    simp only [hpc] at hrun
    split_ifs at hrun with hend
    · exact Option.some.inj hrun ▸ .wrap hpc hend
    · exact Option.some.inj hrun ▸ .first hpc
  | scan req i scan =>
    simp only [hpc] at hrun hpcok
    split_ifs at hrun with hi
    · obtain ⟨scan', hscan, -⟩ := hcore.scanList i hpcok.2
      simp only [hscan, Option.some.injEq] at hrun
      exact hrun ▸ .next hpc hi hscan
    · cases hbest : scan.bestBo with
      | some bo =>
        simp only [hbest, Option.some.injEq] at hrun
        obtain ⟨b, hb, rfl, f, hfence, hsig⟩ := hpcok.2 bo hbest
        simp only [SaState.nextHoleAt, hcore.find_eq hb, hfence] at hrun
        exact hrun ▸ .found hpc (by omega) hbest hb hfence hsig
      | none =>
        simp only [hbest, Option.some.injEq] at hrun
        exact hrun ▸ .waits hpc (by omega) hbest
  | fault => simp [hpc] at hrun

/-- A step of the thread with the lock keeps the invariant. -/
theorem Inv.run (h : Inv cfg s) (hrun : s.run cfg = some t) : Inv cfg t := by
  have hran := h.run_cases hrun
  obtain ⟨hcore, hpcok⟩ := h
  unfold PcOk at hpcok
  cases hran with
  | freed hpc hb hfence hsig =>
    simp only [hpc] at hpcok
    refine ⟨hcore.removeLocked (hcore.ne_of_signaled hb hfence hsig), ?_⟩
    simp only [PcOk, SaState.removeLocked, hpc]
    exact hpcok.mono fun b hb => List.mem_of_mem_filter hb
  | kept hpc | full hpc halloc =>
    simp only [hpc] at hpcok
    exact ⟨hcore.withPc _, hpcok.mono fun b hb => hb⟩
  | room hpc halloc =>
    simp only [hpc] at hpcok
    exact ⟨(hcore.tryAlloc hpcok halloc).withPc _, trivial⟩
  | wrap hpc hend =>
    simp only [hpc] at hpcok
    have hhole : Core cfg { s with hole := none } := hcore.withHole fun bo hbo => by cases hbo
    exact ⟨hhole.withPc _, hpcok.mono fun b hb => hb⟩
  | first hpc =>
    simp only [hpc] at hpcok
    exact ⟨hcore.withPc _, hpcok.mono fun b hb => hb, fun bo hbo => by cases hbo⟩
  | next hpc hi hscan =>
    simp only [hpc] at hpcok
    obtain ⟨scan'', hscan', hbest⟩ := hcore.scanList _ hpcok.2
    obtain rfl := Option.some.inj (hscan'.symm.trans hscan)
    exact ⟨hcore.withPc _, hpcok.1.mono fun b hb => hb, hbest⟩
  | @found req i scan b f tries hpc hi hbest hb hfence hsig =>
    simp only [hpc] at hpcok
    have hhole : Core cfg { s with hole := s.prev b.id } := hcore.withHole fun bo hbo => by
      obtain ⟨c, hc, hid, -⟩ := mem_of_prev hbo
      exact ⟨c, hc, hid⟩
    exact ⟨(hhole.removeLocked (hcore.ne_of_signaled hb hfence hsig)).withPc _,
      hpcok.1.mono fun c hc => List.mem_of_mem_filter hc⟩
  | waits hpc hi hbest => exact ⟨hcore.withPc _, trivial⟩

/-- **Every step keeps the invariant.** -/
theorem Inv.step (h : Inv cfg s) {op : SaOp} (hstep : s.step cfg op = some t) : Inv cfg t := by
  cases op with
  | signal f =>
    cases hstep
    exact ⟨h.1.signal f, h.2.signal f⟩
  | new req =>
    simp only [SaState.step] at hstep
    split at hstep
    · rename_i hpc hfind
      split_ifs at hstep with hinval
      · cases hstep
        exact h
      · cases hstep
        push Not at hinval
        refine ⟨h.1.withPc _, ⟨hinval.1, hinval.2, fun b hb hid => ?_⟩⟩
        simpa [hid] using List.find?_eq_none.mp hfind b hb
    · cases hstep
  | run => exact h.run hstep
  | free bo fence =>
    simp only [SaState.step] at hstep
    split at hstep
    · rename_i b hpc hfind
      split_ifs at hstep with hfence
      cases hstep
      obtain ⟨hb, rfl⟩ := mem_of_find hfind
      obtain ⟨hcore, hpc'⟩ := h.1.free hb hfence fence
      refine ⟨hcore, ?_⟩
      rw [PcOk, hpc', hpc]
      trivial
    · cases hstep

/-- Ranges in use belong to different suballocations in a sorted list, so they have nothing in
common. -/
theorem Inv.safe (h : Inv cfg s) : s.Safe cfg where
  disjoint := by
    refine h.1.distinct.imp_of_mem fun {g g'} hg hg' hne huse huse' => ?_
    obtain ⟨b, hb, hid, hs, he, -⟩ := h.1.grants g hg huse
    obtain ⟨b', hb', hid', hs', he', -⟩ := h.1.grants g' hg' huse'
    have hbne : b ≠ b' := fun heq => hne huse huse' (by rw [← hid, ← hid', heq])
    have hor : s.olist.Pairwise fun c c' => c.eoffset ≤ c'.soffset ∨ c'.eoffset ≤ c.soffset :=
      h.1.sorted.imp .inl
    have hsymm : Std.Symm fun c c' : SaBo => c.eoffset ≤ c'.soffset ∨ c'.eoffset ≤ c.soffset :=
      ⟨fun _ _ hcc => hcc.symm⟩
    rw [← he, ← he', ← hs, ← hs']
    exact hor.forall hb hb' hbne
  aligned := h.1.aligned
  inside := h.1.inside
  sorted := h.1.sorted
  hole := h.1.hole
  no_fault hfault := by
    have hpcok := h.2
    simp only [PcOk, hfault] at hpcok

end SaState

/-- **No range is given away twice.** In every run, whenever the fences signal, the ranges that may
still be used are disjoint, aligned as asked for and inside of the manager; the list is sorted and
the hole is a place in it. -/
theorem sa_safe (cfg : SaConfig) {ops : List SaOp} {s : SaState}
    (hrun : Run (fun s op t => s.step cfg op = some t) .init ops s) : s.Safe cfg := by
  have hinv : s.Inv cfg :=
    hrun.invariant (SaState.Inv cfg) (fun _ _ _ h hstep => SaState.Inv.step h hstep)
      ⟨SaState.Core.init, trivial⟩
  exact hinv.safe

/-- A range of the whole manager is given away, freed with a fence, and given away again once the
fence has signaled and the hole has been moved to the beginning. -/
theorem sa_safe_ringTmpBo : ∃ s, List.foldlM (SaState.step .ringTmpBo) .init
    [.new ⟨0, 1048576, 256, by decide⟩, .run, .run, .free 0 (some ⟨7, 1⟩), .signal ⟨7, 1⟩,
      .new ⟨1, 1048576, 256, by decide⟩, .run, .run, .run, .run, .run, .run] = some s ∧
    s.grants.map (fun g => (g.bo, g.soffset)) = [(1, 0), (0, 0)] ∧ s.Safe .ringTmpBo := by
  have heval : (List.foldlM (SaState.step .ringTmpBo) .init
      [.new ⟨0, 1048576, 256, by decide⟩, .run, .run, .free 0 (some ⟨7, 1⟩), .signal ⟨7, 1⟩,
        .new ⟨1, 1048576, 256, by decide⟩, .run, .run, .run, .run, .run, .run]).map
      (fun s => s.grants.map fun g => (g.bo, g.soffset)) = some [(1, 0), (0, 0)] := by
    decide
  obtain ⟨s, hs, hgrants⟩ := Option.map_eq_some_iff.mp heval
  exact ⟨s, hs, hgrants, sa_safe _ (.of_eval hs)⟩

end Amdgpu
