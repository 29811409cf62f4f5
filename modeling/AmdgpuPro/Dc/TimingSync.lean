import AmdgpuPro.Dc.Context
import AmdgpuPro.Lib.Grouping

set_option autoImplicit false

/-!
# Synchronizing the timings of pipes

`program_timing_sync` puts the head pipes of a context into groups whose streams have the same
timing, and tells the hardware to synchronize each group of more than one pipe. The first pipe that
is in no group starts a group, and the later ones are compared with it only. A pipe that is running
already, that is, not blanked, becomes the first pipe of its group, and other running pipes are
removed.

Two streams of which one is a DisplayPort stream may be synchronized with different pixel clocks of
the link, but two others may not, so a DisplayPort stream can be synchronized with streams that can
not be synchronized with each other.

## Main definitions

* `Dc.setMaster`, `pipeSet` — a group after the pipes were reordered and removed.

## Main results

* `Dc.Board.synchronizable_transitive_iff` — when the relation is transitive.
* `ValidateContext.programTimingSync_iff` — when the groups are as they should be.
* `ValidateContext.programTimingSync_mixed` — a group of pipes that can not be synchronized.

## Design

The array of pipes that are in no group yet is a list: a pipe whose pointer is set to `NULL` is
removed from it. Whether a timing generator is blanked is read from the hardware, and does not
change in between.
-/

namespace Dc

variable {α : Type}

/-! ## The pipes of a group -/

/-- The first loop over a group: the first running pipe is exchanged with the first one. The index
at which the loop ends is returned too. -/
def setMaster (running : α → Bool) (set : List α) : List α × ℕ :=
  match set.findIdx? running with
  | none => (set, set.length)
  | some j =>
    match set[0]?, set[j]? with
    | some x, some y => ((set.set 0 y).set j x, j)
    | _, _ => (set, j)

/-- The two loops over a group: the master is set, and other running pipes are removed. -/
def pipeSet (running : α → Bool) (set : List α) : List α :=
  let master := setMaster running set
  Grouping.compact running set.length (master.2 + 1) master.1

theorem setMaster_eq {running : α → Bool} {set : List α} {j : ℕ} {x y : α}
    (hj : set.findIdx? running = some j) (hx : set[0]? = some x) (hy : set[j]? = some y) :
    setMaster running set = ((set.set 0 y).set j x, j) := by
  rw [setMaster, hj]
  simp only [hx, hy]

/-- A group without running pipes is passed as it is. -/
theorem pipeSet_of_blanked {running : α → Bool} {set : List α}
    (h : ∀ x ∈ set, running x = false) : pipeSet running set = set := by
  have hmaster : setMaster running set = (set, set.length) := by
    rw [setMaster, List.findIdx?_eq_none_iff.mpr h]
  rw [pipeSet, hmaster]
  exact Grouping.compact_of_length_le running (Nat.le_succ _)

/-- A group with a running pipe is passed with the first one in front of those that are blanked. -/
theorem pipeSet_of_running {running : α → Bool} {before after : List α} {m : α}
    (hbefore : ∀ x ∈ before, running x = false) (hm : running m = true) :
    ∃ t, pipeSet running (before ++ m :: after) = m :: t ∧
      t.Perm ((before ++ m :: after).filter fun x => !running x) := by
  have hfilter : (before ++ m :: after).filter (fun x => !running x) =
      before ++ after.filter fun x => !running x := by
    rw [List.filter_append, List.filter_cons_of_neg (by simp [hm]), List.filter_eq_self.mpr]
    exact fun x hx => by rw [hbefore x hx, Bool.not_false]
  have hfind : (before ++ m :: after).findIdx? running = some before.length := by
    rw [List.findIdx?_append, List.findIdx?_eq_none_iff.mpr hbefore, List.findIdx?_cons, hm]
    simp
  have hget : (before ++ m :: after)[before.length]? = some m := by simp
  have hlen : after.length ≤ (before ++ m :: after).length := by
    rw [List.length_append, List.length_cons]
    omega
  rw [hfilter]
  cases before with
  | nil =>
    obtain ⟨t, ht, hperm⟩ := Grouping.compact_perm running [m] after hlen
    refine ⟨t, ?_, hperm⟩
    rw [pipeSet, setMaster_eq hfind rfl hget]
    exact ht
  | cons x before =>
    obtain ⟨t, ht, hperm⟩ := Grouping.compact_perm running (m :: before ++ [x]) after hlen
    refine ⟨before ++ x :: t, ?_, ?_⟩
    · have hswap : ((x :: before ++ m :: after).set 0 m).set (x :: before).length x =
          (m :: before ++ [x]) ++ after := by
        simp
      rw [pipeSet, setMaster_eq hfind rfl hget, hswap]
      simpa using ht
    · exact (List.perm_middle.trans ((hperm.append_left before).cons x))

/-- **What a group is passed as**: the first running pipe, if there is one, and then the pipes that
are blanked. -/
theorem pipeSet_spec (running : α → Bool) (set : List α) :
    (set.find? running = none ∧ pipeSet running set = set) ∨
      ∃ m t, set.find? running = some m ∧ pipeSet running set = m :: t ∧
        t.Perm (set.filter fun x => !running x) := by
  cases h : set.find? running with
  | none =>
    refine .inl ⟨rfl, pipeSet_of_blanked fun x hx => ?_⟩
    exact Bool.eq_false_iff.mpr (List.find?_eq_none.mp h x hx)
  | some m =>
    obtain ⟨hm, before, after, rfl, hbefore⟩ := List.find?_eq_some_iff_append.mp h
    obtain ⟨t, ht, hperm⟩ := pipeSet_of_running
      (fun x hx => by simpa using hbefore x hx) hm
    exact .inr ⟨m, t, rfl, ht, hperm⟩

/-! ## Synchronizable streams -/

namespace Board

variable (b : Board)

/-- The members of the timings that have to be the same. -/
def sameTiming (x y : ℕ) : Prop :=
  (b.stream x).timing.hTotal = (b.stream y).timing.hTotal ∧
    (b.stream x).timing.vTotal = (b.stream y).timing.vTotal ∧
    (b.stream x).timing.hAddressable = (b.stream y).timing.hAddressable ∧
    (b.stream x).timing.vAddressable = (b.stream y).timing.vAddressable ∧
    (b.stream x).timing.pixClkKhz = (b.stream y).timing.pixClkKhz

variable {b} {x y z : ℕ}

theorem sameTiming.symm (h : b.sameTiming x y) : b.sameTiming y x :=
  ⟨h.1.symm, h.2.1.symm, h.2.2.1.symm, h.2.2.2.1.symm, h.2.2.2.2.symm⟩

theorem sameTiming.trans (h : b.sameTiming x y) (h' : b.sameTiming y z) : b.sameTiming x z :=
  ⟨h.1.trans h'.1, h.2.1.trans h'.2.1, h.2.2.1.trans h'.2.2.1, h.2.2.2.1.trans h'.2.2.2.1,
    h.2.2.2.2.trans h'.2.2.2.2⟩

theorem synchronizable_iff : b.areStreamsTimingSynchronizable x y = true ↔ b.sameTiming x y ∧
    (b.phyPixClk x = b.phyPixClk y ∨ (b.signal x).isDp = true ∨ (b.signal y).isDp = true) := by
  simp only [areStreamsTimingSynchronizable, sameTiming, Bool.and_eq_true, decide_eq_true_eq,
    Bool.not_eq_true', Bool.and_eq_false_iff, decide_eq_false_iff_not, not_not, Bool.not_eq_false',
    and_assoc, or_assoc]

theorem synchronizable_refl (x : ℕ) : b.areStreamsTimingSynchronizable x x = true :=
  synchronizable_iff.mpr ⟨⟨rfl, rfl, rfl, rfl, rfl⟩, .inl rfl⟩

theorem synchronizable_symm (h : b.areStreamsTimingSynchronizable x y = true) :
    b.areStreamsTimingSynchronizable y x = true := by
  obtain ⟨htiming, hclk⟩ := synchronizable_iff.mp h
  refine synchronizable_iff.mpr ⟨htiming.symm, ?_⟩
  rcases hclk with hclk | hx | hy
  · exact .inl hclk.symm
  · exact .inr (.inr hx)
  · exact .inr (.inl hy)

/-- **When the relation is transitive** on some streams: no DisplayPort stream has the timing of two
other streams whose pixel clocks differ. -/
theorem synchronizable_transitive_iff (streams : List ℕ) :
    (∀ x ∈ streams, ∀ y ∈ streams, ∀ z ∈ streams, b.areStreamsTimingSynchronizable x y = true →
        b.areStreamsTimingSynchronizable y z = true →
          b.areStreamsTimingSynchronizable x z = true) ↔
      ¬ ∃ d ∈ streams, ∃ x ∈ streams, ∃ z ∈ streams, (b.signal d).isDp = true ∧
        (b.signal x).isDp = false ∧ (b.signal z).isDp = false ∧
        b.sameTiming d x ∧ b.sameTiming d z ∧ b.phyPixClk x ≠ b.phyPixClk z := by
  constructor
  · rintro h ⟨d, hd, x, hx, z, hz, hdp, hxdp, hzdp, hdx, hdz, hne⟩
    have hxd : b.areStreamsTimingSynchronizable x d = true :=
      synchronizable_iff.mpr ⟨hdx.symm, .inr (.inr hdp)⟩
    have hdz : b.areStreamsTimingSynchronizable d z = true :=
      synchronizable_iff.mpr ⟨hdz, .inr (.inl hdp)⟩
    obtain ⟨-, hclk | hdp | hdp⟩ := synchronizable_iff.mp (h x hx d hd z hz hxd hdz)
    · exact hne hclk
    · rw [hxdp] at hdp
      cases hdp
    · rw [hzdp] at hdp
      cases hdp
  · intro h x hx y hy z hz hxy hyz
    obtain ⟨htxy, hxy⟩ := synchronizable_iff.mp hxy
    obtain ⟨htyz, hyz⟩ := synchronizable_iff.mp hyz
    refine synchronizable_iff.mpr ⟨htxy.trans htyz, ?_⟩
    by_contra hnot
    obtain ⟨hne, hxdp, hzdp⟩ : b.phyPixClk x ≠ b.phyPixClk z ∧ (b.signal x).isDp = false ∧
        (b.signal z).isDp = false := by
      simpa only [not_or, Bool.not_eq_true] using hnot
    rw [hxdp] at hxy
    rw [hzdp] at hyz
    by_cases hdp : (b.signal y).isDp = true
    · exact h ⟨y, hy, x, hx, z, hz, hdp, hxdp, hzdp, htxy.symm, htyz, hne⟩
    · have hxy' : b.phyPixClk x = b.phyPixClk y := by simpa [hdp] using hxy
      have hyz' : b.phyPixClk y = b.phyPixClk z := by simpa [hdp] using hyz
      exact hne (hxy'.trans hyz')

end Board

/-! ## The groups of a context -/

namespace ValidateContext

variable (b : Board) (ctx : ValidateContext)

/-- The first loop of `program_timing_sync`: the pipes with a stream and without a top pipe. -/
def unsyncedPipes : List ℕ :=
  (List.range b.pool.pipeCount).filter fun i =>
    (ctx.pipes i).stream.isSome && (ctx.pipes i).topPipe.isNone

/-- Two pipes have streams that can be synchronized. -/
def pipesSynchronizable (i j : ℕ) : Bool :=
  match (ctx.pipes i).stream, (ctx.pipes j).stream with
  | some x, some y => b.areStreamsTimingSynchronizable x y
  | _, _ => false

/-- The groups that are formed. -/
def timingGroups : List (List ℕ) :=
  Grouping.groups (ctx.pipesSynchronizable b) b.pool.pipeCount (ctx.unsyncedPipes b)

/-- `program_timing_sync`: the groups that are passed to `enable_timing_synchronization`, with their
index. `running` says of which pipes the timing generator is not blanked. -/
def programTimingSync (running : ℕ → Bool) : List (List ℕ × ℕ) :=
  (((ctx.timingGroups b).map (pipeSet running)).filter fun set => 1 < set.length).zipIdx

/-- What the groups should be. -/
structure TimingSynced (running : ℕ → Bool) : Prop where
  /-- no pipe is in two groups -/
  disjoint : (ctx.timingGroups b).Pairwise List.Disjoint
  /-- the pipes of a group can be synchronized with each other -/
  pairwise : ∀ g ∈ ctx.timingGroups b, ∀ i ∈ g, ∀ j ∈ g, ctx.pipesSynchronizable b i j = true
  /-- what can be synchronized with a pipe of a group is passed with it, but for running pipes
  other than the first -/
  complete : ∀ g ∈ ctx.timingGroups b, ∀ i ∈ g, ∀ j ∈ ctx.unsyncedPipes b,
    ctx.pipesSynchronizable b j i = true →
      j ∈ g ∧ (j ∈ pipeSet running g ∨ running j = true ∧ g.find? running ≠ some j)
  /-- a running pipe is the first one -/
  master : ∀ g ∈ ctx.timingGroups b, ∀ i ∈ pipeSet running g, running i = true →
    (pipeSet running g).head? = some i
  /-- only groups of more than one pipe are passed -/
  passed : ∀ set k, (set, k) ∈ ctx.programTimingSync b running →
    1 < set.length ∧ ∃ g ∈ ctx.timingGroups b, set = pipeSet running g

/-- The streams of the head pipes. -/
def headStreams : List ℕ := (ctx.unsyncedPipes b).filterMap fun i => (ctx.pipes i).stream

variable {b ctx} {running : ℕ → Bool} {g : List ℕ} {i j : ℕ}

/-- A head pipe has a stream. -/
theorem stream_of_mem (hi : i ∈ ctx.unsyncedPipes b) :
    ∃ x ∈ ctx.headStreams b, (ctx.pipes i).stream = some x := by
  have hsome := (List.mem_filter.mp hi).2
  rw [Bool.and_eq_true, Option.isSome_iff_exists] at hsome
  obtain ⟨⟨x, hx⟩, -⟩ := hsome
  exact ⟨x, List.mem_filterMap.mpr ⟨i, hi, hx⟩, hx⟩

theorem pipesSynchronizable_eq {x y : ℕ} (hi : (ctx.pipes i).stream = some x)
    (hj : (ctx.pipes j).stream = some y) :
    ctx.pipesSynchronizable b i j = b.areStreamsTimingSynchronizable x y := by
  rw [pipesSynchronizable, hi, hj]

theorem pipesSynchronizable_symm (h : ctx.pipesSynchronizable b i j = true) :
    ctx.pipesSynchronizable b j i = true := by
  cases hi : (ctx.pipes i).stream with
  | none =>
    rw [pipesSynchronizable, hi] at h
    cases h
  | some x =>
    cases hj : (ctx.pipes j).stream with
    | none =>
      rw [pipesSynchronizable, hi, hj] at h
      cases h
    | some y =>
      rw [pipesSynchronizable_eq hi hj] at h
      rw [pipesSynchronizable_eq hj hi]
      exact Board.synchronizable_symm h

/-- The relation is transitive on pipes if it is on their streams. -/
theorem pipesSynchronizable_transitive_iff :
    (∀ i ∈ ctx.unsyncedPipes b, ∀ j ∈ ctx.unsyncedPipes b, ∀ k ∈ ctx.unsyncedPipes b,
        ctx.pipesSynchronizable b i j = true → ctx.pipesSynchronizable b j k = true →
          ctx.pipesSynchronizable b i k = true) ↔
      ∀ x ∈ ctx.headStreams b, ∀ y ∈ ctx.headStreams b, ∀ z ∈ ctx.headStreams b,
        b.areStreamsTimingSynchronizable x y = true →
          b.areStreamsTimingSynchronizable y z = true →
            b.areStreamsTimingSynchronizable x z = true := by
  constructor
  · intro h x hx y hy z hz hxy hyz
    obtain ⟨i, hi, hix⟩ := List.mem_filterMap.mp hx
    obtain ⟨j, hj, hjy⟩ := List.mem_filterMap.mp hy
    obtain ⟨k, hk, hkz⟩ := List.mem_filterMap.mp hz
    rw [← pipesSynchronizable_eq hix hjy] at hxy
    rw [← pipesSynchronizable_eq hjy hkz] at hyz
    rw [← pipesSynchronizable_eq hix hkz]
    exact h i hi j hj k hk hxy hyz
  · intro h i hi j hj k hk hij hjk
    obtain ⟨x, hx, hix⟩ := stream_of_mem hi
    obtain ⟨y, hy, hjy⟩ := stream_of_mem hj
    obtain ⟨z, hz, hkz⟩ := stream_of_mem hk
    rw [pipesSynchronizable_eq hix hjy] at hij
    rw [pipesSynchronizable_eq hjy hkz] at hjk
    rw [pipesSynchronizable_eq hix hkz]
    exact h x hx y hy z hz hij hjk

/-- A pipe of a group is passed with it, unless it is running and not the first one that is. -/
theorem mem_pipeSet (hj : j ∈ g) :
    j ∈ pipeSet running g ∨ running j = true ∧ g.find? running ≠ some j := by
  rcases pipeSet_spec running g with ⟨-, hset⟩ | ⟨m, t, hfind, hset, hperm⟩
  · rw [hset]
    exact .inl hj
  · rw [hset, hfind]
    by_cases hrun : running j = true
    · by_cases hm : m = j
      · exact .inl (List.mem_cons.mpr (.inl hm.symm))
      · exact .inr ⟨hrun, fun h => hm (Option.some.inj h)⟩
    · have hblanked : j ∈ g.filter fun x => !running x :=
        List.mem_filter.mpr ⟨hj, by simpa using hrun⟩
      exact .inl (List.mem_cons_of_mem _ (hperm.symm.subset hblanked))

/-- A running pipe that is passed is the first one. -/
theorem head_pipeSet (hi : i ∈ pipeSet running g) (hrun : running i = true) :
    (pipeSet running g).head? = some i := by
  rcases pipeSet_spec running g with ⟨hfind, hset⟩ | ⟨m, t, -, hset, hperm⟩
  · rw [hset] at hi
    exact absurd hrun (List.find?_eq_none.mp hfind i hi)
  · rw [hset] at hi ⊢
    rcases List.mem_cons.mp hi with rfl | hi
    · rfl
    · have hblanked := (List.mem_filter.mp (hperm.subset hi)).2
      rw [hrun] at hblanked
      cases hblanked

variable (b ctx running)

/-- **When the groups are as they should be**: exactly when no DisplayPort stream of a head pipe has
the timing of two other streams of head pipes whose pixel clocks of the link differ. -/
theorem programTimingSync_iff : ctx.TimingSynced b running ↔
    ¬ ∃ d ∈ ctx.headStreams b, ∃ x ∈ ctx.headStreams b, ∃ z ∈ ctx.headStreams b,
      (b.signal d).isDp = true ∧ (b.signal x).isDp = false ∧ (b.signal z).isDp = false ∧
        b.sameTiming d x ∧ b.sameTiming d z ∧ b.phyPixClk x ≠ b.phyPixClk z := by
  have hlen : (ctx.unsyncedPipes b).length ≤ b.pool.pipeCount :=
    (List.length_filter_le _ _).trans_eq List.length_range
  have hrefl : ∀ i ∈ ctx.unsyncedPipes b, ctx.pipesSynchronizable b i i = true := by
    intro i hi
    obtain ⟨x, -, hx⟩ := stream_of_mem hi
    rw [pipesSynchronizable_eq hx hx]
    exact Board.synchronizable_refl x
  rw [← Board.synchronizable_transitive_iff, ← pipesSynchronizable_transitive_iff,
    ← Grouping.groups_classes_iff hlen hrefl fun _ _ => pipesSynchronizable_symm]
  constructor
  · intro h g hg
    exact ⟨h.pairwise g hg, fun i hi j hj hji => (h.complete g hg i hi j hj hji).1⟩
  · intro h
    refine ⟨?_, fun g hg => (h g hg).1, fun g hg i hi j hj hji => ?_, fun g hg i => head_pipeSet,
      fun set k hset => ?_⟩
    · exact Grouping.groups_disjoint hlen (List.nodup_range.filter _)
    · have hmem := (h g hg).2 i hi j hj hji
      exact ⟨hmem, mem_pipeSet hmem⟩
    · have hset := List.fst_mem_of_mem_zipIdx hset
      obtain ⟨hset, hsize⟩ := List.mem_filter.mp hset
      obtain ⟨g, hg, rfl⟩ := List.mem_map.mp hset
      exact ⟨by simpa using hsize, g, hg, rfl⟩

end ValidateContext

/-- A DisplayPort monitor and two HDMI monitors with the same timing; the third one is driven with
ten bits per colour. -/
def mixedBoard : Board where
  pool := dce110Pool
  engine := fun e => e
  sink := fun s =>
    if s = 0 then ⟨.displayPort, false, .displayPort, s⟩ else ⟨.hdmiTypeA, false, .hdmiTypeA, s⟩
  stream := fun s =>
    ⟨s, 0, ⟨2200, 1125, 1920, 1080, 148500, if s = 2 then .depth101010 else .depth888, .rgb, 0⟩, 1⟩
  target := fun t => t

/-- Each of the three monitors has a pipe. -/
def mixedContext : ValidateContext :=
  { ValidateContext.new [0, 1, 2] with
    pipes := fun i =>
      if i < 3 then { PipeCtx.zero with stream := some i, pipeIdx := i } else .zero }

/-- **A group that can not be synchronized.** The DisplayPort pipe is the first one, so both HDMI
pipes join its group, which is passed to the hardware with pixel clocks of 148.5 and 185.625 MHz. -/
theorem ValidateContext.programTimingSync_mixed :
    mixedContext.programTimingSync mixedBoard (fun _ => false) = [([0, 1, 2], 0)] ∧
      mixedContext.pipesSynchronizable mixedBoard 1 2 = false := by
  decide

end Dc
