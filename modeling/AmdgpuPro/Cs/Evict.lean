import AmdgpuPro.Cs.Validate
import AmdgpuPro.Lib.Transition

set_option autoImplicit false

/-!
# Evictions during the validation of a list

If there is no memory for a buffer object, `amdgpu_cs_validate` evicts another one of the submission
and tries again. The cursor `p->evictable` goes back through the list; an entry that was evicted is
put to the front, where the cursor will come to it again. But then it is in no domain of the buffer
object any more, so it is not evicted twice.

While `amdgpu_cs_list_validate` goes forward, the cursor for evictions can come to the entry that is
validated, and stay there when this succeeds. For the next entries it is then behind the loop, among
entries that were validated.

## Main definitions

* `Amdgpu.CsRetry` — a round of the loop of `amdgpu_cs_validate` that ends with an eviction.
* `ValidateState.Threatened` — the next eviction hits an entry that was validated.
* `ValidateState.Walked` — the list while the loop goes over it.

## Main results

* `Amdgpu.csValidate_retries` — the loop ends, evicts an entry once, and the cursor is on the list.
* `csListValidate_evicts_iff` — when no entry that was validated is evicted.
-/

namespace Amdgpu

open Transition

section Evict

variable {env : ValidateEnv} {other : Option (List ℕ)} {lobj bo candidate : ℕ}
  {p q r : ValidateState}

/-- There is no memory for the buffer object of `lobj`, and `candidate` is evicted. -/
def CsRetry (env : ValidateEnv) (lobj : ℕ) (p : ValidateState) (candidate : ℕ)
    (q : ValidateState) : Prop :=
  ∃ p₁, csBoValidate env (env.robj lobj) p = some (p₁, some .ENOMEM) ∧
    csTryEvict env (env.robj lobj) p₁ = some (q, true) ∧ q.validated.head? = some candidate

/-- The buffer object of an entry is in a domain the validated one may be in. -/
def ValidateState.InTheWay (env : ValidateEnv) (p : ValidateState) (bo e : ℕ) : Prop :=
  env.robj e ≠ bo ∧ memTypeToDomain (p.memType (env.robj e)) &&& (env.bo bo).allowedDomains ≠ 0

/-- An entry can be evicted for a buffer object: it is in the way, and may be somewhere else. -/
def ValidateState.MayEvict (env : ValidateEnv) (p : ValidateState) (bo e : ℕ) : Prop :=
  p.InTheWay env bo e ∧
    (env.bo (env.robj e)).allowedDomains &&& ~~~(env.bo bo).allowedDomains ≠ 0

/-! ## One eviction -/

/-- Only the buffer object that is validated is moved. -/
theorem ttmBoValidate_memType {domain : BitVec 32} {e : Option Errno}
    (h : ttmBoValidate env bo domain p = some (q, e)) : (∀ b ≠ bo, q.memType b = p.memType b) ∧
      (e = none → q.memType bo ∈ placementFromDomain env.directGma domain) := by
  rw [ttmBoValidate] at h
  split at h
  · cases h
  · dsimp only at h
    split at h
    · cases h
      exact ⟨fun _ _ => rfl, fun h => (by cases h)⟩
    · split_ifs at h with ht
      cases h
      exact ⟨fun b hb => Function.update_of_ne hb _ _, fun _ => by simpa using ht⟩

/-- A validation moves one buffer object only. -/
theorem csBoValidate_frame {e : Option Errno} (h : csBoValidate env bo p = some (q, e)) :
    q.validated = p.validated ∧ q.evictable = p.evictable ∧
      ∀ b ≠ bo, q.memType b = p.memType b := by
  have htrans : ∀ {p q domain e}, ttmBoValidate env bo domain p = some (q, e) →
      q.validated = p.validated ∧ q.evictable = p.evictable ∧ ∀ b ≠ bo, q.memType b = p.memType b :=
    fun h => ⟨(ttmBoValidate_spec h).1, (ttmBoValidate_spec h).2.1, (ttmBoValidate_memType h).1⟩
  rw [csBoValidate] at h
  split_ifs at h
  · cases h
    exact ⟨rfl, rfl, fun _ _ => rfl⟩
  all_goals
    dsimp only at h
    split at h
    · cases h
    · next p₁ r hfirst =>
      obtain ⟨hv₁, he₁, hm₁⟩ := htrans hfirst
      split_ifs at h
      · obtain ⟨hv₂, he₂, hm₂⟩ := htrans h
        exact ⟨hv₂.trans hv₁, he₂.trans he₁, fun b hb => (hm₂ b hb).trans (hm₁ b hb)⟩
      · cases h
        exact ⟨hv₁, he₁, hm₁⟩

/-- The first candidate that can be evicted is evicted, and is not in the way any more. -/
theorem csTryEvictLoop_evicts {candidates : List ℕ}
    (h : csTryEvictLoop env bo candidates p = some (q, true)) :
    ∃ seg c rest, candidates = seg ++ c :: rest ∧
      (∀ x ∈ seg, env.robj x ≠ bo ∧ ¬ p.MayEvict env bo x) ∧ p.MayEvict env bo c ∧
      q.evictable = .prev rest ∧ q.validated = c :: p.validated.erase c ∧
      ¬ q.InTheWay env bo c ∧ ∀ b ≠ env.robj c, q.memType b = p.memType b := by
  induction candidates generalizing p with
  | nil => cases h
  | cons c rest ih =>
    rw [csTryEvictLoop] at h
    dsimp only at h
    split_ifs at h with hsame hdomain hother
    · cases h
    · obtain ⟨seg, c', rest', rfl, hseg, hc'⟩ := ih h
      have hc : ¬ p.MayEvict env bo c := fun hmay => hmay.1.2 hdomain
      exact ⟨c :: seg, c', rest', rfl, List.forall_mem_cons.mpr ⟨⟨hsame, hc⟩, hseg⟩, hc'⟩
    · obtain ⟨seg, c', rest', rfl, hseg, hc'⟩ := ih h
      have hc : ¬ p.MayEvict env bo c := fun hmay => hmay.2 hother
      exact ⟨c :: seg, c', rest', rfl, List.forall_mem_cons.mpr ⟨⟨hsame, hc⟩, hseg⟩, hc'⟩
    split at h
    · cases h
    · cases h
    · next p₁ hres =>
      cases h
      obtain ⟨hframe, htype⟩ := ttmBoValidate_memType hres
      refine ⟨[], c, rest, rfl, by simp, ⟨⟨hsame, hdomain⟩, hother⟩, rfl, ?_, fun hway => hway.2 ?_,
        hframe⟩
      · rw [(ttmBoValidate_spec hres).1]
      · -- the new memory type is in a domain that the buffer object may not be in
        have hand := env.and_of_placement (b := env.robj c) hother
          (fun i hi => by simp at hi; exact hi.1) (htype rfl)
        obtain ⟨i, hi⟩ := exists_memTypeToDomain_eq (p₁.memType (env.robj c))
        rw [hi] at hand
        have hbit := Bitmap.and_twoPow_ne_zero.mp hand
        rw [hi, BitVec.and_comm]
        by_contra hne
        have hbit' := Bitmap.and_twoPow_ne_zero.mp hne
        simp [hbit'] at hbit

/-- **One retry**: the candidate is an entry that was in the way, and is not any more; and nothing
else comes into the way. -/
theorem CsRetry.spec (hlinked : p.Linked other) (h : CsRetry env lobj p candidate q) :
    candidate ∈ p.validated ∧ p.InTheWay env (env.robj lobj) candidate ∧
      ¬ q.InTheWay env (env.robj lobj) candidate ∧
      q.validated = candidate :: p.validated.erase candidate ∧
      ∀ e, q.InTheWay env (env.robj lobj) e → p.InTheWay env (env.robj lobj) e := by
  obtain ⟨p₁, hbo, hevict, hhead⟩ := h
  obtain ⟨hvalidated, hevictable, hmem⟩ := csBoValidate_frame hbo
  rw [csTryEvict] at hevict
  split at hevict
  · next e he =>
    obtain ⟨seg, c, rest, hsplit, -, ⟨hway, -⟩, -, hq, hnot, hframe⟩ :=
      csTryEvictLoop_evicts hevict
    have hc : c ∈ e :: (p₁.validated.takeWhile (· ≠ e)).reverse := by
      rw [hsplit]
      simp
    rw [hvalidated] at hq
    obtain rfl : c = candidate := by simpa [hq] using hhead
    have hback : ∀ e, p₁.InTheWay env (env.robj lobj) e → p.InTheWay env (env.robj lobj) e :=
      fun e hway => ⟨hway.1, hmem _ hway.1 ▸ hway.2⟩
    have hcmem : c ∈ p.validated := by
      rcases List.mem_cons.mp hc with rfl | hc
      · exact hlinked.evictable c (hevictable ▸ he)
      · exact hvalidated ▸ (List.takeWhile_sublist _).mem (List.mem_reverse.mp hc)
    refine ⟨hcmem, hback c hway, hnot, hq, fun e hway' => hback e ?_⟩
    by_cases heq : env.robj e = env.robj c
    · exact absurd ⟨heq ▸ hway'.1, heq ▸ hway'.2⟩ hnot
    · exact ⟨hway'.1, hframe _ heq ▸ hway'.2⟩
  · cases hevict

/-! ## The loop of `amdgpu_cs_validate` -/

/-- A retry keeps the lists linked. -/
theorem CsRetry.keeps (h : CsRetry env lobj p candidate q) : CsKeeps env other lobj p q := by
  obtain ⟨p₁, hbo, hevict, -⟩ := h
  exact (csBoValidate_keeps hbo).1.trans (csTryEvict_keeps hevict)

open Classical in
/-- A retry has one entry less in the way. -/
theorem CsRetry.countP_lt (hlinked : p.Linked other) (h : CsRetry env lobj p candidate q) :
    q.validated.countP (q.InTheWay env (env.robj lobj) ·) <
      p.validated.countP (p.InTheWay env (env.robj lobj) ·) := by
  obtain ⟨hmem, hway, hnot, hq, hback⟩ := h.spec hlinked
  have hle : (p.validated.erase candidate).countP (q.InTheWay env (env.robj lobj) ·) ≤
      (p.validated.erase candidate).countP (p.InTheWay env (env.robj lobj) ·) :=
    List.countP_mono_left fun e _ => by simpa using hback e
  rw [hq, List.countP_cons_of_neg (by simpa using hnot),
    (List.perm_cons_erase hmem).countP_eq, List.countP_cons_of_pos (by simpa using hway)]
  exact Nat.lt_succ_of_le hle

/-- The loop needs no more rounds than a quantity that every retry makes smaller. -/
theorem csValidateLoop_fuel (measure : ValidateState → ℕ) (I : ValidateState → Prop)
    (hstep : ∀ p c q, I p → CsRetry env lobj p c q → I q ∧ measure q < measure p) {n m : ℕ}
    (hp : I p) (hn : measure p < n) (hm : measure p < m) :
    csValidateLoop env (env.robj lobj) n p = csValidateLoop env (env.robj lobj) m p := by
  induction n generalizing p m with
  | zero => cases hn
  | succ n ih =>
    cases m with
    | zero => cases hm
    | succ m =>
      rw [csValidateLoop, csValidateLoop]
      cases hbo : csBoValidate env (env.robj lobj) p with
      | none => rfl
      | some res =>
        obtain ⟨p₁, e₁⟩ := res
        dsimp only
        split_ifs with hnomem
        · subst hnomem
          cases hevict : csTryEvict env (env.robj lobj) p₁ with
          | none => rfl
          | some res =>
            obtain ⟨p₂, _ | _⟩ := res
            · rfl
            · obtain ⟨c, hc⟩ : ∃ c, p₂.validated.head? = some c := by
                rw [csTryEvict] at hevict
                split at hevict
                · obtain ⟨-, c, -, -, -, -, -, hq, -⟩ := csTryEvictLoop_evicts hevict
                  exact ⟨c, by rw [hq]; rfl⟩
                · cases hevict
              obtain ⟨hp₂, hlt⟩ := hstep p c p₂ hp ⟨p₁, hbo, hevict, hc⟩
              exact ih hp₂ (by omega) (by omega)
        · rfl

/-- **The retries of `amdgpu_cs_validate`.** No entry is evicted twice; so there are no more retries
than entries, and the loop needs no more rounds. The cursor is `NULL`, or at the head or an entry of
the list, after each retry and when the loop ends. -/
theorem csValidate_retries (hlinked : p.Linked other) (hstart : p.placed = [])
    {evicted : List ℕ} (hrun : Run (CsRetry env lobj) p evicted q) :
    (evicted.Nodup ∧ (∀ e ∈ evicted, e ∈ p.validated) ∧ evicted.length ≤ p.validated.length) ∧
      (∀ n, p.validated.length < n → csValidateLoop env (env.robj lobj) n p =
        csValidateLoop env (env.robj lobj) (p.validated.length + 1) p) ∧
      (∀ e, q.evictable = .entry e → e ∈ q.validated) ∧
      ∀ n r err, csValidateLoop env (env.robj lobj) n p = some (r, err) →
        ∀ e, r.evictable = .entry e → e ∈ r.validated := by
  have hinv : ValidateInv env other p := by
    refine ⟨hlinked, ?_, ?_⟩ <;> rw [hstart] <;> simp
  have hkeep : ∀ p c q, ValidateInv env other p → CsRetry env lobj p c q →
      ValidateInv env other q := fun p c q h hretry => (hretry.keeps h).1
  have hevicted : evicted.Nodup ∧ (∀ e ∈ evicted, e ∈ p.validated) ∧
      ∀ e ∈ evicted, p.InTheWay env (env.robj lobj) e := by
    clear hstart hlinked
    induction hrun with
    | nil => simp
    | cons hretry hrun ih =>
      obtain ⟨hmem, hway, hnot, hq, hback⟩ := hretry.spec hinv.linked
      obtain ⟨hnodup, hsub, hways⟩ := ih (hkeep _ _ _ hinv hretry)
      refine ⟨List.nodup_cons.mpr ⟨fun hc => hnot (hways _ hc), hnodup⟩,
        List.forall_mem_cons.mpr ⟨hmem, fun e he => ?_⟩,
        List.forall_mem_cons.mpr ⟨hway, fun e he => hback e (hways e he)⟩⟩
      have := hsub e he
      rw [hq] at this
      exact (List.perm_cons_erase hmem).mem_iff.mpr this
  classical
  refine ⟨⟨hevicted.1, hevicted.2.1, (hevicted.1.subperm hevicted.2.1).length_le⟩,
    fun n hn => ?_, ?_, fun n r err hloop => ?_⟩
  · have hle : p.validated.countP (p.InTheWay env (env.robj lobj) ·) ≤ p.validated.length :=
      List.countP_le_length
    exact csValidateLoop_fuel (fun p => p.validated.countP (p.InTheWay env (env.robj lobj) ·))
      (ValidateInv env other) (fun p c q h hretry =>
        ⟨hkeep p c q h hretry, hretry.countP_lt h.linked⟩) hinv (by omega) (by omega)
  · exact (hrun.invariant (ValidateInv env other) hkeep hinv).linked.evictable
  · exact ((csValidateLoop_keeps hloop).1 hinv).1.linked.evictable

end Evict

/-- Only `NULL` is neither on the list nor its head: the loop of `amdgpu_cs_list_validate` forgets
the cursor when it comes to its entry. -/
theorem csValidate_cursor_null :
    evictSecond.evictable = .entry 1 ∧ (csListBegin noShadowEnv 1 evictSecond).evictable = .null ∧
      csTryEvict noShadowEnv 1 (csListBegin noShadowEnv 1 evictSecond) =
        some (csListBegin noShadowEnv 1 evictSecond, false) :=
  ⟨rfl, rfl, rfl⟩

/-- The second entry is evicted for the first one. -/
theorem csValidate_retries_evictSecond :
    ∃ q, Run (CsRetry noShadowEnv 0) evictSecond [1] q ∧ q.validated = [1, 0] ∧
      [1].length ≤ evictSecond.validated.length := by
  have hlinked : evictSecond.Linked none :=
    ⟨by decide, fun e he => by cases he; decide, fun _ h => (by cases h)⟩
  have hretry : ∃ q, CsRetry noShadowEnv 0 evictSecond 1 q ∧ q.validated = [1, 0] :=
    ⟨_, ⟨_, rfl, rfl, rfl⟩, rfl⟩
  obtain ⟨q, hretry, hq⟩ := hretry
  exact ⟨q, .single hretry, hq, (csValidate_retries hlinked rfl (.single hretry)).1.2.2⟩

/-! ## The two cursors -/

section Walk

variable {env : ValidateEnv} {lobj bo candidate : ℕ} {p q r : ValidateState}
  {pre post done list : List ℕ}

/-- A round of the loop of `amdgpu_cs_list_validate` over `p->validated` that succeeds: the entry
the loop is at, and the state. -/
def CsListStep (env : ValidateEnv) (s : Option ℕ × ValidateState) (lobj : ℕ)
    (t : Option ℕ × ValidateState) : Prop :=
  s.1 = some lobj ∧ csListEntry env lobj s.2 = some (t.2, none) ∧
    t.1 = nextEntry t.2.validated lobj

/-- The cursor is at an entry that was validated, and this entry, or one before it on the list that
was validated, can be evicted for `lobj`. -/
def ValidateState.Threatened (env : ValidateEnv) (p : ValidateState) (lobj : ℕ) (done : List ℕ) :
    Prop :=
  ∃ e ∈ done, p.evictable = .entry e ∧
    ∃ d ∈ done, d ∈ e :: p.validated.takeWhile (· ≠ e) ∧ p.MayEvict env (env.robj lobj) d

/-- The list when the loop is at `lobj`: the entries that were evicted and not validated, those that
were validated, the entry, and the others. -/
structure ValidateState.Walked (p : ValidateState) (list : List ℕ) (lobj : ℕ) (done : List ℕ) :
    Prop where
  perm : p.validated.Perm list
  cursor : ∀ e, p.evictable = .entry e → e ∈ p.validated
  parts : ∃ moved post, p.validated = moved ++ (done ++ lobj :: post)

/-- What does not change the list and the cursor, or forgets the cursor, keeps this. -/
theorem ValidateState.Walked.congr (h : p.Walked list lobj done)
    (hvalidated : q.validated = p.validated)
    (hevictable : ∀ e, q.evictable = .entry e → p.evictable = .entry e) :
    q.Walked list lobj done :=
  ⟨hvalidated ▸ h.perm, fun e he => hvalidated ▸ h.cursor e (hevictable e he), hvalidated ▸ h.parts⟩

/-- The entries from the cursor back to the head. -/
theorem takeWhile_ne_append {e : ℕ} {l l' : List ℕ} (h : e ∉ l) :
    (l ++ e :: l').takeWhile (· ≠ e) = l := by
  rw [List.takeWhile_append_of_pos (by grind)]
  simp

/-- Where a list is cut in front of one of its elements: in a first part, or behind it. -/
theorem mem_or_forall_mem {α : Type*} {l l' seg rest : List α} {c : α}
    (h : l ++ l' = seg ++ c :: rest) : c ∈ l ∨ ∀ x ∈ l, x ∈ seg := by
  rcases List.append_eq_append_iff.mp h with ⟨_, rfl, -⟩ | ⟨_ | ⟨x, xs⟩, rfl, hrest⟩
  · exact .inr fun x hx => List.mem_append_left _ hx
  · exact .inr fun x hx => by simpa using hx
  · obtain ⟨rfl, -⟩ := List.cons.inj hrest
    exact .inl (by simp)

/-- **The first candidate** from the entry `e` back to the head that can be evicted, where the entry
`lobj` is no candidate. It was validated if and only if `e` was, and one of the candidates that were
validated can be evicted.

**Proof sketch.** By the part of the list that `e` is in. If it is `lobj` or behind it, all
candidates are behind `lobj`; if `e` is in the first part, all candidates are. -/
theorem first_mem_iff {moved post seg rest : List ℕ} {e c : ℕ} {may : ℕ → Prop}
    (hnodup : (moved ++ (done ++ lobj :: post)).Nodup) (he : e ∈ moved ++ (done ++ lobj :: post))
    (hsplit : e :: ((moved ++ (done ++ lobj :: post)).takeWhile (· ≠ e)).reverse = seg ++ c :: rest)
    (hseg : ∀ x ∈ seg, x ≠ lobj ∧ ¬ may x) (hc : may c) :
    c ∈ done ↔ e ∈ done ∧ ∃ d ∈ done,
      d ∈ e :: (moved ++ (done ++ lobj :: post)).takeWhile (· ≠ e) ∧ may d := by
  rcases List.mem_append.mp he with hin | hin
  · obtain ⟨l₁, l₂, rfl⟩ := List.append_of_mem hin
    rw [List.append_assoc, List.cons_append, takeWhile_ne_append (by grind)] at hsplit ⊢
    have hcmem : c ∈ seg ++ c :: rest := by simp
    rw [← hsplit] at hcmem
    grind
  rcases List.mem_append.mp hin with hin | hin
  · obtain ⟨l₁, l₂, rfl⟩ := List.append_of_mem hin
    rw [show moved ++ (l₁ ++ e :: l₂ ++ lobj :: post) =
      (moved ++ l₁) ++ e :: (l₂ ++ lobj :: post) by simp, takeWhile_ne_append (by grind)] at *
    have hcmem : c ∈ seg ++ c :: rest := by simp
    rw [← hsplit] at hcmem
    rw [List.reverse_append, ← List.cons_append] at hsplit
    constructor
    · exact fun hdone => ⟨by simp, c, hdone, by grind, hc⟩
    · rintro ⟨-, d, hd, hbefore, hmay⟩
      rcases mem_or_forall_mem hsplit with hmem | hall
      · grind
      · exact absurd hmay (hseg d (hall d (by grind))).2
  · obtain ⟨l₁, l₂, hpost⟩ := List.append_of_mem hin
    have hlobj : lobj ∈ e :: l₁.reverse := by
      cases l₁ <;> simp_all
    have hcut : moved ++ (done ++ lobj :: post) = (moved ++ done ++ l₁) ++ e :: l₂ := by
      simp [hpost]
    rw [hcut] at hnodup hsplit ⊢
    rw [takeWhile_ne_append (by grind)] at hsplit ⊢
    rw [List.reverse_append, ← List.cons_append] at hsplit
    rcases mem_or_forall_mem hsplit with hmem | hall
    · grind
    · exact absurd rfl (hseg lobj (hall lobj hlobj)).1

/-- **One eviction** for the entry the loop is at. -/
theorem csTryEvict_walked (hlist : list.Nodup) (h : p.Walked list lobj done)
    (hevict : csTryEvict env (env.robj lobj) p = some (q, true)) :
    ∃ c, q.validated.head? = some c ∧ c ∈ list ∧ (c ∈ done ↔ p.Threatened env lobj done) ∧
      (c ∉ done → q.Walked list lobj done) := by
  obtain ⟨hperm, hcursor, moved, post, hparts⟩ := h
  have hnodup : (moved ++ (done ++ lobj :: post)).Nodup := hparts ▸ hperm.nodup_iff.mpr hlist
  rw [csTryEvict] at hevict
  split at hevict
  · next e he =>
    obtain ⟨seg, c, rest, hsplit, hseg, hc, hevictable, hq, -⟩ := csTryEvictLoop_evicts hevict
    have hsub : ∀ x ∈ seg ++ c :: rest, x ∈ p.validated := fun x hx => by
      rcases List.mem_cons.mp (hsplit ▸ hx) with rfl | hx
      · exact hcursor x he
      · exact (List.takeWhile_sublist _).mem (List.mem_reverse.mp hx)
    have hcmem : c ∈ p.validated := hsub c (by simp)
    have hne : c ≠ lobj := fun heq => hc.1.1 (heq ▸ rfl)
    have hqperm : q.validated.Perm p.validated := hq ▸ (List.perm_cons_erase hcmem).symm
    refine ⟨c, by rw [hq]; rfl, hperm.mem_iff.mp hcmem, ?_, fun hdone =>
      ⟨hqperm.trans hperm, fun x hx => hqperm.mem_iff.mpr (hsub x ?_), ?_⟩⟩
    · have hiff := first_mem_iff hnodup (hparts ▸ hcursor e he) (hparts ▸ hsplit)
        (fun x hx => ⟨fun heq => (hseg x hx).1 (heq ▸ rfl), (hseg x hx).2⟩) hc
      rw [hiff, ← hparts]
      constructor
      · rintro ⟨hmem, hex⟩
        exact ⟨e, hmem, he, hex⟩
      · rintro ⟨e', hmem, he', hex⟩
        obtain rfl : e = e' := by simpa [he] using he'
        exact ⟨hmem, hex⟩
    · cases rest with
      | nil => simp [hevictable, Evictable.prev] at hx
      | cons y ys =>
        obtain rfl : y = x := by simpa [hevictable, Evictable.prev] using hx
        simp
    · rw [hparts] at hcmem hq
      rcases List.mem_append.mp hcmem with hin | hin
      · refine ⟨c :: moved.erase c, post, ?_⟩
        rw [hq, List.erase_append_left _ hin]
        rfl
      · have hpost : c ∉ moved := by grind
        refine ⟨c :: moved, post.erase c, ?_⟩
        rw [hq, List.erase_append_right _ hpost, List.erase_append_right _ hdone,
          List.erase_cons_tail (by simpa using hne.symm)]
        rfl
  · cases hevict

/-- **One retry** for the entry the loop is at: it evicts an entry that was validated if and only if
one is threatened. -/
theorem CsRetry.walked (hlist : list.Nodup) (h : p.Walked list lobj done)
    (hretry : CsRetry env lobj p candidate q) :
    candidate ∈ list ∧ (candidate ∈ done ↔ p.Threatened env lobj done) ∧
      (candidate ∉ done → q.Walked list lobj done) := by
  obtain ⟨p₁, hbo, hevict, hhead⟩ := hretry
  obtain ⟨hvalidated, hevictable, hmem⟩ := csBoValidate_frame hbo
  obtain ⟨c, hc, hclist, hiff, hnext⟩ :=
    csTryEvict_walked hlist (h.congr hvalidated fun e => hevictable ▸ id) hevict
  obtain rfl : c = candidate := by simpa [hc] using hhead
  refine ⟨hclist, hiff.trans ?_, hnext⟩
  -- the validation that failed may have moved only the buffer object of `lobj`
  have hmay : ∀ d, p₁.MayEvict env (env.robj lobj) d ↔ p.MayEvict env (env.robj lobj) d :=
    fun d => and_congr_left fun _ => and_congr_right fun hne => by rw [hmem _ hne]
  simp only [ValidateState.Threatened, hvalidated, hevictable, hmay]

/-- The retries for an entry evict nothing that was validated. -/
def CsSpares (env : ValidateEnv) (lobj : ℕ) (p : ValidateState) (done : List ℕ) : Prop :=
  ∀ evicted q, Run (CsRetry env lobj) p evicted q → ∀ e ∈ evicted, e ∉ done

/-- The list after retries that evict nothing that was validated. -/
theorem ValidateState.Walked.retries (hlist : list.Nodup) (h : p.Walked list lobj done)
    {evicted : List ℕ} (hrun : Run (CsRetry env lobj) p evicted q)
    (hnot : ∀ e ∈ evicted, e ∉ done) : q.Walked list lobj done ∧ ∀ e ∈ evicted, e ∈ list := by
  induction hrun with
  | nil => exact ⟨h, by simp⟩
  | cons hretry _ ih =>
    obtain ⟨hc, hrest⟩ := List.forall_mem_cons.mp hnot
    obtain ⟨hmem, -, hnext⟩ := hretry.walked hlist h
    exact (ih (hnext hc) hrest).imp_right fun hall => List.forall_mem_cons.mpr ⟨hmem, hall⟩

/-- **The retries for an entry** evict nothing that was validated if and only if nothing that was
validated is threatened before any of them. -/
theorem csSpares_iff (hlist : list.Nodup) (h : p.Walked list lobj done) :
    CsSpares env lobj p done ↔ ∀ evicted q c r, Run (CsRetry env lobj) p evicted q →
      CsRetry env lobj q c r → ¬ q.Threatened env lobj done := by
  constructor
  · intro hspares evicted q c r hq hretry hthreat
    have hwalked := (h.retries hlist hq (hspares evicted q hq)).1
    have hc := (hretry.walked hlist hwalked).2.1.mpr hthreat
    exact hspares (evicted ++ [c]) r (hq.append (.single hretry)) c (by simp) hc
  · intro hsafe evicted q hq
    induction hq with
    | nil => simp
    | cons hretry _ ih =>
      have hstep := hretry.walked hlist h
      have hc := fun hmem => hsafe [] _ _ _ (.nil _) hretry (hstep.2.1.mp hmem)
      exact List.forall_mem_cons.mpr ⟨hc, ih (hstep.2.2 hc) fun evicted q c r hq =>
        hsafe _ q c r (.cons hretry hq)⟩

/-- If the retries evict nothing that was validated, the list is as before when the loop of
`amdgpu_cs_validate` succeeds. -/
theorem csValidateLoop_walked {n : ℕ} (hlist : list.Nodup) (h : p.Walked list lobj done)
    (hspares : CsSpares env lobj p done)
    (hloop : csValidateLoop env (env.robj lobj) n p = some (q, none)) :
    q.Walked list lobj done := by
  induction n generalizing p with
  | zero => cases hloop
  | succ n ih =>
    rw [csValidateLoop] at hloop
    split at hloop
    · cases hloop
    · next p₁ e₁ hbo =>
      obtain ⟨hvalidated, hevictable, -⟩ := csBoValidate_frame hbo
      have hwalked := h.congr hvalidated fun e => hevictable ▸ id
      split_ifs at hloop with hnomem
      · subst hnomem
        split at hloop
        · cases hloop
        · next p₂ hevict =>
          obtain ⟨c, hhead, -, -, hnext⟩ := csTryEvict_walked hlist hwalked hevict
          have hretry : CsRetry env lobj p c p₂ := ⟨p₁, hbo, hevict, hhead⟩
          have hc := hspares [c] _ (.single hretry) c (by simp)
          refine ih (hnext hc) (fun evicted q hq e he => ?_) hloop
          exact hspares (c :: evicted) q (.cons hretry hq) e (by simp [he])
        · cases hloop
      · cases hloop
        exact hwalked

/-- What comes before the validation of an entry does not change the list. -/
theorem csListBegin_walked (h : p.Walked list lobj done) :
    (csListBegin env lobj p).Walked list lobj done := by
  refine h.congr rfl fun e he => ?_
  simp only [csListBegin] at he
  split_ifs at he
  exact he

/-- An entry that is validated without evicting others that were. -/
theorem csListEntry_walked (hlist : list.Nodup) (h : p.Walked list lobj done)
    (hspares : CsSpares env lobj (csListBegin env lobj p) done)
    (hentry : csListEntry env lobj p = some (q, none)) : q.Walked list lobj done := by
  rw [csListEntry] at hentry
  split_ifs at hentry
  · cases hentry
  split at hentry
  · cases hentry
  · cases hentry
  · next p₂ hvalidate =>
    cases hentry
    refine ValidateState.Walked.congr (p := p₂) ?_ rfl fun _ => id
    rw [csValidate] at hvalidate
    split at hvalidate
    · cases hvalidate
    · cases hvalidate
    · next p₁ hloop =>
      have hwalked := csValidateLoop_walked hlist (csListBegin_walked h) hspares hloop
      split_ifs at hvalidate
      · obtain ⟨hvalidated, hevictable, -⟩ := csBoValidate_frame hvalidate
        exact hwalked.congr hvalidated fun e => hevictable ▸ id
      · cases hvalidate
        exact hwalked

/-- **The walk**: as long as nothing that was validated is evicted, the list has its parts. -/
theorem walk_walked (hlist : list.Nodup) {s t : Option ℕ × ValidateState} {done' : List ℕ}
    (hrun : Run (CsListStep env) s done' t)
    (hs : ∀ lobj, s.1 = some lobj → s.2.Walked list lobj done)
    (hspares : ∀ ls u lobj, Run (CsListStep env) s ls (some lobj, u) →
      u.Walked list lobj (done ++ ls) → CsSpares env lobj (csListBegin env lobj u) (done ++ ls)) :
    ∀ lobj, t.1 = some lobj → t.2.Walked list lobj (done ++ done') := by
  induction hrun generalizing done with
  | nil => simpa using hs
  | @cons s t u lobj ls hstep _ ih =>
    obtain ⟨hat, hentry, hnext⟩ := hstep
    have hstart : Run (CsListStep env) s [] (some lobj, s.2) := hat ▸ .nil s
    have hspare := hspares [] s.2 lobj hstart (by simpa using hs lobj hat)
    obtain ⟨hperm, hcursor, moved, post, hparts⟩ :=
      csListEntry_walked hlist (hs lobj hat) (by simpa using hspare) hentry
    rw [show done ++ lobj :: ls = (done ++ [lobj]) ++ ls by simp]
    refine ih (fun next hat' => ?_) fun ls' v lobj' hv hwalked => ?_
    · have hnodup : (moved ++ (done ++ lobj :: post)).Nodup := hparts ▸ hperm.nodup_iff.mpr hlist
      rw [hnext, hparts, ← List.append_assoc, nextEntry_append (by grind)] at hat'
      obtain ⟨post', rfl⟩ := List.head?_eq_some_iff.mp hat'
      exact ⟨hperm, hcursor, moved, post', by simp [hparts]⟩
    · have hall := hspares (lobj :: ls') v lobj' (.cons ⟨hat, hentry, hnext⟩ hv)
      simp only [List.append_assoc, List.singleton_append] at hwalked ⊢
      exact hall hwalked

/-- **Evictions during a walk.** In all walks through a list no buffer object is evicted whose own
validation was successful, if and only if before each eviction the cursor is not at an entry that
was validated, or no entry that was validated, from there back, can be evicted. -/
theorem csListValidate_evicts_iff (hlinked : p.Linked none)
    (hrobj : ∀ a ∈ p.validated, ∀ b ∈ p.validated, env.robj a = env.robj b → a = b) :
    (∀ done lobj q, Run (CsListStep env) (p.validated.head?, p) done (some lobj, q) →
      ∀ evicted r, Run (CsRetry env lobj) (csListBegin env lobj q) evicted r →
        ∀ e ∈ evicted, ∀ d ∈ done, env.robj e ≠ env.robj d) ↔
    ∀ done lobj q, Run (CsListStep env) (p.validated.head?, p) done (some lobj, q) →
      ∀ evicted r c r', Run (CsRetry env lobj) (csListBegin env lobj q) evicted r →
        CsRetry env lobj r c r' → ¬ r.Threatened env lobj done := by
  have hfirst : ∀ lobj, p.validated.head? = some lobj → p.Walked p.validated lobj [] := by
    intro lobj hhead
    obtain ⟨post, hpost⟩ := List.head?_eq_some_iff.mp hhead
    exact ⟨.refl _, hlinked.evictable, [], post, by simpa using hpost⟩
  have hwalked : (∀ done lobj q, Run (CsListStep env) (p.validated.head?, p) done (some lobj, q) →
      q.Walked p.validated lobj done → CsSpares env lobj (csListBegin env lobj q) done) →
      ∀ done lobj q, Run (CsListStep env) (p.validated.head?, p) done (some lobj, q) →
      q.Walked p.validated lobj done := fun hspares done lobj q hrun => by
    refine List.nil_append done ▸ walk_walked hlinked.nodup hrun hfirst (fun ls u lobj hu hw => ?_)
      lobj rfl
    exact hspares ls lobj u hu hw
  constructor
  · intro hclaim done lobj q hrun
    have hspares : ∀ done lobj q, Run (CsListStep env) (p.validated.head?, p) done (some lobj, q) →
        CsSpares env lobj (csListBegin env lobj q) done :=
      fun done lobj q hrun evicted r hr e he hd =>
        hclaim done lobj q hrun evicted r hr e he e hd rfl
    have hq := hwalked (fun done lobj q hrun _ => hspares done lobj q hrun) done lobj q hrun
    exact (csSpares_iff hlinked.nodup (csListBegin_walked hq)).mp (hspares done lobj q hrun)
  · intro hsafe done lobj q hrun evicted r hr e he d hd heq
    have hspares : ∀ done lobj q, Run (CsListStep env) (p.validated.head?, p) done (some lobj, q) →
        q.Walked p.validated lobj done → CsSpares env lobj (csListBegin env lobj q) done :=
      fun done lobj q hrun hq =>
        (csSpares_iff hlinked.nodup (csListBegin_walked hq)).mpr (hsafe done lobj q hrun)
    have hq := hwalked hspares done lobj q hrun
    have hnot := hspares done lobj q hrun hq evicted r hr
    have hemem := ((csListBegin_walked hq).retries hlinked.nodup hr hnot).2 e he
    obtain ⟨hperm, -, moved, post, hparts⟩ := hq
    have hdmem : d ∈ p.validated := hperm.mem_iff.mp (by simp [hparts, hd])
    exact hnot e he (hrobj e hemem d hdmem heq ▸ hd)

end Walk

/-- The buffer object `2` may only be in VRAM. -/
def vramEnv : ValidateEnv where
  __ := noShadowEnv
  bo := fun b => plainBo (if b = 0 then 6 else if b = 1 then 7 else 4) none
  robj_ne_shadow := fun _ _ h => (by cases h)
  allowed_placed := fun b i hi => by
    refine placementOrder_of_and ?_ hi
    by_cases hb : b = 0
    · simp [plainBo, hb]
    · by_cases hb' : b = 1 <;> simp [plainBo, hb, hb']

/-- The last entry is in system memory, and so no candidate for the first one. -/
def evictMiddle : ValidateState where
  __ := evictSecond
  validated := [0, 1, 2]
  evictable := .entry 2
  memType := fun b => if b = 2 then .system else .vram
  outcomes := [⟨.error .ENOMEM, 0⟩, ⟨.ok .system, 4096⟩, ⟨.ok .vram, 4096⟩,
    ⟨.error .ENOMEM, 0⟩, ⟨.ok .tt, 4096⟩, ⟨.ok .vram, 4096⟩]

/-- The second entry is evicted for the first one, and then the first one, which was validated, for
the last one. -/
theorem csListValidate_evicts_validated :
    (∃ q r, Run (CsListStep vramEnv) (evictMiddle.validated.head?, evictMiddle) [0] (some 2, q) ∧
      q.memType 0 = .vram ∧ Run (CsRetry vramEnv 2) (csListBegin vramEnv 2 q) [0] r ∧
      r.memType 0 = .tt) ∧
    ∃ q, csListValidate vramEnv none evictMiddle = some (q, none) ∧ q.memType 0 = .tt :=
  ⟨⟨_, _, .single ⟨rfl, rfl, rfl⟩, rfl, .single ⟨_, rfl, rfl, rfl⟩, rfl⟩, _, rfl, rfl⟩

/-- So in this walk an entry that was validated is threatened before an eviction. -/
theorem csListValidate_evicts_iff_middle :
    ∃ done lobj q evicted r c r',
      Run (CsListStep vramEnv) (some 0, evictMiddle) done (some lobj, q) ∧
      Run (CsRetry vramEnv lobj) (csListBegin vramEnv lobj q) evicted r ∧
      CsRetry vramEnv lobj r c r' ∧ r.Threatened vramEnv lobj done := by
  have hlinked : evictMiddle.Linked none :=
    ⟨by decide, fun e he => by cases he; decide, fun _ h => (by cases h)⟩
  by_contra hnone
  push Not at hnone
  have hall := (csListValidate_evicts_iff hlinked fun _ _ _ _ => id).mpr
    fun done lobj q hrun evicted r c r' => hnone done lobj q evicted r c r' hrun
  exact hall [0] 2 _ (.single ⟨rfl, rfl, rfl⟩) [0] _ (.single ⟨_, rfl, rfl, rfl⟩) 0 (by simp) 0
    (by simp) rfl

end Amdgpu
