import Mathlib.Tactic

set_option autoImplicit false

/-!
# Logs in a circular buffer

Segments of data are written one after the other into a buffer of `D` places that is used in a
circle. Positions that never wrap say where they are: the place of position `v` is `v % D`. As long
as not more than `D` positions are in use, their places are different and nothing is overwritten.

## Main definitions

* `CircularLog.Segment`, `Segment.slots` — some data, and the places it is at.
* `Laid` — segments one after the other from one position to another.
* `Stored` — the data of a segment is at its places.
* `Window` — the values of the positions in a range are at their places.

## Main results

* `CircularLog.mod_inj` — positions less than `D` apart have different places.
* `Window.write` — the value of the next position is written.
* `Laid.nodup_slots` — the places are different if there is enough room.
* `Stored.write_push` — writing at the next place keeps all the data.
-/

namespace CircularLog

variable {α : Type*}

/-- Positions less than `D` apart have different places. -/
theorem mod_inj {D a b : ℕ} (h : a % D = b % D) (hab : a < b + D) (hba : b < a + D) : a = b := by
  have hdvd : (D : ℤ) ∣ (a : ℤ) - b := Int.ModEq.dvd (Int.natCast_modEq_iff.mpr (Eq.symm h))
  have hzero : (a : ℤ) - b = 0 := by
    refine Int.eq_zero_of_abs_lt_dvd hdvd ?_
    rw [abs_lt]
    omega
  omega

/-- Some data and the place of its first item. -/
structure Segment (α : Type*) where
  start : ℕ
  data : List α

namespace Segment

/-- The places of the data. -/
def slots (D : ℕ) (s : Segment α) : List ℕ :=
  (List.range s.data.length).map fun k => (s.start + k) % D

/-- One more item at the end. -/
def push (s : Segment α) (a : α) : Segment α := { s with data := s.data ++ [a] }

@[simp] theorem length_data_push (s : Segment α) (a : α) :
    (s.push a).data.length = s.data.length + 1 := by
  simp [push]

theorem slots_push (D : ℕ) (s : Segment α) (a : α) :
    (s.push a).slots D = s.slots D ++ [(s.start + s.data.length) % D] := by
  simp [slots, push, List.range_succ]

end Segment

/-- The segments are one after the other, from position `v` to position `w`. -/
def Laid (D : ℕ) : ℕ → List (Segment α) → ℕ → Prop
  | v, [], w => w = v
  | v, s :: ss, w => s.start = v % D ∧ Laid D (v + s.data.length) ss w

namespace Laid

variable {D u v w : ℕ} {s : Segment α} {ss ts : List (Segment α)}

theorem append (h : Laid D u ss v) (h' : Laid D v ts w) : Laid D u (ss ++ ts) w := by
  induction ss generalizing u with
  | nil =>
    cases h
    exact h'
  | cons s ss ih => exact ⟨h.1, ih h.2⟩

/-- The positions are as many as the items. -/
theorem eq_add_sum (h : Laid D v ss w) : w = v + (ss.map fun s => s.data.length).sum := by
  induction ss generalizing v with
  | nil => exact h
  | cons s ss ih =>
    have := ih h.2
    rw [List.map_cons, List.sum_cons]
    omega

/-- The places are those of the positions in between. -/
theorem flatMap_slots (h : Laid D v ss w) :
    ss.flatMap (Segment.slots D) = (List.range' v (w - v)).map (· % D) := by
  induction ss generalizing v with
  | nil =>
    cases h
    simp
  | cons s ss ih =>
    have hsum := h.2.eq_add_sum
    have hslots : s.slots D = (List.range' v s.data.length).map (· % D) := by
      rw [Segment.slots, h.1, List.range'_eq_map_range, List.map_map]
      exact List.map_congr_left fun k _ => Nat.mod_add_mod v D k
    have hsplit : w - v = s.data.length + (w - (v + s.data.length)) := by omega
    rw [List.flatMap_cons, ih h.2, hslots, ← List.map_append, List.range'_append_1, ← hsplit]

/-- The places are different if there is enough room. -/
theorem nodup_slots (h : Laid D v ss w) (hle : w ≤ v + D) :
    (ss.flatMap (Segment.slots D)).Nodup := by
  rw [h.flatMap_slots]
  refine List.Nodup.map_on ?_ List.nodup_range'
  intro a ha b hb heq
  rw [List.mem_range'_1] at ha hb
  exact mod_inj heq (by omega) (by omega)

end Laid

/-! ## Data in memory -/

/-- The data of a segment is at its places. -/
def Stored (D : ℕ) (mem : ℕ → α) (s : Segment α) : Prop :=
  ∀ k (hk : k < s.data.length), mem ((s.start + k) % D) = s.data[k]

namespace Stored

variable {D : ℕ} {mem : ℕ → α} {s : Segment α} {x : ℕ} {a : α}

theorem nil (D : ℕ) (mem : ℕ → α) (start : ℕ) : Stored D mem ⟨start, []⟩ :=
  fun k hk => absurd hk (Nat.not_lt_zero k)

/-- Writing elsewhere keeps the data. -/
theorem update (h : Stored D mem s) (hx : x ∉ s.slots D) :
    Stored D (Function.update mem x a) s := by
  intro k hk
  have hmem : (s.start + k) % D ∈ s.slots D :=
    List.mem_map.mpr ⟨k, List.mem_range.mpr hk, rfl⟩
  have hne : (s.start + k) % D ≠ x := fun heq => hx (heq ▸ hmem)
  rw [Function.update_of_ne hne]
  exact h k hk

/-- Writing at the next place makes the segment longer. -/
theorem push (h : Stored D mem s) (hx : (s.start + s.data.length) % D ∉ s.slots D) :
    Stored D (Function.update mem ((s.start + s.data.length) % D) a) (s.push a) := by
  intro k hk
  rw [Segment.length_data_push] at hk
  rcases Nat.lt_succ_iff_lt_or_eq.mp hk with hlt | rfl
  · simp only [Segment.push, List.getElem_append_left hlt]
    exact h.update hx k hlt
  · simp [Segment.push]

/-- Writing at the next place of the last segment keeps the data of all segments. -/
theorem write_push {ss : List (Segment α)} (h : ∀ t ∈ ss ++ [s], Stored D mem t)
    (hnodup : ((ss ++ [s.push a]).flatMap (Segment.slots D)).Nodup) :
    ∀ t ∈ ss ++ [s.push a],
      Stored D (Function.update mem ((s.start + s.data.length) % D) a) t := by
  rw [List.flatMap_append, List.flatMap_singleton, Segment.slots_push, ← List.append_assoc,
    List.nodup_append'] at hnodup
  have hx : (s.start + s.data.length) % D ∉ ss.flatMap (Segment.slots D) ++ s.slots D :=
    fun hmem => hnodup.2.2 hmem (List.mem_singleton_self _)
  rw [List.mem_append, not_or] at hx
  intro t ht
  rcases List.mem_append.mp ht with ht | ht
  · refine (h t (List.mem_append_left _ ht)).update fun hmem => hx.1 ?_
    exact List.mem_flatMap.mpr ⟨t, ht, hmem⟩
  · rw [List.mem_singleton.mp ht]
    exact (h s (List.mem_append_right _ (List.mem_singleton_self s))).push hx.2

end Stored

/-- The values of the positions from `lo` on and before `hi` are at their places. -/
def Window (D : ℕ) (mem log : ℕ → α) (lo hi : ℕ) : Prop :=
  ∀ v, lo ≤ v → v < hi → mem (v % D) = log v

namespace Window

variable {D lo hi : ℕ} {mem log log' : ℕ → α}

theorem empty (D : ℕ) (mem log : ℕ → α) (v : ℕ) : Window D mem log v v :=
  fun _ hle hlt => absurd (hle.trans_lt hlt) (lt_irrefl _)

theorem mono (h : Window D mem log lo hi) {lo' : ℕ} (hle : lo ≤ lo') : Window D mem log lo' hi :=
  fun v hv => h v (hle.trans hv)

/-- Only the values in the window matter. -/
theorem congr (h : Window D mem log lo hi) (hlog : ∀ v < hi, log' v = log v) :
    Window D mem log' lo hi :=
  fun v hle hlt => (h v hle hlt).trans (hlog v hlt).symm

/-- The value of the next position is written, at a place that is not in use. -/
theorem write (h : Window D mem log lo hi) (hroom : hi < lo + D) :
    Window D (Function.update mem (hi % D) (log hi)) log lo (hi + 1) := by
  intro v hle hlt
  rcases Nat.lt_succ_iff_lt_or_eq.mp hlt with hold | rfl
  · have hne : v % D ≠ hi % D := fun heq => hold.ne (mod_inj heq (by omega) (by omega))
    rw [Function.update_of_ne hne]
    exact h v hle hold
  · rw [Function.update_self]

end Window

end CircularLog
