import Mathlib.Data.List.Nodup

set_option autoImplicit false

/-!
# Lists that share out the elements of a list

Records that belong to one collection are often threaded on several lists at the same time, and
the program relies on each record being on exactly one of them. `ListPartition all part` says so:
the lists `part i` have no element twice, no two of them have a common element, and together they
have the elements of `all`.

## Main definitions

* `ListPartition` — the relation between the collection and its lists.

## Main results

* `ListPartition.replace` — exchange one of the lists for another one. The operations a program
  performs on its lists are special cases: `insert`, `remove`.
-/

variable {ι α : Type*} {all all' : List α} {part : ι → List α}

/-- The lists `part i` share out the elements of `all`. -/
structure ListPartition (all : List α) (part : ι → List α) : Prop where
  mem_iff : ∀ a, a ∈ all ↔ ∃ i, a ∈ part i
  nodup : ∀ i, (part i).Nodup
  unique : ∀ {a : α} {i j : ι}, a ∈ part i → a ∈ part j → i = j

namespace ListPartition

/-- No elements on empty lists. -/
theorem nil : ListPartition ([] : List α) (fun _ : ι => []) :=
  ⟨by simp, by simp, by simp⟩

theorem mem (h : ListPartition all part) {a : α} {i : ι} (ha : a ∈ part i) : a ∈ all :=
  (h.mem_iff a).mpr ⟨i, ha⟩

variable [DecidableEq ι]

/-- **Exchange of one list.** The new list may have elements of the old one and elements that
are on none of the lists; the collection loses what was on the old list and gets what is on the
new one. -/
theorem replace (h : ListPartition all part) (i : ι) {new : List α} (hnew : new.Nodup)
    (hfrom : ∀ a ∈ new, a ∈ part i ∨ a ∉ all)
    (hall : ∀ a, a ∈ all' ↔ (a ∈ all ∧ a ∉ part i) ∨ a ∈ new) :
    ListPartition all' (Function.update part i new) where
  mem_iff a := by
    rw [hall]
    constructor
    · rintro (⟨ha, hi⟩ | ha)
      · obtain ⟨j, hj⟩ := (h.mem_iff a).mp ha
        have hne : j ≠ i := by rintro rfl; exact hi hj
        exact ⟨j, by rwa [Function.update_of_ne hne]⟩
      · exact ⟨i, by rwa [Function.update_self]⟩
    · rintro ⟨j, hj⟩
      by_cases hji : j = i
      · subst hji
        rw [Function.update_self] at hj
        exact .inr hj
      · rw [Function.update_of_ne hji] at hj
        exact .inl ⟨h.mem hj, fun hi => hji (h.unique hj hi)⟩
  nodup j := by
    by_cases hji : j = i
    · subst hji; rwa [Function.update_self]
    · rw [Function.update_of_ne hji]; exact h.nodup j
  unique := by
    -- an element of the new list is on no other list
    have hout : ∀ {a j}, a ∈ new → a ∈ part j → j = i := fun ha hj =>
      (hfrom _ ha).elim (h.unique hj) fun hn => absurd (h.mem hj) hn
    intro a j k hj hk
    by_cases hji : j = i <;> by_cases hki : k = i
    · rw [hji, hki]
    · rw [hji, Function.update_self] at hj
      rw [Function.update_of_ne hki] at hk
      rw [hji, hout hj hk]
    · rw [hki, Function.update_self] at hk
      rw [Function.update_of_ne hji] at hj
      rw [hki, hout hk hj]
    · rw [Function.update_of_ne hji] at hj
      rw [Function.update_of_ne hki] at hk
      exact h.unique hj hk

/-- Put a new element on one of the lists. -/
theorem insert (h : ListPartition all part) (i : ι) {a : α} (ha : a ∉ all) {new : List α}
    (hnew : new.Perm (a :: part i)) : ListPartition (a :: all) (Function.update part i new) := by
  have hi : a ∉ part i := fun hi => ha (h.mem hi)
  refine h.replace i (hnew.nodup_iff.mpr (List.nodup_cons.mpr ⟨hi, h.nodup i⟩)) ?_ ?_
  · intro b hb
    rcases List.mem_cons.mp (hnew.mem_iff.mp hb) with rfl | hb
    · exact .inr ha
    · exact .inl hb
  · intro b
    rw [hnew.mem_iff, List.mem_cons, List.mem_cons]
    by_cases hb : b ∈ part i
    · simp [hb, h.mem hb]
    · simp only [hb, not_false_eq_true, and_true, or_false]
      exact or_comm

/-- Take some elements off one of the lists and out of the collection. -/
theorem remove (h : ListPartition all part) (i : ι) {new gone : List α}
    (hnew : (gone ++ new).Perm (part i)) (hall : ∀ a, a ∈ all' ↔ a ∈ all ∧ a ∉ gone) :
    ListPartition all' (Function.update part i new) := by
  obtain ⟨-, hnd, hdisj⟩ := List.nodup_append'.mp (hnew.nodup_iff.mpr (h.nodup i))
  have hmem : ∀ a, a ∈ part i ↔ a ∈ gone ∨ a ∈ new := fun a => by
    rw [← hnew.mem_iff, List.mem_append]
  refine h.replace i hnd (fun a ha => .inl ((hmem a).mpr (.inr ha))) fun a => ?_
  rw [hall, hmem]
  constructor
  · rintro ⟨ha, hg⟩
    by_cases hn : a ∈ new
    · exact .inr hn
    · exact .inl ⟨ha, by simp [hg, hn]⟩
  · rintro (⟨ha, hgn⟩ | hn)
    · exact ⟨ha, fun hg => hgn (.inl hg)⟩
    · exact ⟨h.mem ((hmem a).mpr (.inr hn)), fun hg => hdisj hg hn⟩

end ListPartition
