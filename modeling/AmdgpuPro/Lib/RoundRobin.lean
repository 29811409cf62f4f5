import Mathlib.Data.List.Nodup

set_option autoImplicit false

/-!
# Taking turns

Some items stand in a list, and one of them had the last turn. The next turn goes to the first item
behind it that is ready, where the first item of the list is behind the last one. Items are added at
the end of the list, and other items than the one with the last turn are taken out.

In the order of the turns an item comes before the one that had the last turn, and it does so until
it has its own turn. So it is not passed by while it is ready.

## Main definitions

* `RoundRobin.order` — the items in the order of their turns.
* `Before` — an item comes before another one.

## Main results

* `RoundRobin.Valid.order_turn` — the item that has its turn goes to the end of the order.
* `Valid.order_add`, `Valid.order_remove` — other items that come and go do not change the order.
* `Before.turn` — an item stays before another one until it has its turn.
* `Before.find?_ne` — and the other one does not have the next turn.
-/

namespace RoundRobin

variable {α : Type*}

/-! ## The order of the turns -/

section Order

/-- The items are different, and the one that had the last turn is among them. -/
structure Valid (l : List α) (last : Option α) : Prop where
  nodup : l.Nodup
  mem : ∀ c, last = some c → c ∈ l

variable {l pre post : List α} {last : Option α} {c x : α}

/-- An item stands in one place only. -/
theorem Valid.notMem (h : Valid (pre ++ c :: post) last) : c ∉ pre := fun hc =>
  List.disjoint_of_nodup_append h.nodup hc List.mem_cons_self

/-- Another item has its turn. -/
theorem Valid.turn (h : Valid l last) (hc : c ∈ l) : Valid l (some c) :=
  ⟨h.nodup, fun _ heq => Option.some.inj heq ▸ hc⟩

/-- An item is added. -/
theorem Valid.add (h : Valid l last) (hx : x ∉ l) : Valid (l ++ [x]) last where
  nodup := by
    rw [List.nodup_append_comm]
    exact List.nodup_cons.mpr ⟨hx, h.nodup⟩
  mem c hc := List.mem_append_left _ (h.mem c hc)

variable [DecidableEq α]

/-- An item is taken out. -/
theorem Valid.remove (h : Valid l last) (hx : last ≠ some x) :
    Valid (l.filter fun y => y ≠ x) last where
  nodup := h.nodup.filter _
  mem c hc := by
    refine List.mem_filter.mpr ⟨h.mem c hc, decide_eq_true fun heq => hx ?_⟩
    rw [hc, heq]

/-- The items in the order of their turns: those behind the one that had the last turn, and then
from the first one to that. -/
def order (l : List α) : Option α → List α
  | none => l
  | some c =>
    (l.dropWhile fun x => x ≠ c).drop 1 ++ (l.takeWhile fun x => x ≠ c) ++
      (l.dropWhile fun x => x ≠ c).take 1

theorem forall_mem_ne (h : c ∉ pre) : ∀ y ∈ pre, decide (y ≠ c) = true := fun _ hy =>
  decide_eq_true fun heq => h (heq ▸ hy)

theorem dropWhile_ne (h : c ∉ pre) (post : List α) :
    ((pre ++ c :: post).dropWhile fun y => y ≠ c) = c :: post := by
  rw [List.dropWhile_append_of_pos (forall_mem_ne h)]
  simp

theorem takeWhile_ne (h : c ∉ pre) (post : List α) :
    ((pre ++ c :: post).takeWhile fun y => y ≠ c) = pre := by
  rw [List.takeWhile_append_of_pos (forall_mem_ne h)]
  simp

theorem order_some (h : c ∉ pre) : order (pre ++ c :: post) (some c) = post ++ pre ++ [c] := by
  rw [order, takeWhile_ne h, dropWhile_ne h]
  rfl

/-- The order begins somewhere in the list, and goes on from its beginning to there. -/
theorem Valid.exists_append (h : Valid l last) :
    ∃ u v, l = u ++ v ∧ order l last = v ++ u := by
  cases last with
  | none => exact ⟨[], l, rfl, (List.append_nil l).symm⟩
  | some c =>
    obtain ⟨pre, post, rfl⟩ := List.append_of_mem (h.mem c rfl)
    refine ⟨pre ++ [c], post, by rw [List.append_assoc, List.singleton_append], ?_⟩
    rw [order_some h.notMem, List.append_assoc]

/-- The order has the same items. -/
theorem Valid.perm (h : Valid l last) : (order l last).Perm l := by
  obtain ⟨u, v, rfl, horder⟩ := h.exists_append
  rw [horder]
  exact List.perm_append_comm

/-- **The item that has its turn goes to the end.** -/
theorem Valid.order_turn (h : Valid l last) (horder : order l last = pre ++ c :: post) :
    order l (some c) = post ++ pre ++ [c] := by
  obtain ⟨u, v, rfl, huv⟩ := h.exists_append
  rw [horder] at huv
  -- the item is in the first part of the list, or in the second one
  rcases List.append_eq_append_iff.mp huv with ⟨w, rfl, hu⟩ | ⟨w, rfl, hu⟩
  · cases w with
    | nil =>
      obtain rfl : u = c :: post := by simpa using hu.symm
      rw [List.append_nil, List.cons_append]
      exact (order_some List.not_mem_nil).trans (by simp)
    | cons d w =>
      obtain ⟨rfl, rfl⟩ := List.cons.inj hu
      rw [← List.append_assoc] at h ⊢
      rw [order_some h.notMem]
      simp
  · subst hu
    rw [List.append_assoc, List.cons_append] at h ⊢
    rw [order_some h.notMem]
    simp

/-- An item that is added does not change the order of the others. -/
theorem Valid.order_add (h : Valid l last) (x : α) :
    (order l last).Sublist (order (l ++ [x]) last) := by
  cases last with
  | none => exact List.sublist_append_left l [x]
  | some c =>
    obtain ⟨pre, post, rfl⟩ := List.append_of_mem (h.mem c rfl)
    have hadd : pre ++ c :: post ++ [x] = pre ++ c :: (post ++ [x]) := by
      rw [List.append_assoc, List.cons_append]
    rw [hadd, order_some h.notMem, order_some h.notMem, List.append_assoc, List.append_assoc,
      List.append_assoc]
    exact (List.sublist_append_right [x] _).append_left post

/-- Nor does one that is taken out, if it did not have the last turn. -/
theorem Valid.order_remove (h : Valid l last) (hx : last ≠ some x) :
    order (l.filter fun y => y ≠ x) last = (order l last).filter fun y => y ≠ x := by
  cases last with
  | none => rfl
  | some c =>
    obtain ⟨pre, post, rfl⟩ := List.append_of_mem (h.mem c rfl)
    have hc : c ≠ x := fun heq => hx (congrArg some heq)
    have hnot : c ∉ pre.filter fun y => y ≠ x := fun hmem => h.notMem (List.mem_of_mem_filter hmem)
    rw [order_some h.notMem, List.filter_append, List.filter_cons_of_pos (by simpa using hc),
      order_some hnot, List.filter_append, List.filter_append]
    simp [hc]

end Order

/-! ## Who comes before whom -/

/-- `a` comes before `b`. -/
def Before (l : List α) (a b : α) : Prop := [a, b].Sublist l

variable {l l' pre post : List α} {a b c : α}

/-- Everybody comes before the last one. -/
theorem before_concat (h : a ∈ l) : Before (l ++ [b]) a b :=
  (List.singleton_sublist.mpr h).append (List.Sublist.refl [b])

theorem Before.mono (h : Before l a b) (hl : l.Sublist l') : Before l' a b := h.trans hl

theorem Before.filter (h : Before l a b) {p : α → Bool} (ha : p a = true) (hb : p b = true) :
    Before (l.filter p) a b := by
  have hsub := List.Sublist.filter p h
  rwa [List.filter_cons_of_pos ha, List.filter_cons_of_pos hb, List.filter_nil] at hsub

theorem Before.of_notMem (h : Before (pre ++ post) a b) (ha : a ∉ pre) : Before post a b := by
  obtain ⟨u, v, huv, hu, hv⟩ := List.sublist_append_iff.mp h
  cases u with
  | nil =>
    rw [List.nil_append] at huv
    rwa [← huv] at hv
  | cons d u =>
    obtain ⟨rfl, -⟩ := List.cons.inj huv
    exact (ha (hu.subset List.mem_cons_self)).elim

/-- **Who is before another one stays so when a third one before both has its turn.** -/
theorem Before.turn (h : Before (pre ++ c :: post) a b) (ha : a ∉ pre) (hne : a ≠ c) :
    Before (post ++ pre ++ [c]) a b := by
  have hpost : Before post a b := by
    refine @Before.of_notMem α [c] post a b (h.of_notMem ha) ?_
    exact fun hmem => hne (List.mem_singleton.mp hmem)
  rw [List.append_assoc]
  exact hpost.mono (List.sublist_append_left _ _)

/-- **Who is ready has the turn before those behind.** -/
theorem Before.find?_ne (h : Before l a b) (hnodup : l.Nodup) {p : α → Bool} (ha : p a = true) :
    l.find? p ≠ some b := by
  intro hfind
  obtain ⟨hb, pre, post, rfl, hpre⟩ := List.find?_eq_some_iff_append.mp hfind
  have hnot : a ∉ pre := fun hmem => by simpa [ha] using hpre a hmem
  have hrest : [a, b].Sublist (b :: post) := h.of_notMem hnot
  have hpost : b ∈ post := by
    cases hrest with
    | cons _ hsub => exact hsub.subset (List.mem_cons_of_mem a List.mem_cons_self)
    | cons_cons _ hsub => exact hsub.subset List.mem_cons_self
  exact (List.nodup_cons.mp (List.Nodup.of_append_right hnodup)).1 hpost

end RoundRobin
