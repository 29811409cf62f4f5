import Mathlib.Tactic

set_option autoImplicit false

/-!
# Grouping by a representative

The elements of a list are put into groups: the first element that is in no group starts a new one,
and every later one that is related to it joins it. The groups are the classes of the relation when
the relation is transitive, and only then.

## Main definitions

* `Grouping.groups` — the groups, in the order of their first elements.
* `compact` — removes elements from a part of a list; the place of a removed element is taken by the
  last one.

## Main results

* `Grouping.groups_flatten_perm` — every element is in exactly one group.
* `groups_classes_iff` — the groups are the classes when the relation is transitive.
* `compact_perm` — what is left by a compaction.
-/

namespace Grouping

variable {α : Type}

/-- The groups of a list. The number of groups is at most the first argument. -/
def groups (rel : α → α → Bool) : ℕ → List α → List (List α)
  | 0, _ => []
  | _ + 1, [] => []
  | n + 1, x :: rest =>
    (x :: rest.filter (rel · x)) :: groups rel n (rest.filter fun y => !rel y x)

variable {rel : α → α → Bool} {n : ℕ} {l : List α}

/-- **Every element is in one group.** -/
theorem groups_flatten_perm (hn : l.length ≤ n) : (groups rel n l).flatten.Perm l := by
  induction n generalizing l with
  | zero =>
    rw [List.eq_nil_of_length_eq_zero (Nat.le_zero.mp hn)]
    exact .nil
  | succ n ih =>
    cases l with
    | nil => exact .nil
    | cons x rest =>
      have hrest : (rest.filter fun y => !rel y x).length ≤ n :=
        (List.length_filter_le _ _).trans (Nat.le_of_succ_le_succ hn)
      rw [groups, List.flatten_cons, List.cons_append]
      exact ((ih hrest).append_left _).cons x |>.trans ((List.filter_append_perm _ _).cons x)

/-- Every element of a group is an element of the list. -/
theorem mem_of_mem_groups {g : List α} {x : α} (hn : l.length ≤ n) (hg : g ∈ groups rel n l)
    (hx : x ∈ g) : x ∈ l :=
  (groups_flatten_perm hn).subset (List.mem_flatten_of_mem hg hx)

/-- The groups of a list without duplicates are disjoint. -/
theorem groups_disjoint (hn : l.length ≤ n) (hl : l.Nodup) :
    (groups rel n l).Pairwise List.Disjoint :=
  (List.nodup_flatten.mp ((groups_flatten_perm hn).nodup_iff.mpr hl)).2

/-- For a transitive relation the groups are the classes. -/
theorem groups_classes (hn : l.length ≤ n) (hrefl : ∀ x ∈ l, rel x x = true)
    (hsymm : ∀ x y, rel x y = true → rel y x = true)
    (htrans : ∀ x ∈ l, ∀ y ∈ l, ∀ z ∈ l, rel x y = true → rel y z = true → rel x z = true) :
    ∀ g ∈ groups rel n l, (∀ x ∈ g, ∀ y ∈ g, rel x y = true) ∧
      ∀ x ∈ g, ∀ y ∈ l, rel y x = true → y ∈ g := by
  induction n generalizing l with
  | zero => exact fun g hg => by cases hg
  | succ n ih =>
    cases l with
    | nil => exact fun g hg => by cases hg
    | cons x rest =>
      -- an element of the first group is related to the representative
      have hfirst : ∀ y ∈ x :: rest.filter (rel · x), y ∈ x :: rest ∧ rel y x = true := by
        intro y hy
        rcases List.mem_cons.mp hy with rfl | hy
        · exact ⟨List.mem_cons_self, hrefl y List.mem_cons_self⟩
        · exact ⟨List.mem_cons_of_mem _ (List.mem_filter.mp hy).1, (List.mem_filter.mp hy).2⟩
      have hin : ∀ y ∈ x :: rest, rel y x = true → y ∈ x :: rest.filter (rel · x) := by
        intro y hy hrel
        rcases List.mem_cons.mp hy with rfl | hy
        · exact List.mem_cons_self
        · exact List.mem_cons_of_mem _ (List.mem_filter.mpr ⟨hy, hrel⟩)
      have hrest : (rest.filter fun y => !rel y x).length ≤ n :=
        (List.length_filter_le _ _).trans (Nat.le_of_succ_le_succ hn)
      have hsub : ∀ y ∈ rest.filter (fun y => !rel y x), y ∈ x :: rest ∧ ¬ rel y x = true := by
        intro y hy
        obtain ⟨hy, hrel⟩ := List.mem_filter.mp hy
        exact ⟨List.mem_cons_of_mem _ hy, by simpa using hrel⟩
      intro g hg
      rcases List.mem_cons.mp hg with rfl | hg
      · constructor
        · intro y hy z hz
          obtain ⟨hy, hyx⟩ := hfirst y hy
          obtain ⟨hz, hzx⟩ := hfirst z hz
          exact htrans y hy x List.mem_cons_self z hz hyx (hsymm z x hzx)
        · intro y hy z hz hzy
          obtain ⟨hy, hyx⟩ := hfirst y hy
          exact hin z hz (htrans z hz y hy x List.mem_cons_self hzy hyx)
      · obtain ⟨hpair, hall⟩ := ih hrest (fun y hy => hrefl y (hsub y hy).1)
          (fun y hy z hz w hw => htrans y (hsub y hy).1 z (hsub z hz).1 w (hsub w hw).1) g hg
        refine ⟨hpair, fun y hy z hz hzy => hall y hy z ?_ hzy⟩
        -- what is related to an element of a later group is not related to the representative
        obtain ⟨hyl, hyx⟩ := hsub y (mem_of_mem_groups hrest hg hy)
        have hzx : ¬ rel z x = true := fun h =>
          hyx (htrans y hyl z hz x List.mem_cons_self (hsymm z y hzy) h)
        rcases List.mem_cons.mp hz with rfl | hz
        · exact absurd (hrefl z List.mem_cons_self) hzx
        · exact List.mem_filter.mpr ⟨hz, by simpa using hzx⟩

/-- **The groups are the classes** of a reflexive and symmetric relation exactly when it is
transitive on the list. -/
theorem groups_classes_iff (hn : l.length ≤ n) (hrefl : ∀ x ∈ l, rel x x = true)
    (hsymm : ∀ x y, rel x y = true → rel y x = true) :
    (∀ g ∈ groups rel n l, (∀ x ∈ g, ∀ y ∈ g, rel x y = true) ∧
      ∀ x ∈ g, ∀ y ∈ l, rel y x = true → y ∈ g) ↔
    ∀ x ∈ l, ∀ y ∈ l, ∀ z ∈ l, rel x y = true → rel y z = true → rel x z = true := by
  refine ⟨fun h x hx y hy z hz hxy hyz => ?_, groups_classes hn hrefl hsymm⟩
  obtain ⟨g, hg, hyg⟩ := List.mem_flatten.mp ((groups_flatten_perm hn).symm.subset hy)
  obtain ⟨hpair, hall⟩ := h g hg
  exact hpair x (hall y hyg x hx hxy) z (hall y hyg z hz (hsymm y z hyz))

/-! ## Compaction -/

/-- Remove the elements with a property from the index `j` on. The place of a removed element is
taken by the last one, which is looked at next. -/
def compact (p : α → Bool) : ℕ → ℕ → List α → List α
  | 0, _, l => l
  | n + 1, j, l =>
    match l[j]? with
    | none => l
    | some x =>
      if p x then
        match l.getLast? with
        | none => l
        | some y => compact p n j (l.set j y).dropLast
      else compact p n (j + 1) l

/-- After the end of the list there is nothing to remove. -/
theorem compact_of_length_le (p : α → Bool) {j : ℕ} (h : l.length ≤ j) : compact p n j l = l := by
  cases n with
  | zero => rfl
  | succ n => rw [compact, List.getElem?_eq_none h]

/-- **A compaction** leaves the elements before the index, and after them those without the
property, in some order. -/
theorem compact_perm (p : α → Bool) (front back : List α) (hn : back.length ≤ n) :
    ∃ t, compact p n front.length (front ++ back) = front ++ t ∧
      t.Perm (back.filter fun x => !p x) := by
  induction n generalizing front back with
  | zero =>
    rw [List.eq_nil_of_length_eq_zero (Nat.le_zero.mp hn)]
    exact ⟨[], rfl, .nil⟩
  | succ n ih =>
    cases back with
    | nil => exact ⟨[], by simp [compact], .nil⟩
    | cons x back =>
      have hx : (front ++ x :: back)[front.length]? = some x := by simp
      by_cases hp : p x = true
      · rw [List.filter_cons_of_neg (by simp [hp])]
        rcases back.eq_nil_or_concat' with rfl | ⟨init, y, rfl⟩
        · obtain ⟨t, ht, hperm⟩ := ih front [] (Nat.zero_le _)
          refine ⟨t, ?_, hperm⟩
          rw [compact, hx, ← ht]
          simp [hp]
        · have hlen : (y :: init).length ≤ n := by
            simp only [List.length_cons, List.length_append, List.length_nil] at hn ⊢
            omega
          have hlast : (front ++ x :: (init ++ [y])).getLast? = some y := by
            rw [← List.cons_append, ← List.append_assoc, List.getLast?_concat]
          have hset : ((front ++ x :: (init ++ [y])).set front.length y).dropLast =
              front ++ y :: init := by
            rw [List.set_append_right _ _ le_rfl, Nat.sub_self, List.set_cons_zero,
              ← List.cons_append, ← List.append_assoc, List.dropLast_concat]
          obtain ⟨t, ht, hperm⟩ := ih front (y :: init) hlen
          refine ⟨t, ?_, hperm.trans ((List.perm_append_singleton y init).symm.filter _)⟩
          simp only [compact, hx, hp, if_true, hlast, hset]
          exact ht
      · have hlen : back.length ≤ n := Nat.le_of_succ_le_succ hn
        obtain ⟨t, ht, hperm⟩ := ih (front ++ [x]) back hlen
        rw [List.length_append, List.length_singleton, List.append_assoc, List.singleton_append]
          at ht
        refine ⟨x :: t, ?_, ?_⟩
        · simp only [compact, hx, hp, Bool.false_eq_true, if_false, ht]
          rw [List.append_assoc, List.singleton_append]
        · rw [List.filter_cons_of_pos (by simp [hp])]
          exact hperm.cons x

end Grouping
