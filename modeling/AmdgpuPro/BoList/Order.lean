import AmdgpuPro.BoList
import AmdgpuPro.Lib.BucketSort

set_option autoImplicit false

/-!
# The order of the buffer objects of a submission

`amdgpu_bo_list_get_list` puts the entries of a list into one bucket for each priority, and then the
buckets to the front of the output list. `amdgpu_bo_list_set` has bounded the priorities.

## Main definitions

* `Amdgpu.boListGetList` — the function.

## Main results

* `Amdgpu.boListSet_array` — the entries of a list that was set.
* `boListGetList_sorts` — the output list for such a list.
-/

namespace Amdgpu

/-- `AMDGPU_BO_LIST_NUM_BUCKETS` -/
def boListNumBuckets : ℕ := boListMaxPriority.toNat + 1

/-- The entries of the array; the priority in a slot of zeros is `0`. -/
def BoList.entries (list : BoList) : List BoListEntry := list.array.map (·.getD ⟨0, 0⟩)

/-- `amdgpu_bo_list_get_list`, or `none` if an entry is put into a bucket that does not exist. -/
def boListGetList (list : BoList) (validated : List BoListEntry) : Option (List BoListEntry) :=
  if ∀ entry ∈ list.entries, entry.priority.toNat < boListNumBuckets then
    let bucket := BucketSort.fill (·.priority.toNat) list.entries fun _ => []
    some (BucketSort.splice bucket boListNumBuckets validated)
  else none

theorem toNat_boListPriority_lt (priority : BitVec 32) :
    (boListPriority priority).toNat < boListNumBuckets := by
  unfold boListPriority boListNumBuckets
  split_ifs with hlt
  · exact Nat.lt_succ_of_lt hlt
  · exact Nat.lt_succ_self _

/-- The array of a list that was set has an entry in each slot, ordinary buffer objects in front. -/
theorem boListSet_array {env : BoListEnv} {infos : List BoListInfo} {st st' : BoListState}
    (h : boListSet env infos st = .ret st' none) : st'.list.array =
      (ordinaryEntries env infos ++ (userptrEntries env infos).reverse).map some := by
  obtain ⟨fill, r, hloop, hr, hfill⟩ := boListSetLoop_filled env infos
    (filled_init env infos.length st.held) (by simp [BoListFill.init])
  rw [boListSet, hloop] at h
  split_ifs at h
  · cases h
  cases r with
  | some e => cases h
  | none =>
    cases h
    have haccepted := hr.mp rfl
    rw [List.takeWhile_eq_self_iff.mpr haccepted, List.nil_append, List.append_nil] at hfill
    have hi : fill.i = infos.length := by
      rw [hfill.i, ← List.length_append, (entries_perm env infos).length_eq, List.length_map]
    rw [hfill.array, hi, Nat.sub_self, List.replicate_zero, List.nil_append, List.map_append]

/-- **The output list for a list that was set** starts with its entries, sorted by descending
priority; those of the same priority are in the order of the array. The entries that were on the
output list before come behind them. -/
theorem boListGetList_sorts {env : BoListEnv} {infos : List BoListInfo} {st st' : BoListState}
    (h : boListSet env infos st = .ret st' none) (validated : List BoListEntry) :
    ∃ entries sorted, st'.list.array = entries.map some ∧
      boListGetList st'.list validated = some (sorted ++ validated) ∧ sorted.Perm entries ∧
      sorted.Pairwise (fun a b => b.priority ≤ a.priority) ∧
      ∀ priority,
        sorted.filter (·.priority = priority) = entries.filter (·.priority = priority) := by
  have harray := boListSet_array h
  set entries := ordinaryEntries env infos ++ (userptrEntries env infos).reverse with hentries
  have hlist : st'.list.entries = entries := by
    rw [BoList.entries, harray, List.map_map]
    exact List.map_id'' (fun _ => rfl) entries
  have hlt : ∀ entry ∈ entries, entry.priority.toNat < boListNumBuckets := by
    intro entry hentry
    obtain ⟨info, -, rfl⟩ := List.mem_map.mp ((entries_perm env infos).mem_iff.mp hentry)
    exact toNat_boListPriority_lt _
  set bucket := BucketSort.fill (fun e : BoListEntry => e.priority.toNat) entries fun _ => []
    with hfill
  have hbucket : ∀ k, bucket k = entries.filter (·.priority.toNat = k) := fun k => by
    rw [hfill, BucketSort.fill_apply, List.nil_append]
  refine ⟨entries, BucketSort.splice bucket boListNumBuckets [], harray, ?_, ?_,
    BucketSort.pairwise_splice hbucket, fun priority => ?_⟩
  · rw [boListGetList, hlist, if_pos hlt, ← BucketSort.splice_eq_append]
  · refine (BucketSort.perm_splice hbucket).trans ?_
    rw [List.filter_eq_self.mpr fun entry hentry => decide_eq_true (hlt entry hentry)]
  · simp only [← BitVec.toNat_inj]
    by_cases hk : priority.toNat < boListNumBuckets
    · exact BucketSort.filter_splice hbucket _ hk
    · -- no entry has such a priority
      have hnil : ∀ xs : List BoListEntry, (∀ e ∈ xs, e ∈ entries) →
          xs.filter (fun e => decide (e.priority.toNat = priority.toNat)) = [] := fun xs hxs =>
        List.filter_eq_nil_iff.mpr fun e he heq => hk (of_decide_eq_true heq ▸ hlt e (hxs e he))
      rw [hnil _ fun e he => ((BucketSort.mem_splice hbucket).mp he).1, hnil _ fun _ => id]

/-- All handles are those of ordinary buffer objects with the same number. -/
def ordinaryEnv : BoListEnv where
  __ := userptrEnv
  lookup := fun handle => some handle.toNat
  usermm := fun _ => none

/-- Three buffer objects; the last one, with the highest priority, comes to the front. -/
theorem boListGetList_sorts_three : ∃ st' sorted,
    boListSet ordinaryEnv [⟨1, 5⟩, ⟨2, 5⟩, ⟨3, 100⟩] emptyBoList = .ret st' none ∧
      boListGetList st'.list [⟨9, 0⟩] = some (sorted ++ [⟨9, 0⟩]) ∧
      sorted = [⟨3, 32⟩, ⟨1, 5⟩, ⟨2, 5⟩] ∧
      sorted.Pairwise (fun a b => b.priority ≤ a.priority) := by
  have hset : ∃ st', boListSet ordinaryEnv [⟨1, 5⟩, ⟨2, 5⟩, ⟨3, 100⟩] emptyBoList = .ret st' none ∧
      boListGetList st'.list [⟨9, 0⟩] = some ([⟨3, 32⟩, ⟨1, 5⟩, ⟨2, 5⟩] ++ [⟨9, 0⟩]) :=
    ⟨_, rfl, by decide +kernel⟩
  obtain ⟨st', hset, hlist⟩ := hset
  obtain ⟨entries, sorted, -, hget, -, hsorted, -⟩ := boListGetList_sorts hset [⟨9, 0⟩]
  have heq := List.append_cancel_right (Option.some.inj (hget.symm.trans hlist))
  exact ⟨st', sorted, hset, hget, heq, hsorted⟩

end Amdgpu
