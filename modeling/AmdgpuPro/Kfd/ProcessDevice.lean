import Mathlib.Tactic

set_option autoImplicit false

/-!
# The data of a process on a device

A process has a list with one entry for every device that it uses. `kfd_get_process_device_data`
looks for the entry of a device. It returns the cursor of `list_for_each_entry`: when the walk has
come to the end of the list without a match, the cursor is not `NULL`, but the address of a
structure that would have the head of the list as its list node. The callers ask for `NULL` only.

## Main definitions

* `Amdkfd.Pdd` — a pointer to the data of a process on a device.
* `KfdProcess` — the list of a process, and the memory that such pointers refer to.
* `kfdGetProcessDeviceData`, `kfdBindProcessToDevice`, `kfdUnbindProcessFromDevice` — the lookup and
  its callers.

## Main results

* `Amdkfd.processDevice_correct_iff` — the lookup and its callers do what they should exactly for
  the devices that the process has data for.
-/

namespace Amdkfd

/-- A pointer to a `struct kfd_process_device`, by the list node that it was computed from: `NULL`,
an entry of the list, or the head of the list in `struct kfd_process`. -/
inductive Pdd
  | null
  | entry (addr : ℕ)
  | head
  deriving DecidableEq

/-- `struct kfd_process_device`: the fields that the lookup and its callers use. -/
structure ProcessDevice where
  dev : ℕ
  bound : Bool
  resetWavefronts : Bool
  deriving DecidableEq

/-- `struct kfd_process`: the addresses of the entries of `per_device_data`, and what is read when
a pointer is followed. What `head` refers to is a part of the process structure. -/
structure KfdProcess where
  perDeviceData : List ℕ
  mem : Pdd → ProcessDevice

/-- The cursor of `list_for_each_entry` after the walk: the first entry where the loop is left by
`break`, or what is computed from the head of the list. -/
def listForEachEntry (found : ℕ → Bool) : List ℕ → Pdd
  | [] => .head
  | addr :: l => if found addr then .entry addr else listForEachEntry found l

/-- `kfd_get_process_device_data` -/
def kfdGetProcessDeviceData (dev : ℕ) (p : KfdProcess) : Pdd :=
  listForEachEntry (fun addr => (p.mem (.entry addr)).dev = dev) p.perDeviceData

/-- What a caller did: the pointer or the error that it returns, the memory after it, and the
pointers that it followed. -/
structure PddOutcome where
  result : Except ℤ Pdd
  mem : Pdd → ProcessDevice
  followed : List Pdd

/-- `-ENOMEM` -/
def enomem : ℤ := -12

/-- `kfd_bind_process_to_device`, where `amd_iommu_bind_pasid` returns `err`. -/
def kfdBindProcessToDevice (dev : ℕ) (p : KfdProcess) (err : ℤ) : PddOutcome :=
  let pdd := kfdGetProcessDeviceData dev p
  if pdd = .null then ⟨.error enomem, p.mem, []⟩
  else if (p.mem pdd).bound then ⟨.ok pdd, p.mem, [pdd]⟩
  else if err < 0 then ⟨.error err, p.mem, [pdd]⟩
  else ⟨.ok pdd, Function.update p.mem pdd { p.mem pdd with bound := true }, [pdd, pdd]⟩

/-- `kfd_unbind_process_from_device`, for the process with the address space identifier: the part
after `pqm_uninit`. -/
def kfdUnbindProcessFromDevice (dev : ℕ) (p : KfdProcess) : PddOutcome :=
  let pdd := kfdGetProcessDeviceData dev p
  if pdd = .null then ⟨.ok pdd, p.mem, []⟩
  else ⟨.ok pdd, Function.update p.mem pdd
    { p.mem pdd with bound := false, resetWavefronts := false }, [pdd, pdd]⟩

/-! ## What the functions should do -/

/-- The process has data for the device. -/
def KfdProcess.HasData (p : KfdProcess) (dev : ℕ) : Prop :=
  ∃ addr ∈ p.perDeviceData, (p.mem (.entry addr)).dev = dev

/-- The pointer is an entry of the list. -/
def KfdProcess.IsEntry (p : KfdProcess) (pdd : Pdd) : Prop :=
  ∃ addr ∈ p.perDeviceData, pdd = .entry addr

/-- The lookup returns an entry of the device, or `NULL` if there is none. -/
def LookupCorrect (dev : ℕ) (p : KfdProcess) : Prop :=
  (p.HasData dev → p.IsEntry (kfdGetProcessDeviceData dev p) ∧
      (p.mem (kfdGetProcessDeviceData dev p)).dev = dev) ∧
    (¬ p.HasData dev → kfdGetProcessDeviceData dev p = .null)

/-- Only entries of the list are followed, and the rest of the memory is left alone. -/
def PddOutcome.OnEntries (o : PddOutcome) (p : KfdProcess) : Prop :=
  (∀ pdd ∈ o.followed, p.IsEntry pdd) ∧ ∀ pdd, ¬ p.IsEntry pdd → o.mem pdd = p.mem pdd

/-- The lookup is right, both callers keep to the entries of the list, and a process cannot be bound
to a device that it has no data for. -/
def ProcessDeviceCorrect (dev : ℕ) (p : KfdProcess) (err : ℤ) : Prop :=
  LookupCorrect dev p ∧ (kfdBindProcessToDevice dev p err).OnEntries p ∧
    (kfdUnbindProcessFromDevice dev p).OnEntries p ∧
    (¬ p.HasData dev → (kfdBindProcessToDevice dev p err).result = .error enomem)

/-! ## The walk -/

/-- The walk stops at the first match, and comes to the head of the list if there is none. -/
theorem listForEachEntry_cases (found : ℕ → Bool) (l : List ℕ) :
    (∃ addr ∈ l, found addr = true ∧ listForEachEntry found l = .entry addr) ∨
      ((∀ addr ∈ l, found addr = false) ∧ listForEachEntry found l = .head) := by
  induction l with
  | nil => exact .inr ⟨List.forall_mem_nil _, rfl⟩
  | cons addr l ih =>
    rw [listForEachEntry]
    by_cases h : found addr = true
    · exact .inl ⟨addr, List.mem_cons_self, h, if_pos h⟩
    · rw [if_neg h]
      obtain ⟨addr', hmem, hfound, heq⟩ | ⟨hnone, heq⟩ := ih
      · exact .inl ⟨addr', List.mem_cons_of_mem _ hmem, hfound, heq⟩
      · refine .inr ⟨?_, heq⟩
        intro addr' hmem
        rcases List.mem_cons.mp hmem with rfl | hmem
        · exact Bool.eq_false_iff.mpr h
        · exact hnone addr' hmem

/-- **What the lookup returns**: the first entry of the device, or what is computed from the head of
the list. It never returns `NULL`. -/
theorem getProcessDeviceData_cases (dev : ℕ) (p : KfdProcess) :
    (p.IsEntry (kfdGetProcessDeviceData dev p) ∧
        (p.mem (kfdGetProcessDeviceData dev p)).dev = dev) ∨
      (¬ p.HasData dev ∧ kfdGetProcessDeviceData dev p = .head) := by
  obtain ⟨addr, hmem, hfound, heq⟩ | ⟨hnone, heq⟩ :=
    listForEachEntry_cases (fun addr => (p.mem (.entry addr)).dev = dev) p.perDeviceData
  · refine .inl ⟨⟨addr, hmem, heq⟩, ?_⟩
    rw [kfdGetProcessDeviceData, heq]
    exact of_decide_eq_true hfound
  · refine .inr ⟨?_, heq⟩
    rintro ⟨addr, hmem, hdev⟩
    exact of_decide_eq_false (hnone addr hmem) hdev

variable {dev : ℕ} {p : KfdProcess}

theorem KfdProcess.IsEntry.ne_null {pdd : Pdd} (h : p.IsEntry pdd) : pdd ≠ .null := by
  obtain ⟨addr, -, rfl⟩ := h
  exact Pdd.noConfusion

/-- An update of an entry leaves the rest of the memory alone. -/
theorem update_onEntries {pdd : Pdd} (h : p.IsEntry pdd) (d : ProcessDevice) {pdd' : Pdd}
    (h' : ¬ p.IsEntry pdd') : Function.update p.mem pdd d pdd' = p.mem pdd' := by
  apply Function.update_of_ne
  rintro rfl
  exact h' h

/-- Both callers keep to the entry that was found. -/
theorem bind_onEntries (h : p.IsEntry (kfdGetProcessDeviceData dev p)) (err : ℤ) :
    (kfdBindProcessToDevice dev p err).OnEntries p := by
  simp only [kfdBindProcessToDevice, if_neg h.ne_null]
  split_ifs
  · exact ⟨by simpa using h, fun _ _ => rfl⟩
  · exact ⟨by simpa using h, fun _ _ => rfl⟩
  · exact ⟨by simpa using h, fun _ => update_onEntries h _⟩

theorem unbind_onEntries (h : p.IsEntry (kfdGetProcessDeviceData dev p)) :
    (kfdUnbindProcessFromDevice dev p).OnEntries p := by
  simp only [kfdUnbindProcessFromDevice, if_neg h.ne_null]
  exact ⟨by simpa using h, fun _ => update_onEntries h _⟩

/-- **The lookup and its callers** do what they should exactly if the process has data for the
device. Without data they take a part of the process structure for an entry. -/
theorem processDevice_correct_iff (dev : ℕ) (p : KfdProcess) (err : ℤ) :
    ProcessDeviceCorrect dev p err ↔ p.HasData dev := by
  obtain ⟨hentry, hdev⟩ | ⟨hnone, hhead⟩ := getProcessDeviceData_cases dev p
  · have hdata : p.HasData dev := by
      obtain ⟨addr, hmem, heq⟩ := hentry
      exact ⟨addr, hmem, heq ▸ hdev⟩
    refine iff_of_true ⟨⟨fun _ => ⟨hentry, hdev⟩, fun h => absurd hdata h⟩,
      bind_onEntries hentry err, unbind_onEntries hentry, fun h => absurd hdata h⟩ hdata
  · refine iff_of_false ?_ hnone
    rintro ⟨hlookup, -⟩
    have hnull := hlookup.2 hnone
    rw [hhead] at hnull
    cases hnull

/-- A process without any data is bound to a device, in its own process structure. -/
theorem bind_without_data :
    ¬ (⟨[], fun _ => ⟨0, false, false⟩⟩ : KfdProcess).HasData 7 ∧
      (kfdBindProcessToDevice 7 ⟨[], fun _ => ⟨0, false, false⟩⟩ 0).result.toOption = some .head ∧
      (kfdBindProcessToDevice 7 ⟨[], fun _ => ⟨0, false, false⟩⟩ 0).followed = [.head, .head] ∧
      ((kfdBindProcessToDevice 7 ⟨[], fun _ => ⟨0, false, false⟩⟩ 0).mem .head).bound = true := by
  refine ⟨?_, rfl, rfl, rfl⟩
  rintro ⟨addr, hmem, -⟩
  cases hmem

end Amdkfd
