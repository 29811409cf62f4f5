import AmdgpuPro.Kfd.Events
import AmdgpuPro.Lib.RangeMap

set_option autoImplicit false

/-!
# Identifiers and slots of events

A signal event gets a slot of a page, and its identifier is made of the two numbers. All other
events get a number from a range of their own, which is searched from the last one on and then from
the start. Pages are never given back, but there is only one: as many signal events as a page has
slots are allowed.

## Main definitions

* `Amdkfd.EventTable` — the pages and the events of a process.

## Main results

* `Amdkfd.EventTable.makeNonsignalEventId_spec` — the number that is found is not in use, and one is
  found unless all are.
* `eventTable_ok` — all sequences of calls.

## Design

The calls hold `event_mutex`. The hash table is the list of the events in it. A page is known by its
address, and what `kzalloc` and `__get_free_pages` answer is an argument of the calls.
-/

namespace Amdkfd

open Amdgpu (Errno Outcome)
open RangeMap Transition

/-- `KFD_SIGNAL_EVENT_LIMIT`, which is `SLOTS_PER_PAGE` -/
def signalEventLimit : ℕ := 256

/-- `KFD_FIRST_NONSIGNAL_EVENT_ID` -/
def firstNonsignalEventId : ℕ := 0x80000000

/-- `KFD_LAST_NONSIGNAL_EVENT_ID` -/
def lastNonsignalEventId : ℕ := 0xFFFFFFFF

/-- `struct signal_page`, with its address -/
structure SignalPage where
  ptr : ℕ
  pageIndex : ℕ
  freeSlots : ℕ
  usedSlotBitmap : ℕ → Bool

/-- The fields of `struct kfd_event` that say which one it is; `signalSlot` is `signal_page` and
`signal_slot_index`, if `signal_page` is not `NULL`. -/
structure EventName where
  eventId : ℕ
  signalSlot : Option (ℕ × ℕ)
  deriving DecidableEq

/-- The fields of `struct kfd_process` for events. -/
structure EventTable where
  signalEventPages : List SignalPage
  events : List EventName
  nextNonsignalEventId : ℕ
  signalEventCount : ℕ

/-- What the allocations of a call answer. -/
structure EventMemory where
  event : Bool
  page : Bool
  backingStore : Bool

/-- `kfd_event_init_process` -/
def EventTable.init : EventTable where
  signalEventPages := []
  events := []
  nextNonsignalEventId := firstNonsignalEventId
  signalEventCount := 0

/-! ## Slots -/

/-- `__set_bit`, and one slot less is free. -/
def SignalPage.mark (page : SignalPage) (slot : ℕ) : SignalPage :=
  { page with
    usedSlotBitmap := Function.update page.usedSlotBitmap slot true
    freeSlots := page.freeSlots - 1 }

/-- `__clear_bit`, and one slot more is free. -/
def SignalPage.unmark (page : SignalPage) (slot : ℕ) : SignalPage :=
  { page with
    usedSlotBitmap := Function.update page.usedSlotBitmap slot false
    freeSlots := page.freeSlots + 1 }

/-- `allocate_free_slot`: the pages afterwards, the page and the slot -/
def allocateFreeSlot : List SignalPage → Option (List SignalPage × SignalPage × ℕ)
  | [] => none
  | page :: pages =>
    if 0 < page.freeSlots then
      let slot := nextClear page.usedSlotBitmap signalEventLimit 0
      some (page.mark slot :: pages, page, slot)
    else
      match allocateFreeSlot pages with
      | none => none
      | some (pages, found, slot) => some (page :: pages, found, slot)

/-- A page from `kzalloc`. -/
def SignalPage.fresh (ptr pageIndex : ℕ) : SignalPage where
  ptr := ptr
  pageIndex := pageIndex
  freeSlots := signalEventLimit
  usedSlotBitmap := fun _ => false

/-- `allocate_signal_page`; the index is one more than that of the last page of the list. -/
def allocateSignalPage (mem : EventMemory) (pages : List SignalPage) : Option (List SignalPage) :=
  if !mem.page then none
  else if !mem.backingStore then none
  else
    let index := match pages.getLast? with
      | none => 0
      | some last => last.pageIndex + 1
    some (.fresh pages.length index :: pages)

/-- `allocate_event_notification_slot` -/
def allocateEventNotificationSlot (mem : EventMemory) (pages : List SignalPage) :
    Option (List SignalPage × SignalPage × ℕ) :=
  match allocateFreeSlot pages with
  | some result => some result
  | none =>
    match allocateSignalPage mem pages with
    | none => none
    | some pages => allocateFreeSlot pages

/-- `release_event_notification_slot` -/
def releaseEventNotificationSlot (ptr slot : ℕ) (pages : List SignalPage) : List SignalPage :=
  pages.map fun page => if page.ptr = ptr then page.unmark slot else page

/-! ## Identifiers -/

/-- `make_signal_event_id` -/
def makeSignalEventId (page : SignalPage) (slot : ℕ) : ℕ := page.pageIndex ||| slot

namespace EventTable

/-- `lookup_event_by_id` -/
def lookupEventById (s : EventTable) (id : ℕ) : Option EventName :=
  s.events.find? (·.eventId = id)

/-- The identifier is in use. -/
def taken (s : EventTable) (id : ℕ) : Bool := (s.lookupEventById id).isSome

/-- `make_nonsignal_event_id`: the identifier, or `0`, and the next one to start from -/
def makeNonsignalEventId (s : EventTable) : ℕ × ℕ :=
  let id := nextClear s.taken lastNonsignalEventId s.nextNonsignalEventId
  if id < lastNonsignalEventId then (id, id + 1)
  else
    let id := nextClear s.taken lastNonsignalEventId firstNonsignalEventId
    if id < lastNonsignalEventId then (id, id + 1) else (0, firstNonsignalEventId)

/-! ## The calls -/

/-- `create_signal_event`, and `hash_add` -/
def createSignalEvent (s : EventTable) (mem : EventMemory) : Outcome EventTable :=
  if s.signalEventCount = signalEventLimit then .ret s (some .ENOMEM)
  else
    match allocateEventNotificationSlot mem s.signalEventPages with
    | none => .ret s (some .ENOMEM)
    | some (pages, page, slot) =>
      .ret { s with
        signalEventPages := pages
        signalEventCount := s.signalEventCount + 1
        events := ⟨makeSignalEventId page slot, some (page.ptr, slot)⟩ :: s.events } none

/-- `create_other_event`, and `hash_add` -/
def createOtherEvent (s : EventTable) : Outcome EventTable :=
  let made := s.makeNonsignalEventId
  if made.1 = 0 then .ret { s with nextNonsignalEventId := made.2 } (some .ENOMEM)
  else .ret { s with nextNonsignalEventId := made.2, events := ⟨made.1, none⟩ :: s.events } none

end EventTable

/-- `kfd_event_create` -/
def kfdEventCreate (s : EventTable) (type : KfdEventType) (mem : EventMemory) :
    Outcome EventTable :=
  if !mem.event then .ret s (some .ENOMEM)
  else
    match type with
    | .signal => s.createSignalEvent mem
    | .debug => s.createSignalEvent mem
    | _ => s.createOtherEvent

/-- `destroy_event` -/
def destroyEvent (s : EventTable) (ev : EventName) : EventTable :=
  let s := match ev.signalSlot with
    | none => s
    | some (ptr, slot) => { s with
        signalEventPages := releaseEventNotificationSlot ptr slot s.signalEventPages
        signalEventCount := s.signalEventCount - 1 }
  { s with events := s.events.eraseP (·.eventId = ev.eventId) }

/-- `kfd_event_destroy` -/
def kfdEventDestroy (s : EventTable) (eventId : ℕ) : Outcome EventTable :=
  match s.lookupEventById eventId with
  | some ev => .ret (destroyEvent s ev) none
  | none => .ret s (some .EINVAL)

/-- The calls of a process. -/
inductive EventCall
  | create (type : KfdEventType) (mem : EventMemory)
  | destroy (eventId : ℕ)

/-- A call. -/
def EventTable.call (s : EventTable) : EventCall → Outcome EventTable
  | .create type mem => kfdEventCreate s type mem
  | .destroy eventId => kfdEventDestroy s eventId

/-! ## What should hold -/

/-- Events have different identifiers; signal events have different slots, which are in use; pages
know how many slots are free; and an event that needs no slot fails for lack of an identifier only
if all are in use. -/
structure EventTable.Ok (s : EventTable) : Prop where
  ids : s.events.Pairwise fun ev ev' => ev.eventId ≠ ev'.eventId
  slots : s.events.Pairwise fun ev ev' =>
    ∀ slot, ev.signalSlot = some slot → ev'.signalSlot ≠ some slot
  used : ∀ ev ∈ s.events, ∀ ptr slot, ev.signalSlot = some (ptr, slot) →
    ∃ page ∈ s.signalEventPages, page.ptr = ptr ∧ slot < signalEventLimit ∧
      page.usedSlotBitmap slot = true
  free : ∀ page ∈ s.signalEventPages,
    page.freeSlots = clearCount page.usedSlotBitmap signalEventLimit
  exhausted : ∀ s', s.createOtherEvent = .ret s' (some .ENOMEM) →
    ∀ id, firstNonsignalEventId ≤ id → id < lastNonsignalEventId →
      ∃ ev ∈ s.events, ev.eventId = id

namespace EventTable

variable {s s' : EventTable} {page : SignalPage}

theorem taken_iff {id : ℕ} : s.taken id = true ↔ ∃ ev ∈ s.events, ev.eventId = id := by
  simp [taken, lookupEventById]

/-- **The search for an identifier**: what it finds is not in use, and it finds one unless all of
them are in use. -/
theorem makeNonsignalEventId_spec (hfirst : firstNonsignalEventId ≤ s.nextNonsignalEventId)
    (hlast : s.nextNonsignalEventId ≤ lastNonsignalEventId) :
    firstNonsignalEventId ≤ s.makeNonsignalEventId.2 ∧
    s.makeNonsignalEventId.2 ≤ lastNonsignalEventId ∧
    (firstNonsignalEventId ≤ s.makeNonsignalEventId.1 ∧ s.taken s.makeNonsignalEventId.1 = false ∨
      s.makeNonsignalEventId.1 = 0 ∧
        ∀ id, firstNonsignalEventId ≤ id → id < lastNonsignalEventId → s.taken id = true) := by
  have hle : firstNonsignalEventId ≤ lastNonsignalEventId := by decide
  obtain ⟨hge₁, -, -, hfree₁⟩ := nextClear_spec s.taken hlast
  obtain ⟨hge₂, hle₂, hskip₂, hfree₂⟩ := nextClear_spec s.taken hle
  rw [makeNonsignalEventId]
  dsimp only
  split_ifs with h₁ h₂
  · exact ⟨by omega, h₁, .inl ⟨hfirst.trans hge₁, hfree₁ h₁⟩⟩
  · exact ⟨by omega, h₂, .inl ⟨hge₂, hfree₂ h₂⟩⟩
  · exact ⟨le_rfl, hle, .inr ⟨rfl, fun id hid hid' => hskip₂ id hid (by omega)⟩⟩

/-! ## The invariant -/

/-- The one page: its free slots are those of the events that may still be created, and the
identifier of a signal event is its slot. -/
structure PageOk (s : EventTable) (page : SignalPage) : Prop where
  ptr : page.ptr = 0
  index : page.pageIndex = 0
  free : page.freeSlots = clearCount page.usedSlotBitmap signalEventLimit
  count : s.signalEventCount + page.freeSlots = signalEventLimit
  used : ∀ ev ∈ s.events, ∀ ptr slot, ev.signalSlot = some (ptr, slot) →
    ptr = 0 ∧ slot < signalEventLimit ∧ ev.eventId = slot ∧ page.usedSlotBitmap slot = true

/-- There is one page, or it is still to come. -/
structure Inv (s : EventTable) : Prop where
  ids : s.events.Pairwise fun ev ev' => ev.eventId ≠ ev'.eventId
  other : ∀ ev ∈ s.events, ev.signalSlot = none → firstNonsignalEventId ≤ ev.eventId
  first : firstNonsignalEventId ≤ s.nextNonsignalEventId
  last : s.nextNonsignalEventId ≤ lastNonsignalEventId
  page : ∃ page, s.PageOk page ∧
    (s.signalEventPages = [page] ∨ s.signalEventPages = [] ∧ page = .fresh 0 0)

theorem Inv.init : EventTable.init.Inv where
  ids := .nil
  other _ h := absurd h List.not_mem_nil
  first := le_rfl
  last := by decide
  page := ⟨.fresh 0 0, ⟨rfl, rfl, by simp [SignalPage.fresh, clearCount], rfl,
    fun _ h => absurd h List.not_mem_nil⟩, .inr ⟨rfl, rfl⟩⟩

/-- What is invariant is what should hold. -/
theorem Inv.ok (h : s.Inv) : s.Ok := by
  obtain ⟨page, hpage, hpages⟩ := h.page
  refine ⟨h.ids, ?_, ?_, ?_, ?_⟩
  · refine h.ids.imp_of_mem fun {ev ev'} hev hev' hne slot hslot hslot' => hne ?_
    rw [(hpage.used ev hev _ _ hslot).2.2.1, (hpage.used ev' hev' _ _ hslot').2.2.1]
  · intro ev hev ptr slot hslot
    obtain ⟨rfl, hlt, -, hused⟩ := hpage.used ev hev ptr slot hslot
    rcases hpages with hpages | ⟨-, rfl⟩
    · exact ⟨page, by simp [hpages], hpage.ptr, hlt, hused⟩
    · simp [SignalPage.fresh] at hused
  · intro page' hmem
    rcases hpages with hpages | ⟨hpages, -⟩
    · rw [hpages, List.mem_singleton] at hmem
      exact hmem ▸ hpage.free
    · simp [hpages] at hmem
  · intro s' hs' id hid hid'
    obtain ⟨-, -, ⟨hge, -⟩ | ⟨-, hall⟩⟩ := makeNonsignalEventId_spec h.first h.last
    · have hne : s.makeNonsignalEventId.1 ≠ 0 := by
        have : 0 < firstNonsignalEventId := by decide
        omega
      simp [createOtherEvent, hne] at hs'
    · exact taken_iff.mp (hall id hid hid')

/-- The slot that a new signal event gets is free, and is marked. -/
theorem Inv.allocate (h : s.Inv) (hcount : s.signalEventCount ≠ signalEventLimit)
    {mem : EventMemory} {pages : List SignalPage} {slot : ℕ}
    (halloc : allocateEventNotificationSlot mem s.signalEventPages = some (pages, page, slot)) :
    s.PageOk page ∧ slot < signalEventLimit ∧ page.usedSlotBitmap slot = false ∧
      pages = [page.mark slot] := by
  obtain ⟨page', hpage, hpages⟩ := h.page
  have hfree : 0 < page'.freeSlots := by
    have := hpage.count
    omega
  obtain ⟨i, hi, hclear⟩ := exists_clear (hpage.free ▸ hfree)
  have hslot := nextClear_lt (Nat.zero_le i) hi hclear
  have hfound := (nextClear_spec page'.usedSlotBitmap (Nat.zero_le signalEventLimit)).2.2.2 hslot
  have hone : allocateEventNotificationSlot mem s.signalEventPages = none ∨
      allocateEventNotificationSlot mem s.signalEventPages = allocateFreeSlot [page'] := by
    rcases hpages with hpages | ⟨hpages, rfl⟩
    · simp [hpages, allocateEventNotificationSlot, allocateFreeSlot, hfree]
    · have hnil : allocateFreeSlot [] = none := rfl
      simp only [hpages, allocateEventNotificationSlot, hnil, allocateSignalPage]
      split_ifs
      · exact .inl rfl
      · exact .inl rfl
      · exact .inr rfl
  rcases hone with hnone | hone
  · simp [hnone] at halloc
  · rw [hone, allocateFreeSlot, if_pos hfree] at halloc
    obtain ⟨rfl, rfl, rfl⟩ : _ ∧ page' = page ∧ _ := by simpa using halloc
    exact ⟨hpage, hslot, hfound, rfl⟩

theorem Inv.createSignalEvent (h : s.Inv) (mem : EventMemory) :
    (s.createSignalEvent mem).state.Inv := by
  rw [EventTable.createSignalEvent]
  split_ifs with hcount
  · exact h
  · split
    · exact h
    · next pages page slot halloc =>
      obtain ⟨hpage, hlt, hclear, rfl⟩ := h.allocate hcount halloc
      have hid : makeSignalEventId page slot = slot := by simp [makeSignalEventId, hpage.index]
      have hset := clearCount_set hlt hclear
      have hfree := hpage.free
      have hsum := hpage.count
      refine ⟨.cons (fun ev hev => ?_) h.ids, ?_, h.first, h.last, page.mark slot,
        ⟨hpage.ptr, hpage.index, ?_, ?_, ?_⟩, .inl rfl⟩
      · -- the slots of the other events are marked, and the others have larger identifiers
        rw [hid]
        rintro rfl
        rcases hslot : ev.signalSlot with _ | ⟨ptr, slot⟩
        · have hother := h.other ev hev hslot
          have : signalEventLimit ≤ firstNonsignalEventId := by decide
          omega
        · obtain ⟨-, -, heq, hused⟩ := hpage.used ev hev ptr slot hslot
          simp [← heq, hclear] at hused
      · intro ev hev hslot
        rcases List.mem_cons.mp hev with rfl | hev
        · cases hslot
        · exact h.other ev hev hslot
      · show page.freeSlots - 1 = clearCount (Function.update page.usedSlotBitmap slot true) _
        omega
      · show s.signalEventCount + 1 + (page.freeSlots - 1) = signalEventLimit
        omega
      · intro ev hev ptr slot' hslot'
        rcases List.mem_cons.mp hev with rfl | hev
        · cases hslot'
          exact ⟨hpage.ptr, hlt, hid, Function.update_self ..⟩
        · obtain ⟨hptr, hlt', heq, hused⟩ := hpage.used ev hev ptr slot' hslot'
          refine ⟨hptr, hlt', heq, ?_⟩
          show Function.update page.usedSlotBitmap slot true slot' = true
          rw [Function.update_apply, hused, ite_self]

theorem Inv.createOtherEvent (h : s.Inv) : s.createOtherEvent.state.Inv := by
  obtain ⟨hfirst, hlast, hfound⟩ := makeNonsignalEventId_spec h.first h.last
  obtain ⟨page, hpage, hpages⟩ := h.page
  simp only [EventTable.createOtherEvent]
  split_ifs with hzero
  · exact ⟨h.ids, h.other, hfirst, hlast, page, ⟨hpage.ptr, hpage.index, hpage.free, hpage.count,
      hpage.used⟩, hpages⟩
  · obtain ⟨hge, hfree⟩ := hfound.resolve_right fun hnone => hzero hnone.1
    refine ⟨.cons (fun ev hev heq => ?_) h.ids, ?_, hfirst, hlast, page, ⟨hpage.ptr, hpage.index,
      hpage.free, hpage.count, ?_⟩, hpages⟩
    · rw [taken_iff.mpr ⟨ev, hev, heq.symm⟩] at hfree
      cases hfree
    · intro ev hev hslot
      rcases List.mem_cons.mp hev with rfl | hev
      · exact hge
      · exact h.other ev hev hslot
    · intro ev hev ptr slot hslot
      rcases List.mem_cons.mp hev with rfl | hev
      · cases hslot
      · exact hpage.used ev hev ptr slot hslot

/-- The events that are left have other identifiers. -/
theorem eventId_ne {evs : List EventName} {id : ℕ} {ev : EventName}
    (hids : evs.Pairwise fun ev ev' => ev.eventId ≠ ev'.eventId)
    (hev : ev ∈ evs.eraseP (·.eventId = id)) : ev.eventId ≠ id := by
  induction evs with
  | nil => simp at hev
  | cons first rest ih =>
    obtain ⟨hfirst, hrest⟩ := List.pairwise_cons.mp hids
    by_cases heq : first.eventId = id
    · rw [List.eraseP_cons_of_pos (by simpa using heq)] at hev
      exact heq ▸ (hfirst ev hev).symm
    · rw [List.eraseP_cons_of_neg (by simpa using heq)] at hev
      rcases List.mem_cons.mp hev with rfl | hev
      · exact heq
      · exact ih hrest hev

theorem Inv.destroyEvent (h : s.Inv) {ev : EventName} (hev : ev ∈ s.events) :
    (destroyEvent s ev).Inv := by
  obtain ⟨page, hpage, hpages⟩ := h.page
  have hsub : ∀ {ev'}, ev' ∈ s.events.eraseP (·.eventId = ev.eventId) → ev' ∈ s.events :=
    fun hmem => List.mem_of_mem_eraseP hmem
  have hids := h.ids.sublist (List.eraseP_sublist (p := (·.eventId = ev.eventId)))
  rw [Amdkfd.destroyEvent]
  rcases hslot : ev.signalSlot with _ | ⟨ptr, slot⟩
  · exact ⟨hids, fun ev' hev' => h.other ev' (hsub hev'), h.first, h.last, page, ⟨hpage.ptr,
      hpage.index, hpage.free, hpage.count, fun ev' hev' => hpage.used ev' (hsub hev')⟩, hpages⟩
  · obtain ⟨rfl, hlt, heq, hused⟩ := hpage.used ev hev ptr slot hslot
    rcases hpages with hpages | ⟨-, rfl⟩
    · have hclear := clearCount_clear hlt hused
      have hfree := hpage.free
      have hsum := hpage.count
      have hpos : 0 < s.signalEventCount := by
        have hle : clearCount (Function.update page.usedSlotBitmap slot false) signalEventLimit ≤
            signalEventLimit :=
          (Finset.card_filter_le _ _).trans_eq (Finset.card_range _)
        omega
      refine ⟨hids, fun ev' hev' => h.other ev' (hsub hev'), h.first, h.last, page.unmark slot,
        ⟨hpage.ptr, hpage.index, ?_, ?_, ?_⟩, .inl ?_⟩
      · show page.freeSlots + 1 = clearCount (Function.update page.usedSlotBitmap slot false) _
        omega
      · show s.signalEventCount - 1 + (page.freeSlots + 1) = signalEventLimit
        omega
      · intro ev' hev' ptr' slot' hslot'
        obtain ⟨hptr', hlt', heq', hused'⟩ := hpage.used ev' (hsub hev') ptr' slot' hslot'
        have hne : slot' ≠ slot := by
          rw [← heq', ← heq]
          exact eventId_ne h.ids hev'
        exact ⟨hptr', hlt', heq', (Function.update_of_ne hne ..).trans hused'⟩
      · show releaseEventNotificationSlot 0 slot s.signalEventPages = _
        rw [hpages, releaseEventNotificationSlot, List.map_singleton, if_pos hpage.ptr]
    · simp [SignalPage.fresh] at hused

/-- **Every call keeps the invariant.** -/
theorem Inv.call (h : s.Inv) (c : EventCall) : (s.call c).state.Inv := by
  cases c with
  | create type mem =>
    rw [EventTable.call, kfdEventCreate.eq_def]
    split_ifs
    · exact h
    · cases type with
      | signal => exact h.createSignalEvent mem
      | debug => exact h.createSignalEvent mem
      | hwException => exact h.createOtherEvent
      | memory => exact h.createOtherEvent
      | other type => exact h.createOtherEvent
  | destroy eventId =>
    rw [EventTable.call, kfdEventDestroy]
    split
    · next ev hfind => exact h.destroyEvent (List.mem_of_find?_eq_some hfind)
    · exact h

end EventTable

/-- **Events of a process**: after every sequence of calls, whether they fail or not, events have
different identifiers, signal events have different slots that are marked, the pages count their
free slots, and an identifier is missing only if all are in use. -/
theorem eventTable_ok {calls : List EventCall} {s : EventTable}
    (hrun : Run (fun s c s' => (s.call c).state = s') EventTable.init calls s) : s.Ok := by
  have hinv : s.Inv := by
    refine hrun.invariant EventTable.Inv (fun s c s' h hstep => ?_) EventTable.Inv.init
    rw [← hstep]
    exact h.call c
  exact hinv.ok

/-- Two signal events, of which the first is destroyed, and an event without a slot. -/
theorem eventTable_ok_three : ∃ s : EventTable, s.Ok ∧
    s.events = [⟨0x80000000, none⟩, ⟨1, some (0, 1)⟩] := by
  have hrun : ∃ s, Run (fun s c s' => (s.call c).state = s') EventTable.init
      [.create .signal ⟨true, true, true⟩, .create .debug ⟨true, true, true⟩, .destroy 0,
        .create .memory ⟨true, true, true⟩] s ∧
      s.events = [⟨0x80000000, none⟩, ⟨1, some (0, 1)⟩] :=
    ⟨_, .cons rfl (.cons rfl (.cons rfl (.cons rfl (.nil _)))), by decide +kernel⟩
  obtain ⟨s, hrun, hevents⟩ := hrun
  exact ⟨s, eventTable_ok hrun, hevents⟩

end Amdkfd
