import Ra2yrcpp.StateContext

/-!
# The event that `add_event` returns

`EventListUtil::convert_event` on the slot before the new tail, and the reply of the `AddEvent`
command (`commands_yr.cpp`).  An `EventEntry` points into the ring, so its index says which of the
slots it is.
-/

namespace Ra2yrcpp.StateContext

variable {EventType : Type} [DecidableEq EventType] {Y : YRpp EventType} {g : Game}
  {types : List ObjectTypeClass} {L L' : EventLists EventType} {ev : Event} {frameDelay : UInt32}
  {spoof filterDuplicates : Bool} {r : EventEntry EventType}

omit [DecidableEq EventType] in
/-- `EventClass::AddEvent` fills the slot at the tail and moves the tail on. -/
def AddsAtTail (Y : YRpp EventType) : Prop :=
  ∀ E ts C out, Y.addEvent E ts C = some out →
    out.list C.tail = E ∧ out.timings C.tail = ts ∧ out.tail = (C.tail + 1) % 128

/-- The entry is the slot that was the tail, with the event and the time given to `AddEvent`. -/
def IsAddedEvent (Y : YRpp EventType) (g : Game) (L : EventLists EventType) (ev : Event)
    (frameDelay : UInt32) (spoof : Bool) (r : EventEntry EventType) : Prop :=
  r.index = L.outList.tail ∧ r.e = writtenEvent Y g ev frameDelay spoof ∧
    r.timing = g.timeGetTime.toInt32

/-- The reply of the `AddEvent` command: the event of the request and the timing set in it. -/
structure AddEventResult where
  event : Event
  timing : Int32

/-- The work of the `AddEvent` command. -/
def addEventCommand (Y : YRpp EventType) (g : Game) (types : List ObjectTypeClass)
    (L : EventLists EventType) (ev : Event) (frameDelay : UInt32) (spoof : Bool) :
    Except AddEventError (EventLists EventType × AddEventResult) :=
  match addEvent Y g types L ev frameDelay spoof false with
  | .error e => .error e
  | .ok (L', E) => .ok (L', ⟨ev, E.timing⟩)

theorem and_mask (n : Nat) : n &&& 127 = n % 128 := Nat.and_two_pow_sub_one_eq_mod n 7

/-- The slot before the advanced tail is the one the event was written to. -/
theorem slot_before_tail (tail : Nat) (htail : tail < 128) :
    ((tail + 1) % 128 + 127) &&& 127 = tail := by
  rw [and_mask]
  omega

omit [DecidableEq EventType] in
theorem writeEvent_ok (h : writeEvent Y g types L ev frameDelay spoof = .ok (L', r)) :
    ∃ out, Y.addEvent (writtenEvent Y g ev frameDelay spoof) g.timeGetTime.toInt32 L.outList =
        some out ∧
      L' = { L with outList := out } ∧ r = convertEvent Y out ((out.tail + 127) &&& 127) := by
  unfold writeEvent at h
  split at h
  · cases h
  · split at h
    · cases h
    · next out hout =>
      cases h
      exact ⟨out, hout, rfl, rfl⟩

/-- Whatever the search for duplicates says, what is returned comes from `writeEvent`. -/
theorem addEvent_ok (h : addEvent Y g types L ev frameDelay spoof filterDuplicates = .ok (L', r)) :
    writeEvent Y g types L ev frameDelay spoof = .ok (L', r) := by
  -- a duplicate ends in an exception
  unfold addEvent at h
  split at h
  · split at h
    · cases h
    · exact h
  · exact h

/-- The index is divided by `sizeof(EventClass)` after the pointer difference has been. -/
theorem addEvent_index (hY : AddsAtTail Y) (htail : L.outList.tail < 128)
    (h : addEvent Y g types L ev frameDelay spoof filterDuplicates = .ok (L', r)) :
    r = convertEvent Y L'.outList L.outList.tail ∧
      L'.outList.list L.outList.tail = writtenEvent Y g ev frameDelay spoof ∧
      L'.outList.timings L.outList.tail = g.timeGetTime.toInt32 := by
  obtain ⟨out, hadd, hL, hr⟩ := writeEvent_ok (addEvent_ok h)
  have hout := hY _ _ _ _ hadd
  -- the slot before the new tail is where the event is, so far
  rw [hout.2.2, slot_before_tail _ htail] at hr
  subst hL
  exact ⟨hr, hout.1, hout.2.1⟩

/-- `add_event` returns the event it added exactly when it was added at the first slot. -/
theorem addEvent_returns_added_iff (hY : AddsAtTail Y) (hsize : 1 < Y.sizeofEventClass)
    (htail : L.outList.tail < 128)
    (h : addEvent Y g types L ev frameDelay spoof filterDuplicates = .ok (L', r)) :
    IsAddedEvent Y g L ev frameDelay spoof r ↔ L.outList.tail = 0 := by
  have hadded := addEvent_index hY htail h
  rw [hadded.1]
  constructor
  · intro hr
    -- only zero is its own quotient
    have hindex : L.outList.tail / Y.sizeofEventClass = L.outList.tail := hr.1
    by_contra hne
    have hlt := Nat.div_lt_self (Nat.pos_of_ne_zero hne) hsize
    omega
  · intro hzero
    have hdiv : L.outList.tail / Y.sizeofEventClass = L.outList.tail := by
      rw [hzero, Nat.zero_div]
    show L.outList.tail / Y.sizeofEventClass = _ ∧
      L'.outList.list (L.outList.tail / Y.sizeofEventClass) = _ ∧
      L'.outList.timings (L.outList.tail / Y.sizeofEventClass) = _
    rw [hdiv]
    exact ⟨rfl, hadded.2.1, hadded.2.2⟩

theorem yuri_addsAtTail : AddsAtTail yuri := by
  intro E ts C out h
  simp only [yuri, Option.ite_none_right_eq_some, Option.some.injEq] at h
  obtain ⟨-, rfl⟩ := h
  exact ⟨if_pos rfl, if_pos rfl, and_mask (C.tail + 1)⟩

/-- An `OutList` with one event, added at time 0. -/
def oneEvent : EventLists UInt8 :=
  ⟨.single ⟨0x05, false, 0, 0, {}⟩, .empty ⟨0, false, 0, 0, {}⟩, .empty ⟨0, false, 0, 0, {}⟩⟩

/-- The second event of a list: `add_event` answers with the first one. -/
theorem addEvent_returns_first_event :
    ∃ L' r, addEvent yuri { timeGetTime := 50 } [] oneEvent placeRequest 0 false false =
        .ok (L', r) ∧ r.index = 0 ∧ r.timing = 0 ∧
      ¬IsAddedEvent yuri { timeGetTime := 50 } oneEvent placeRequest 0 false r := by
  refine ⟨_, _, rfl, rfl, rfl, ?_⟩
  intro h
  have htail : (0 : Nat) = 1 := h.1
  omega

theorem oneEvent_returns_added_iff :
    ∃ L' r, addEvent yuri { timeGetTime := 50 } [] oneEvent placeRequest 0 false false =
        .ok (L', r) ∧
      (IsAddedEvent yuri { timeGetTime := 50 } oneEvent placeRequest 0 false r ↔
        oneEvent.outList.tail = 0) := by
  have hok : ∃ L' r, addEvent yuri { timeGetTime := 50 } [] oneEvent placeRequest 0 false false =
      .ok (L', r) := ⟨_, _, rfl⟩
  obtain ⟨L', r, h⟩ := hok
  exact ⟨L', r, h, addEvent_returns_added_iff yuri_addsAtTail (by decide) (by decide) h⟩

/-- The client is told the time of the event as long as the ring is at its first slot. -/
theorem addEventCommand_timing {result : AddEventResult} (hY : AddsAtTail Y)
    (hzero : L.outList.tail = 0)
    (h : addEventCommand Y g types L ev frameDelay spoof = .ok (L', result)) :
    result.event = ev ∧ result.timing = g.timeGetTime.toInt32 := by
  unfold addEventCommand at h
  split at h
  · cases h
  · next L'' E hadd =>
    cases h
    have hadded := addEvent_index hY (by omega) hadd
    rw [hzero] at hadded
    have hdiv : (0 : Nat) / Y.sizeofEventClass = 0 := Nat.zero_div _
    have hE : E.timing = L'.outList.timings (0 / Y.sizeofEventClass) := by rw [hadded.1]; rfl
    rw [hdiv] at hE
    exact ⟨rfl, hE.trans hadded.2.2⟩

end Ra2yrcpp.StateContext
