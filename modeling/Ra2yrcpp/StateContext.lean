import Mathlib.Data.List.Basic
import Mathlib.Data.List.Range
import Mathlib.Algebra.Group.Nat.Defs
import Ra2yrcpp.StateParser.Objects

/-!
# Adding game events

`StateContext::add_event` with its search for duplicates: `find_event` of `state_context.cpp` and
`EventListUtil` of `event_list.cpp`.  The event that is searched for and the event that is written
are built by two code paths; the last section says when they agree.
-/

namespace Ra2yrcpp.StateContext

open StateParser (Coordinates)

/-! ## Messages -/

/-- The two 16-bit coordinates of a `CellStruct`, as the word they fill. -/
abbrev CellStruct := UInt32

structure ProductionEvent where
  rttiId : Int32 := 0
  heapId : Int32 := 0
  isNaval : Bool := false
  deriving DecidableEq, Repr

structure PlaceEvent where
  rttiType : Int32 := 0
  heapId : Int32 := 0
  isNaval : Bool := false
  location : Coordinates := ⟨0, 0, 0⟩
  deriving DecidableEq, Repr

/-- `ra2yrproto::ra2yr::Event`, with the fields that `add_event` and `find_event` read. -/
structure Event where
  eventType : Int32 := 0
  houseIndex : UInt32 := 0
  frame : UInt32 := 0
  production : Option ProductionEvent := none
  place : Option PlaceEvent := none
  sellCell : Option Coordinates := none
  deriving DecidableEq, Repr

/-- `ra2yrproto::ra2yr::ObjectTypeClass`, as far as `find_type_class` reads it. -/
structure ObjectTypeClass where
  arrayIndex : Int32
  type : Int32
  deriving DecidableEq, Repr

def findTypeClass (types : List ObjectTypeClass) (rttiId arrayIndex : Int32) :
    Option ObjectTypeClass :=
  types.find? fun v => decide (v.arrayIndex = arrayIndex ∧ v.type = rttiId)

/-! ## `EventClass` -/

/-- The union `EventClass::Data`, as its first four words. -/
structure EventData where
  w0 : UInt32 := 0
  w1 : UInt32 := 0
  w2 : UInt32 := 0
  w3 : UInt32 := 0
  deriving DecidableEq, Repr

namespace EventData

def setProduction (d : EventData) (rttiId heapId : Int32) (isNaval : Bool) : EventData :=
  { d with w0 := rttiId.toUInt32, w1 := heapId.toUInt32, w2 := isNaval.toUInt32 }

def setPlace (d : EventData) (rttiType heapId : Int32) (isNaval : Bool) (location : CellStruct) :
    EventData :=
  { d with
    w0 := rttiType.toUInt32, w1 := heapId.toUInt32, w2 := isNaval.toUInt32, w3 := location }

def setSellCell (d : EventData) (cell : CellStruct) : EventData := { d with w0 := cell }

def sellCell (d : EventData) : CellStruct := d.w0
def placeRTTIType (d : EventData) : UInt32 := d.w0
def placeHeapID (d : EventData) : UInt32 := d.w1

end EventData

variable {EventType : Type} [DecidableEq EventType]

structure EventClass (EventType : Type) where
  type : EventType
  isExecuted : Bool
  houseIndex : BitVec 8
  frame : UInt32
  data : EventData := {}
  deriving DecidableEq, Repr

/-! ## Event lists -/

/-- A ring of `2 ^ bits` slots. -/
structure EventListCtx (EventType : Type) where
  count : Nat
  head : Nat
  tail : Nat
  bits : Nat
  list : Nat → EventClass EventType
  timings : Nat → Int32

def EventListCtx.length (C : EventListCtx EventType) : Nat := 2 ^ C.bits

structure EventEntry (EventType : Type) where
  e : EventClass EventType
  timing : Int32
  index : Nat

def getEvent (C : EventListCtx EventType) (i : Nat) : EventEntry EventType :=
  let ix := (C.head + i) &&& (C.length - 1)
  ⟨C.list ix, C.timings ix, i⟩

/-- The loop of `elist_apply` from index `i` on, with `n` entries to go.  What the callback writes
to its captures is the state `s`. -/
def elistApplyFrom {σ : Type} (C : EventListCtx EventType)
    (fn : EventEntry EventType → σ → σ × Bool) : Nat → Nat → σ → σ
  | 0, _, s => s
  | n + 1, i, s =>
    let r := fn (getEvent C i) s
    if r.2 then r.1 else elistApplyFrom C fn n (i + 1) r.1

def elistApply {σ : Type} (C : EventListCtx EventType)
    (fn : EventEntry EventType → σ → σ × Bool) (s : σ) : σ :=
  elistApplyFrom C fn C.count 0 s

/-! ## The game -/

/-- What the game headers and the message definitions supply: the cast to `EventType` with the two
enumerators the code names, `CellClass::Coord2Cell`, `EventClass::AddEvent` and
`sizeof(EventClass)`. -/
structure YRpp (EventType : Type) where
  castEventType : Int32 → EventType
  sellcell : EventType
  place : EventType
  networkEventSellCell : Int32
  castEventType_sellCell : castEventType networkEventSellCell = sellcell
  sellcell_ne_place : sellcell ≠ place
  coord2Cell : Coordinates → CellStruct
  addEvent : EventClass EventType → Int32 → EventListCtx EventType → Option (EventListCtx EventType)
  sizeofEventClass : Nat

/-- The globals of the game that `add_event` reads. -/
structure Game where
  currentFrame : Int32 := 0
  frameSendRate : Int32 := 1
  maxAhead : Int32 := 0
  /-- `HouseClass::CurrentPlayer->ArrayIndex`. -/
  currentPlayer : Int32 := 0
  timeGetTime : UInt32 := 0

structure EventLists (EventType : Type) where
  outList : EventListCtx EventType
  doList : EventListCtx EventType
  megaMissionList : EventListCtx EventType

/-! ## `find` and `find_event` -/

def findFn (Y : YRpp EventType) (E : EventClass EventType) (e : EventEntry EventType)
    (res : Option (EventEntry EventType)) : Option (EventEntry EventType) × Bool :=
  if e.e.houseIndex = E.houseIndex ∧ e.e.type = E.type then
    if E.type = Y.sellcell then
      if E.data.sellCell = e.e.data.sellCell then (some e, true) else (res, false)
    else if E.type = Y.place then
      if E.data.placeRTTIType = e.e.data.placeRTTIType ∧
          E.data.placeHeapID = e.e.data.placeHeapID then (some e, true)
      else (res, false)
    else (some e, true)
  else (res, false)

def find (Y : YRpp EventType) (C : EventListCtx EventType) (E : EventClass EventType) :
    Option (EventEntry EventType) :=
  elistApply C (findFn Y E) none

/-- The event that `find_event` looks for. -/
def queryEvent (Y : YRpp EventType) (query : Event) : EventClass EventType :=
  let E : EventClass EventType :=
    ⟨Y.castEventType query.eventType, false, BitVec.ofNat 8 query.houseIndex.toNat, query.frame, {}⟩
  if query.eventType = Y.networkEventSellCell then
    { E with
      type := Y.sellcell
      data := E.data.setSellCell (Y.coord2Cell (query.sellCell.getD ⟨0, 0, 0⟩)) }
  else E

def findEvent (Y : YRpp EventType) (L : EventLists EventType) (query : Event) :
    Option (EventEntry EventType) × String :=
  let E := queryEvent Y query
  match find Y L.outList E with
  | some r => (some r, "OutList")
  | none =>
    match find Y L.doList E with
    | some r => (some r, "DoList")
    | none =>
      match find Y L.megaMissionList E with
      | some r => (some r, "MegaMissionList")
      | none => (none, "")

/-! ## `add_event` -/

inductive AddEventError
  /-- `event already exists in {}, src={}` -/
  | alreadyExists (name : String) (src : Event)
  /-- `invalid id: RTTI={},heap={}` -/
  | invalidId (rttiId heapId : Int32)
  /-- `failed to add event` -/
  | failedToAdd
  deriving DecidableEq, Repr

def eventFrame (g : Game) (frameDelay : UInt32) (spoof : Bool) : Int32 :=
  let frame :=
    if frameDelay = 0 then
      ((g.frameSendRate + g.currentFrame - 1 + g.maxAhead) / g.frameSendRate) * g.frameSendRate
    else g.currentFrame + frameDelay.toInt32
  frame * (if spoof then -1 else 1)

/-- `static_cast<char>` of the house index that is written. -/
def eventHouse (g : Game) (ev : Event) (spoof : Bool) : BitVec 8 :=
  if spoof then BitVec.ofNat 8 ev.houseIndex.toNat else BitVec.ofInt 8 g.currentPlayer.toInt

/-- What the message that is set puts into `Data`. -/
def eventData (Y : YRpp EventType) (ev : Event) : EventData :=
  match ev.production with
  | some e => EventData.setProduction {} e.rttiId e.heapId e.isNaval
  | none =>
    match ev.place with
    | some e => EventData.setPlace {} e.rttiType e.heapId e.isNaval (Y.coord2Cell e.location)
    | none =>
      match ev.sellCell with
      | some c => EventData.setSellCell {} (Y.coord2Cell c)
      | none => {}

/-- The event that `add_event` hands to `EventClass::AddEvent`. -/
def writtenEvent (Y : YRpp EventType) (g : Game) (ev : Event) (frameDelay : UInt32) (spoof : Bool) :
    EventClass EventType :=
  ⟨Y.castEventType ev.eventType, false, eventHouse g ev spoof,
    (eventFrame g frameDelay spoof).toUInt32, eventData Y ev⟩

/-- `convert_event` of the event at slot `i`: the pointer difference is divided once more. -/
def convertEvent (Y : YRpp EventType) (C : EventListCtx EventType) (i : Nat) :
    EventEntry EventType :=
  let ix := i / Y.sizeofEventClass
  ⟨C.list ix, C.timings ix, ix⟩

/-- What `add_event` does once the search for duplicates has found nothing, or was not asked for. -/
def writeEvent (Y : YRpp EventType) (g : Game) (types : List ObjectTypeClass)
    (L : EventLists EventType) (ev : Event) (frameDelay : UInt32) (spoof : Bool) :
    Except AddEventError (EventLists EventType × EventEntry EventType) :=
  match ev.production.filter fun e => (findTypeClass types e.rttiId e.heapId).isNone with
  | some e => .error (.invalidId e.rttiId e.heapId)
  | none =>
    match Y.addEvent (writtenEvent Y g ev frameDelay spoof) g.timeGetTime.toInt32 L.outList with
    | none => .error .failedToAdd
    | some out =>
      -- the slot before the tail; `-1` is `127` under the mask
      .ok ({ L with outList := out }, convertEvent Y out ((out.tail + 127) &&& 127))

def addEvent (Y : YRpp EventType) (g : Game) (types : List ObjectTypeClass)
    (L : EventLists EventType) (ev : Event) (frameDelay : UInt32) (spoof filterDuplicates : Bool) :
    Except AddEventError (EventLists EventType × EventEntry EventType) :=
  if filterDuplicates then
    match findEvent Y L ev with
    | (some _, name) => .error (.alreadyExists name ev)
    | (none, _) => writeEvent Y g types L ev frameDelay spoof
  else writeEvent Y g types L ev frameDelay spoof

/-! ## What the lists hold -/

/-- The events between the head and the tail of a ring, oldest first. -/
def EventListCtx.events (C : EventListCtx EventType) : List (EventClass EventType) :=
  (List.range C.count).map fun i => C.list ((C.head + i) % C.length)

/-- The events of the three lists, in the order in which they are searched. -/
def EventLists.events (L : EventLists EventType) : List (EventClass EventType) :=
  L.outList.events ++ L.doList.events ++ L.megaMissionList.events

/-- `e` is a duplicate of `w`: the same type and house, and the same cell for `SELLCELL`, the same
type and heap id of the building for `PLACE`. -/
def Equivalent (Y : YRpp EventType) (w e : EventClass EventType) : Prop :=
  e.type = w.type ∧ e.houseIndex = w.houseIndex ∧
    (w.type = Y.sellcell → e.data.sellCell = w.data.sellCell) ∧
    (w.type = Y.place →
      e.data.placeRTTIType = w.data.placeRTTIType ∧ e.data.placeHeapID = w.data.placeHeapID)

instance (Y : YRpp EventType) (w e : EventClass EventType) : Decidable (Equivalent Y w e) :=
  inferInstanceAs (Decidable (_ ∧ _ ∧ (_ → _) ∧ (_ → _ ∧ _)))

omit [DecidableEq EventType] in
theorem getEvent_e (C : EventListCtx EventType) (i : Nat) :
    (getEvent C i).e = C.list ((C.head + i) % C.length) := by
  show C.list ((C.head + i) &&& (2 ^ C.bits - 1)) = _
  rw [Nat.and_two_pow_sub_one_eq_mod]
  rfl

/-- The callback of `find` stops at the duplicates of `E`, and only there. -/
theorem findFn_eq (Y : YRpp EventType) (E : EventClass EventType) (e : EventEntry EventType)
    (res : Option (EventEntry EventType)) :
    findFn Y E e res = if Equivalent Y E e.e then (some e, true) else (res, false) := by
  unfold findFn
  by_cases hkey : e.e.houseIndex = E.houseIndex ∧ e.e.type = E.type
  · rw [if_pos hkey]
    by_cases hsell : E.type = Y.sellcell
    · have hplace : E.type ≠ Y.place := hsell ▸ Y.sellcell_ne_place
      have hiff : Equivalent Y E e.e ↔ E.data.sellCell = e.e.data.sellCell :=
        ⟨fun h => (h.2.2.1 hsell).symm, fun h => ⟨hkey.2, hkey.1, fun _ => h.symm,
          fun h' => absurd h' hplace⟩⟩
      rw [if_pos hsell]
      simp only [hiff]
    · rw [if_neg hsell]
      by_cases hplace : E.type = Y.place
      · have hiff : Equivalent Y E e.e ↔ E.data.placeRTTIType = e.e.data.placeRTTIType ∧
            E.data.placeHeapID = e.e.data.placeHeapID :=
          ⟨fun h => ⟨(h.2.2.2 hplace).1.symm, (h.2.2.2 hplace).2.symm⟩, fun h =>
            ⟨hkey.2, hkey.1, fun h' => absurd h' hsell, fun _ => ⟨h.1.symm, h.2.symm⟩⟩⟩
        rw [if_pos hplace]
        simp only [hiff]
      · rw [if_neg hplace, if_pos ⟨hkey.2, hkey.1, fun h => absurd h hsell,
          fun h => absurd h hplace⟩]
  · rw [if_neg hkey, if_neg fun h => hkey ⟨h.2.1, h.1⟩]

-- the loop, by induction on the entries it has to go
theorem elistApplyFrom_findFn (Y : YRpp EventType) (C : EventListCtx EventType)
    (E : EventClass EventType) (n i : Nat) :
    elistApplyFrom C (findFn Y E) n i none =
      ((List.range' i n).map (getEvent C)).find? fun e => decide (Equivalent Y E e.e) := by
  induction n generalizing i with
  | zero => rfl
  | succ n ih =>
    rw [elistApplyFrom, findFn_eq, List.range'_succ, List.map_cons, List.find?_cons]
    by_cases h : Equivalent Y E (getEvent C i).e
    · simp [h]
    · simp [h, ih]

theorem find_eq_none_iff (Y : YRpp EventType) (C : EventListCtx EventType)
    (E : EventClass EventType) : find Y C E = none ↔ ∀ e ∈ C.events, ¬Equivalent Y E e := by
  rw [find, elistApply, elistApplyFrom_findFn, List.find?_eq_none, ← List.range_eq_range']
  simp only [EventListCtx.events, List.mem_map, List.mem_range, forall_exists_index, and_imp,
    forall_apply_eq_imp_iff₂, decide_eq_true_eq, getEvent_e]

theorem findEvent_eq_none_iff (Y : YRpp EventType) (L : EventLists EventType) (query : Event) :
    (findEvent Y L query).1 = none ↔ ∀ e ∈ L.events, ¬Equivalent Y (queryEvent Y query) e := by
  simp only [EventLists.events, List.mem_append, or_imp, forall_and, ← find_eq_none_iff]
  cases hout : find Y L.outList (queryEvent Y query) with
  | some r => simp [findEvent, hout]
  | none =>
    cases hdo : find Y L.doList (queryEvent Y query) with
    | some r => simp [findEvent, hout, hdo]
    | none =>
      cases hmega : find Y L.megaMissionList (queryEvent Y query) with
      | some r => simp [findEvent, hout, hdo, hmega]
      | none => simp [findEvent, hout, hdo, hmega]

/-- `add_event` ends with `event already exists`. -/
def ThrowsAlreadyExists {α : Type} : Except AddEventError α → Prop
  | .error (.alreadyExists _ _) => True
  | _ => False

instance {α : Type} : DecidablePred (ThrowsAlreadyExists (α := α))
  | .error (.alreadyExists _ _) => isTrue trivial
  | .error (.invalidId _ _) => isFalse id
  | .error .failedToAdd => isFalse id
  | .ok _ => isFalse id

omit [DecidableEq EventType] in
theorem writeEvent_not_alreadyExists (Y : YRpp EventType) (g : Game)
    (types : List ObjectTypeClass) (L : EventLists EventType) (ev : Event) (frameDelay : UInt32)
    (spoof : Bool) : ¬ThrowsAlreadyExists (writeEvent Y g types L ev frameDelay spoof) := by
  unfold writeEvent
  split
  · exact id
  · split <;> exact id

theorem addEvent_throws_iff (Y : YRpp EventType) (g : Game) (types : List ObjectTypeClass)
    (L : EventLists EventType) (ev : Event) (frameDelay : UInt32) (spoof : Bool) :
    ThrowsAlreadyExists (addEvent Y g types L ev frameDelay spoof true) ↔
      ∃ e ∈ L.events, Equivalent Y (queryEvent Y ev) e := by
  have hnone := findEvent_eq_none_iff Y L ev
  rw [addEvent, if_pos rfl]
  split
  · next r name hfind =>
    rw [hfind] at hnone
    have hsome : ¬∀ e ∈ L.events, ¬Equivalent Y (queryEvent Y ev) e :=
      fun h => nomatch hnone.mpr h
    simp only [not_forall, not_not, exists_prop] at hsome
    exact iff_of_true trivial hsome
  · next name hfind =>
    rw [hfind] at hnone
    refine iff_of_false (writeEvent_not_alreadyExists Y g types L ev frameDelay spoof) ?_
    rintro ⟨e, he, heq⟩
    exact hnone.mp rfl e he heq

/-! ## When the searched event is the written one -/

/-- The cell `find_event` looks for. -/
def queriedCell (Y : YRpp EventType) (ev : Event) : CellStruct :=
  if ev.eventType = Y.networkEventSellCell then Y.coord2Cell (ev.sellCell.getD ⟨0, 0, 0⟩) else 0

/-- The house of the message is the current player as far as a `char` tells, a `SELLCELL` is written
with the cell its `sell_cell` names, and a `PLACE` with type and heap id zero. -/
def KeysAgree (Y : YRpp EventType) (g : Game) (ev : Event) : Prop :=
  BitVec.ofNat 8 ev.houseIndex.toNat = BitVec.ofInt 8 g.currentPlayer.toInt ∧
    (Y.castEventType ev.eventType = Y.sellcell → (eventData Y ev).w0 = queriedCell Y ev) ∧
    (Y.castEventType ev.eventType = Y.place → (eventData Y ev).w0 = 0 ∧ (eventData Y ev).w1 = 0)

instance (Y : YRpp EventType) (g : Game) (ev : Event) : Decidable (KeysAgree Y g ev) :=
  inferInstanceAs (Decidable (_ ∧ (_ → _) ∧ (_ → _ ∧ _)))

section Query

variable (Y : YRpp EventType) (ev : Event)

omit [DecidableEq EventType]

theorem queryEvent_type : (queryEvent Y ev).type = Y.castEventType ev.eventType := by
  unfold queryEvent
  split
  · next h => exact h ▸ Y.castEventType_sellCell.symm
  · rfl

theorem queryEvent_houseIndex :
    (queryEvent Y ev).houseIndex = BitVec.ofNat 8 ev.houseIndex.toNat := by
  unfold queryEvent
  split <;> rfl

theorem queryEvent_sellCell : (queryEvent Y ev).data.sellCell = queriedCell Y ev := by
  unfold queryEvent queriedCell
  split <;> rfl

theorem queryEvent_placeHeapID : (queryEvent Y ev).data.placeHeapID = 0 := by
  unfold queryEvent
  split <;> rfl

-- `find_event` never fills `Data.Place`
theorem queryEvent_placeRTTIType (hplace : Y.castEventType ev.eventType = Y.place) :
    (queryEvent Y ev).data.placeRTTIType = 0 := by
  unfold queryEvent
  split
  · next h =>
    rw [h, Y.castEventType_sellCell] at hplace
    exact absurd hplace Y.sellcell_ne_place
  · rfl

end Query

omit [DecidableEq EventType] in
theorem equivalent_queryEvent_iff {Y : YRpp EventType} {g : Game} {ev : Event}
    (hkeys : KeysAgree Y g ev) (frameDelay : UInt32) (e : EventClass EventType) :
    Equivalent Y (queryEvent Y ev) e ↔ Equivalent Y (writtenEvent Y g ev frameDelay false) e := by
  obtain ⟨hhouse, hsell, hplace⟩ := hkeys
  unfold Equivalent
  rw [queryEvent_type, queryEvent_houseIndex, queryEvent_sellCell, queryEvent_placeHeapID, hhouse]
  show _ ↔ e.type = Y.castEventType ev.eventType ∧ e.houseIndex = BitVec.ofInt 8 _ ∧
    (Y.castEventType ev.eventType = Y.sellcell → e.data.sellCell = (eventData Y ev).w0) ∧
    (Y.castEventType ev.eventType = Y.place →
      e.data.placeRTTIType = (eventData Y ev).w0 ∧ e.data.placeHeapID = (eventData Y ev).w1)
  refine and_congr_right fun _ => and_congr_right fun _ => and_congr ?_ ?_
  · exact forall_congr' fun h => by rw [hsell h]
  · exact forall_congr' fun h => by rw [queryEvent_placeRTTIType Y ev h, (hplace h).1, (hplace h).2]

omit [DecidableEq EventType] in
/-- An event is a duplicate of itself, so this is what the two events must share. -/
theorem keysAgree_of_equivalent {Y : YRpp EventType} {g : Game} {ev : Event} {frameDelay : UInt32}
    (h : Equivalent Y (queryEvent Y ev) (writtenEvent Y g ev frameDelay false)) :
    KeysAgree Y g ev := by
  obtain ⟨-, hhouse, hsell, hplace⟩ := h
  rw [queryEvent_type] at hsell hplace
  rw [queryEvent_houseIndex] at hhouse
  rw [queryEvent_sellCell] at hsell
  rw [queryEvent_placeHeapID] at hplace
  exact ⟨hhouse.symm, hsell, fun h =>
    ⟨(hplace h).1.trans (queryEvent_placeRTTIType Y ev h), (hplace h).2⟩⟩

/-- A list of one event. -/
def EventListCtx.single (e : EventClass EventType) : EventListCtx EventType :=
  ⟨1, 0, 1, 7, fun _ => e, fun _ => 0⟩

/-- A list without events. -/
def EventListCtx.empty (e : EventClass EventType) : EventListCtx EventType :=
  ⟨0, 0, 0, 7, fun _ => e, fun _ => 0⟩

omit [DecidableEq EventType] in
theorem events_single (e : EventClass EventType) :
    (EventLists.mk (.single e) (.empty e) (.empty e)).events = [e] := rfl

omit [DecidableEq EventType] in
theorem equivalent_refl (Y : YRpp EventType) (e : EventClass EventType) : Equivalent Y e e :=
  ⟨rfl, rfl, fun _ => rfl, fun _ => ⟨rfl, rfl⟩⟩

/-- `event already exists` is thrown for the duplicates of the written event, whatever the lists
hold, exactly when the keys of the searched and of the written event agree. -/
theorem addEvent_filters_duplicates_iff (Y : YRpp EventType) (g : Game)
    (types : List ObjectTypeClass) (ev : Event) (frameDelay : UInt32) :
    (∀ L : EventLists EventType,
      ThrowsAlreadyExists (addEvent Y g types L ev frameDelay false true) ↔
        ∃ e ∈ L.events, Equivalent Y (writtenEvent Y g ev frameDelay false) e) ↔
      KeysAgree Y g ev := by
  constructor
  · intro h
    -- the list that holds the written event and nothing else
    let w := writtenEvent Y g ev frameDelay false
    have hthrows := (h ⟨.single w, .empty w, .empty w⟩).mpr
      ⟨w, List.mem_singleton.mpr rfl, equivalent_refl Y w⟩
    rw [addEvent_throws_iff, events_single] at hthrows
    obtain ⟨e, he, heq⟩ := hthrows
    rw [List.mem_singleton] at he
    exact keysAgree_of_equivalent (he ▸ heq)
  · intro hkeys L
    rw [addEvent_throws_iff]
    simp only [equivalent_queryEvent_iff hkeys frameDelay]

/-- The values of the game: `PLACE` and `SELLCELL`, cells of 256 leptons, an `OutList` of 128
events. -/
def yuri : YRpp UInt8 where
  castEventType n := n.toUInt32.toUInt8
  sellcell := 0x17
  place := 0x0b
  networkEventSellCell := 0x17
  castEventType_sellCell := by decide
  sellcell_ne_place := by decide
  coord2Cell c := (c.x / 256).toUInt32 % 0x10000 + (c.y / 256).toUInt32 * 0x10000
  addEvent E ts C :=
    if C.count < 128 then
      some { C with
        count := C.count + 1
        tail := (C.tail + 1) &&& 127
        list := fun i => if i = C.tail then E else C.list i
        timings := fun i => if i = C.tail then ts else C.timings i }
    else none
  sizeofEventClass := 111

/-- The request of `place_building`: the building type (`7`) with heap id 5, for house 1. -/
def placeRequest : Event :=
  { eventType := 0x0b, houseIndex := 1, place := some { rttiType := 7, heapId := 5 } }

/-- The same building is placed twice by the current player: the first event is in `OutList`, and
the second one is not recognised. -/
theorem placeRequest_duplicate_not_found :
    ¬(ThrowsAlreadyExists (addEvent yuri { currentPlayer := 1 } []
          ⟨.single (writtenEvent yuri { currentPlayer := 1 } placeRequest 0 false),
            .empty ⟨0, false, 0, 0, {}⟩, .empty ⟨0, false, 0, 0, {}⟩⟩
          placeRequest 0 false true) ↔
      ∃ e ∈ (EventLists.mk (.single (writtenEvent yuri { currentPlayer := 1 } placeRequest 0 false))
          (.empty ⟨0, false, 0, 0, {}⟩) (.empty ⟨0, false, 0, 0, {}⟩)).events,
        Equivalent yuri (writtenEvent yuri { currentPlayer := 1 } placeRequest 0 false) e) := by
  decide

end Ra2yrcpp.StateContext
