import Mathlib.Algebra.Group.Nat.Defs
import Mathlib.Data.List.Basic
import Mathlib.Tactic.MkIffOfInductiveProp
import Ra2yrcpp.StateParser.Objects

/-!
# Event lists of a snapshot

`EventParser`, `parse_EventList` and `parse_EventLists` of `state_parser.cpp`.  The messages of a list
are cleared when its length changes; otherwise they are refilled in place.
-/

namespace Ra2yrcpp.StateParser

/-! ## The game -/

/-- `EventType`, as far as the parser tells the types apart. -/
inductive EventType
  | produce
  | place
  | megaMission
  | megaMissionF
  | other (n : UInt8)
  deriving DecidableEq, Repr

structure TargetClass where
  mID : Int32 := 0
  mRTTI : UInt8 := 0
  deriving DecidableEq, Repr

structure ProductionData where
  rttiID : Int32 := 0
  heapID : Int32 := 0
  isNaval : Int32 := 0
  deriving DecidableEq, Repr

structure PlaceData where
  rttiType : Int32 := 0
  heapID : Int32 := 0
  isNaval : Int32 := 0
  locationX : Int16 := 0
  locationY : Int16 := 0
  deriving DecidableEq, Repr

structure MegaMissionData where
  whom : TargetClass := {}
  mission : UInt8 := 0
  target : TargetClass := {}
  destination : TargetClass := {}
  follow : TargetClass := {}
  isPlanningEvent : Bool := false
  deriving DecidableEq, Repr

structure MegaMissionFData where
  whom : TargetClass := {}
  mission : UInt8 := 0
  target : TargetClass := {}
  destination : TargetClass := {}
  speed : Int32 := 0
  maxSpeed : Int32 := 0
  deriving DecidableEq, Repr

/-- The members of the union `EventClass::Data` that the parser reads.  It reads the one of the
event's type only. -/
structure EventData where
  production : ProductionData := {}
  place : PlaceData := {}
  megaMission : MegaMissionData := {}
  megaMissionF : MegaMissionFData := {}
  deriving DecidableEq, Repr

structure EventClass where
  type : EventType
  isExecuted : Bool := false
  houseIndex : Int8 := 0
  frame : UInt32 := 0
  data : EventData := {}
  deriving DecidableEq, Repr

/-- A ring of `2 ^ bits` slots. -/
structure EventListCtx where
  count : Nat
  head : Nat
  bits : Nat
  list : Nat → EventClass
  timings : Nat → Int32

structure EventEntry where
  e : EventClass
  timing : Int32
  index : Nat

def getEvent (C : EventListCtx) (i : Nat) : EventEntry :=
  let ix := (C.head + i) &&& (2 ^ C.bits - 1)
  ⟨C.list ix, C.timings ix, i⟩

/-- The loop of `elist_apply` from index `i` on, with `n` entries to go; `s` is what the callback
writes. -/
def elistApplyFrom {σ : Type} (C : EventListCtx) (fn : EventEntry → σ → σ × Bool) :
    Nat → Nat → σ → σ
  | 0, _, s => s
  | n + 1, i, s =>
    let r := fn (getEvent C i) s
    if r.2 then r.1 else elistApplyFrom C fn n (i + 1) r.1

def elistApply {σ : Type} (C : EventListCtx) (fn : EventEntry → σ → σ × Bool) (s : σ) : σ :=
  elistApplyFrom C fn C.count 0 s

/-! ## Messages -/

/-- `ra2yrproto::ra2yr::TargetClass`. -/
structure TargetMessage where
  mId : Int32 := 0
  mRtti : UInt32 := 0
  deriving DecidableEq, Repr

structure ProductionMessage where
  rttiId : Int32 := 0
  heapId : Int32 := 0
  isNaval : Bool := false
  deriving DecidableEq, Repr

structure PlaceMessage where
  rttiType : Int32 := 0
  heapId : Int32 := 0
  isNaval : Bool := false
  location : Option Coordinates := none
  deriving DecidableEq, Repr

/-- What both kinds of missions set. -/
structure MissionFields where
  whom : Option TargetMessage := none
  mission : UInt8 := 0
  target : Option TargetMessage := none
  destination : Option TargetMessage := none
  deriving DecidableEq, Repr

structure MegaMissionMessage extends MissionFields where
  follow : Option TargetMessage := none
  isPlanningEvent : Bool := false
  deriving DecidableEq, Repr

structure MegaMissionFMessage extends MissionFields where
  speed : Int32 := 0
  maxSpeed : Int32 := 0
  deriving DecidableEq, Repr

/-- `ra2yrproto::ra2yr::Event`. -/
structure EventMessage where
  eventType : EventType := .other 0
  isExecuted : Bool := false
  houseIndex : UInt32 := 0
  frame : UInt32 := 0
  timing : UInt32 := 0
  production : Option ProductionMessage := none
  place : Option PlaceMessage := none
  megaMission : Option MegaMissionMessage := none
  megaMissionF : Option MegaMissionFMessage := none
  sellCell : Option Coordinates := none
  deriving DecidableEq, Repr

def EventMessage.clearPayloads (T : EventMessage) : EventMessage :=
  { T with production := none, place := none, megaMission := none, megaMissionF := none,
           sellCell := none }

/-! ## `EventParser` -/

section Parser

-- whether the payloads of an `Event` are members of a `oneof`: the message definitions are not part
-- of the repository
variable (oneof : Bool)

namespace EventParser

/-- The `mutable_` function of one payload takes the others away, if they are members of a
`oneof`. -/
def select (T : EventMessage) : EventMessage := if oneof then T.clearPayloads else T

def targetClass (s : TargetClass) (d : Option TargetMessage) : Option TargetMessage :=
  some { d.getD {} with mId := s.mID, mRtti := s.mRTTI.toUInt32 }

def megaMissionCommon (whom : TargetClass) (mission : UInt8) (target destination : TargetClass)
    (m : MissionFields) : MissionFields :=
  { m with
    whom := targetClass whom m.whom
    mission := mission
    target := targetClass target m.target
    destination := targetClass destination m.destination }

/-- `MegaMission`; `none` is the exception `invalid event type`. -/
def megaMission (src : EventClass) (T : EventMessage) : Option EventMessage :=
  match src.type with
  | .megaMission =>
    let x := src.data.megaMission
    let m := T.megaMission.getD {}
    some { select oneof T with
      megaMission := some
        { megaMissionCommon x.whom x.mission x.target x.destination m.toMissionFields with
          follow := targetClass x.follow m.follow
          isPlanningEvent := x.isPlanningEvent } }
  | .megaMissionF =>
    let x := src.data.megaMissionF
    let m := T.megaMissionF.getD {}
    some { select oneof T with
      megaMissionF := some
        { megaMissionCommon x.whom x.mission x.target x.destination m.toMissionFields with
          speed := x.speed
          maxSpeed := x.maxSpeed } }
  | _ => none

def production (src : EventClass) (T : EventMessage) : EventMessage :=
  let x := src.data.production
  { select oneof T with
    production := some
      { T.production.getD {} with
        rttiId := x.rttiID, heapId := x.heapID, isNaval := x.isNaval ≠ 0 } }

/-- `Place`; the third coordinate of the location is not set. -/
def place (src : EventClass) (T : EventMessage) : EventMessage :=
  let x := src.data.place
  let d := T.place.getD {}
  { select oneof T with
    place := some
      { d with
        rttiType := x.rttiType
        heapId := x.heapID
        isNaval := x.isNaval ≠ 0
        location := some
          { d.location.getD ⟨0, 0, 0⟩ with x := x.locationX.toInt32, y := x.locationY.toInt32 } } }

def parse (P : EventEntry) (T : EventMessage) : Option EventMessage :=
  let T :=
    { T with
      eventType := P.e.type
      isExecuted := P.e.isExecuted
      houseIndex := P.e.houseIndex.toInt32.toUInt32
      frame := P.e.frame
      timing := P.timing.toUInt32 }
  match P.e.type with
  | .produce => some (production oneof P.e T)
  | .place => some (place oneof P.e T)
  | .megaMission => megaMission oneof P.e T
  | .megaMissionF => megaMission oneof P.e T
  | .other _ => some T

end EventParser

/-! ## Refilling the lists -/

/-- The callback of `parse_EventList`.  An exception, of `at` or of the parser, ends the loop. -/
def parseEntry (e : EventEntry) : Option (List EventMessage) → Option (List EventMessage) × Bool
  | none => (none, true)
  | some dst =>
    match dst[e.index]? with
    | none => (none, true)
    | some it =>
      match EventParser.parse oneof e it with
      | none => (none, true)
      | some it => (some (dst.set e.index it), false)

def parseEventList (dst : List EventMessage) (list : EventListCtx) : Option (List EventMessage) :=
  let dst := if dst.length ≠ list.count then List.replicate list.count {} else dst
  elistApply list (parseEntry oneof) (some dst)

/-- The three event lists, of a `GameState` message. -/
structure EventListMessages where
  outList : List EventMessage := []
  doList : List EventMessage := []
  megamissionList : List EventMessage := []
  deriving DecidableEq, Repr

/-- `EventClass::OutList`, `DoList` and `MegaMissionList`. -/
structure EventRings where
  outList : EventListCtx
  doList : EventListCtx
  megaMissionList : EventListCtx

/-- `ra2yrproto::ra2yr::EventListsSnapshot`. -/
structure EventListsSnapshot where
  lists : List EventListMessages := []
  frame : List UInt32 := []
  deriving DecidableEq, Repr

def parseLists (G : EventListMessages) (rings : EventRings) : Option EventListMessages := do
  let outList ← parseEventList oneof G.outList rings.outList
  let doList ← parseEventList oneof G.doList rings.doList
  let megamissionList ← parseEventList oneof G.megamissionList rings.megaMissionList
  return ⟨outList, doList, megamissionList⟩

/-- `static_cast<int>` of a `std::size_t`, of either width. -/
def intOfSize (n : Nat) : Int := (Int32.ofNat n).toInt

/-- `erase` of the first element of a repeated field.  An empty field has none to erase. -/
def eraseFirst {α : Type} : List α → Option (List α)
  | [] => none
  | _ :: l => some l

/-- The buffer gives up its first entries if the size is exceeded, as `int`s compare. -/
def removeFirst (ES : EventListsSnapshot) (maxSize : Nat) : Option EventListsSnapshot :=
  if ES.lists.length ≥ intOfSize maxSize then do
    let lists ← eraseFirst ES.lists
    let frame ← eraseFirst ES.frame
    return ⟨lists, frame⟩
  else some ES

/-- `parse_EventLists`: the lists, and the buffer of the last `maxSize` of them. -/
def parseEventLists (G : EventListMessages) (currentFrame : UInt32) (ES : EventListsSnapshot)
    (maxSize : Nat) (rings : EventRings) : Option (EventListMessages × EventListsSnapshot) := do
  let EL ← parseLists oneof G rings
  let ES ← removeFirst ES maxSize
  return (EL, ⟨ES.lists ++ [EL], ES.frame ++ [currentFrame]⟩)

/-! ## What the old messages leave -/

def EventType.HasPayload : EventType → Prop
  | .other _ => False
  | _ => True

instance : DecidablePred EventType.HasPayload
  | .produce => isTrue trivial
  | .place => isTrue trivial
  | .megaMission => isTrue trivial
  | .megaMissionF => isTrue trivial
  | .other _ => isFalse id

/-- No payload is taken away when an event of the type is parsed. -/
def KeepsOthers (type : EventType) : Prop := ¬(oneof = true ∧ type.HasPayload)

/-- An old message with no payload that an event of the type leaves, and no third coordinate where
the event sets two. -/
@[mk_iff]
structure Clean (type : EventType) (T : EventMessage) : Prop where
  production : KeepsOthers oneof type → type ≠ .produce → T.production = none
  place : KeepsOthers oneof type → type ≠ .place → T.place = none
  location : type = .place → ((T.place.getD {}).location.getD ⟨0, 0, 0⟩).z = 0
  megaMission : KeepsOthers oneof type → type ≠ .megaMission → T.megaMission = none
  megaMissionF : KeepsOthers oneof type → type ≠ .megaMissionF → T.megaMissionF = none
  sellCell : KeepsOthers oneof type → T.sellCell = none

/-- The message that `parse` makes of an old one; it never throws. -/
def parsed (P : EventEntry) (T : EventMessage) : EventMessage :=
  (EventParser.parse oneof P T).getD T

theorem parse_eq_parsed (P : EventEntry) (T : EventMessage) :
    EventParser.parse oneof P T = some (parsed oneof P T) := by
  -- the type that is parsed is the type that is tested again inside
  unfold parsed EventParser.parse EventParser.megaMission
  cases hty : P.e.type <;> rfl

/-- Parsing into an old message gives what parsing into an empty one does when the old one is
clean. -/
theorem parsed_eq_iff (P : EventEntry) (T : EventMessage) :
    parsed oneof P T = parsed oneof P {} ↔ Clean oneof P.e.type T := by
  rw [clean_iff]
  unfold parsed EventParser.parse EventParser.megaMission KeepsOthers
  -- which payload is set, and whether it takes the others away
  cases P.e.type <;> cases oneof <;>
    simp [EventParser.production, EventParser.place, EventParser.select,
      EventMessage.clearPayloads, EventType.HasPayload, EventParser.megaMissionCommon,
      EventParser.targetClass]

/-! ## The loop -/

/-- The loop fills the entries from `i` on, each from its own old message. -/
theorem elistApplyFrom_parseEntry (C : EventListCtx) (n i : Nat) (dst : List EventMessage)
    (hlength : i + n ≤ dst.length) :
    ∃ r, elistApplyFrom C (parseEntry oneof) n i (some dst) = some r ∧ r.length = dst.length ∧
      ∀ k, r[k]? = if i ≤ k ∧ k < i + n then dst[k]?.map (parsed oneof (getEvent C k))
        else dst[k]? := by
  induction n generalizing i dst with
  | zero =>
    refine ⟨dst, rfl, rfl, ?_⟩
    intro k
    rw [if_neg (by omega)]
  | succ n ih =>
    have hi : i < dst.length := by omega
    have hentry : parseEntry oneof (getEvent C i) (some dst) =
        (some (dst.set i (parsed oneof (getEvent C i) dst[i])), false) := by
      show (match dst[i]? with | none => (none, true) | some it => _) = _
      rw [List.getElem?_eq_getElem hi]
      dsimp only
      rw [parse_eq_parsed]
      rfl
    -- the rest of the loop does not look at entry `i` again
    obtain ⟨r, hr, hrlength, hrk⟩ := ih (i + 1) (dst.set i (parsed oneof (getEvent C i) dst[i]))
      (by rw [List.length_set]; omega)
    refine ⟨r, ?_, ?_, ?_⟩
    · rw [elistApplyFrom, hentry]
      exact hr
    · rw [hrlength, List.length_set]
    · intro k
      rw [hrk k, List.getElem?_set]
      by_cases hk : i = k
      · subst hk
        rw [if_neg (by omega), if_pos rfl, if_pos hi, if_pos (by omega),
          List.getElem?_eq_getElem hi]
        rfl
      · rw [if_neg hk]
        by_cases hin : i + 1 ≤ k ∧ k < i + 1 + n
        · rw [if_pos hin, if_pos (by omega)]
        · rw [if_neg hin, if_neg (by omega)]

/-- The messages that the loop starts from. -/
def resized (dst : List EventMessage) (C : EventListCtx) : List EventMessage :=
  if dst.length ≠ C.count then List.replicate C.count {} else dst

theorem length_resized (dst : List EventMessage) (C : EventListCtx) :
    (resized dst C).length = C.count := by
  unfold resized
  split
  · exact List.length_replicate
  · next h => exact not_not.mp h

theorem parseEventList_spec (dst : List EventMessage) (C : EventListCtx) :
    ∃ r, parseEventList oneof dst C = some r ∧
      ∀ k, r[k]? = (resized dst C)[k]?.map (parsed oneof (getEvent C k)) := by
  obtain ⟨r, hr, -, hrk⟩ := elistApplyFrom_parseEntry oneof C C.count 0 (resized dst C)
    (by rw [length_resized]; omega)
  refine ⟨r, hr, ?_⟩
  intro k
  rw [hrk k]
  by_cases hk : k < C.count
  · rw [if_pos (by omega)]
  · rw [if_neg (by omega), List.getElem?_eq_none (by rw [length_resized]; omega)]
    rfl

/-- The list is resized, or each of its messages is clean for the event that comes to its place. -/
def ListClean (dst : List EventMessage) (C : EventListCtx) : Prop :=
  dst.length ≠ C.count ∨ ∀ (i : Nat) T, dst[i]? = some T → Clean oneof (getEvent C i).e.type T

theorem parseEventList_eq_iff (dst : List EventMessage) (C : EventListCtx) :
    parseEventList oneof dst C = parseEventList oneof [] C ↔ ListClean oneof dst C := by
  have hempty : resized [] C = List.replicate C.count {} := by
    unfold resized
    split
    · rfl
    · next h => rw [← not_not.mp h, List.length_nil, List.replicate_zero]
  obtain ⟨r, hr, hrk⟩ := parseEventList_spec oneof dst C
  obtain ⟨r', hr', hrk'⟩ := parseEventList_spec oneof [] C
  rw [hr, hr', Option.some.injEq, List.ext_getElem?_iff]
  unfold ListClean
  by_cases hlength : dst.length ≠ C.count
  · have hsame : resized dst C = resized [] C := by
      rw [hempty]
      exact if_pos hlength
    apply iff_of_true
    · intro k
      rw [hrk, hrk', hsame]
    · exact .inl hlength
  -- the old messages are the starting point, and compete with empty ones place by place
  · have hsame : resized dst C = dst := if_neg hlength
    have hentry : ∀ k, r[k]? = r'[k]? ↔
        ∀ T, dst[k]? = some T → Clean oneof (getEvent C k).e.type T := by
      intro k
      rw [hrk, hrk', hsame, hempty]
      by_cases hk : k < C.count
      · have hkd : k < dst.length := by omega
        rw [List.getElem?_eq_getElem hkd, List.getElem?_replicate, if_pos hk, Option.map_some,
          Option.map_some, Option.some.injEq, parsed_eq_iff]
        constructor
        · intro h T hT
          rwa [← Option.some.inj hT]
        · intro h
          exact h _ rfl
      · have hnone : dst[k]? = none := List.getElem?_eq_none (by omega)
        have hnone' : (List.replicate C.count ({} : EventMessage))[k]? = none :=
          List.getElem?_eq_none (by rw [List.length_replicate]; omega)
        rw [hnone, hnone']
        constructor
        · intro _ T hT
          cases hT
        · intro _
          rfl
    simp only [hentry]
    constructor
    · exact .inr
    · intro h
      exact h.resolve_left hlength

/-- The three event lists of a snapshot are those it would have from empty lists exactly when each of
them is resized or clean. -/
theorem parseLists_eq_iff (G : EventListMessages) (rings : EventRings) :
    parseLists oneof G rings = parseLists oneof {} rings ↔
      ListClean oneof G.outList rings.outList ∧ ListClean oneof G.doList rings.doList ∧
        ListClean oneof G.megamissionList rings.megaMissionList := by
  rw [← parseEventList_eq_iff, ← parseEventList_eq_iff, ← parseEventList_eq_iff]
  obtain ⟨o, ho, -⟩ := parseEventList_spec oneof G.outList rings.outList
  obtain ⟨o', ho', -⟩ := parseEventList_spec oneof [] rings.outList
  obtain ⟨d, hd, -⟩ := parseEventList_spec oneof G.doList rings.doList
  obtain ⟨d', hd', -⟩ := parseEventList_spec oneof [] rings.doList
  obtain ⟨m, hm, -⟩ := parseEventList_spec oneof G.megamissionList rings.megaMissionList
  obtain ⟨m', hm', -⟩ := parseEventList_spec oneof [] rings.megaMissionList
  unfold parseLists
  simp only [ho, ho', hd, hd', hm, hm', Option.bind_eq_bind, Option.bind_some, Option.pure_def,
    Option.some.injEq, EventListMessages.mk.injEq]

/-- The lower 32 bits, as a signed number. -/
theorem intOfSize_eq (n : Nat) :
    intOfSize n =
      if n % 2 ^ 32 < 2 ^ 31 then ((n % 2 ^ 32 : Nat) : Int)
      else (n % 2 ^ 32 : Nat) - (2 ^ 32 : Nat) := by
  unfold intOfSize
  rw [Int32.toInt_ofNat', Int.bmod_def]
  simp only [Int32.size]
  split <;> split <;> omega

theorem intOfSize_le (n : Nat) : intOfSize n ≤ n := by
  rw [intOfSize_eq]
  split <;> omega

theorem parseLists_isSome (G : EventListMessages) (rings : EventRings) :
    ∃ EL, parseLists oneof G rings = some EL := by
  obtain ⟨o, ho, -⟩ := parseEventList_spec oneof G.outList rings.outList
  obtain ⟨d, hd, -⟩ := parseEventList_spec oneof G.doList rings.doList
  obtain ⟨m, hm, -⟩ := parseEventList_spec oneof G.megamissionList rings.megaMissionList
  unfold parseLists
  rw [ho, hd, hm]
  exact ⟨_, rfl⟩

/-- The buffer takes in the lists of the snapshot, and does not outgrow its size. -/
theorem parseEventLists_buffer {G G' : EventListMessages} {currentFrame : UInt32}
    {ES ES' : EventListsSnapshot} {maxSize : Nat} {rings : EventRings}
    (hsize : ES.lists.length ≤ maxSize)
    (h : parseEventLists oneof G currentFrame ES maxSize rings = some (G', ES')) :
    parseLists oneof G rings = some G' ∧ ES'.lists.getLast? = some G' ∧
      ES'.lists.length ≤ maxSize := by
  obtain ⟨EL, hEL, h⟩ := Option.bind_eq_some_iff.mp h
  obtain ⟨ES₁, hremove, h⟩ := Option.bind_eq_some_iff.mp h
  cases h
  refine ⟨hEL, List.getLast?_concat, ?_⟩
  rw [List.length_append, List.length_singleton]
  have hle := intOfSize_le maxSize
  unfold removeFirst at hremove
  split at hremove
  · obtain ⟨lists, hlists, hremove⟩ := Option.bind_eq_some_iff.mp hremove
    obtain ⟨frame, -, hremove⟩ := Option.bind_eq_some_iff.mp hremove
    cases hremove
    cases hES : ES.lists with
    | nil =>
      rw [hES] at hlists
      cases hlists
    | cons EL' l =>
      rw [hES] at hlists hsize
      cases hlists
      exact hsize
  · cases hremove
    omega

end Parser

/-- A ring with one event. -/
def EventListCtx.single (e : EventClass) : EventListCtx := ⟨1, 0, 7, fun _ => e, fun _ => 30⟩

def EventListCtx.empty : EventListCtx := ⟨0, 0, 7, fun _ => { type := .other 0 }, fun _ => 0⟩

/-- The frame before, a building was produced. -/
def produced : EventMessage :=
  { eventType := .produce, houseIndex := 1, frame := 200, timing := 20,
    production := some { rttiId := 7, heapId := 5 } }

/-- An event without a payload comes to the place of the production, which stays in the message,
whether or not the payloads exclude each other. -/
theorem produced_survives :
    parseLists false ⟨[produced], [], []⟩
        ⟨.single { type := .other 5, houseIndex := 1, frame := 210 }, .empty, .empty⟩ ≠
      parseLists false {} ⟨.single { type := .other 5, houseIndex := 1, frame := 210 }, .empty, .empty⟩ ∧
    parseLists true ⟨[produced], [], []⟩
        ⟨.single { type := .other 5, houseIndex := 1, frame := 210 }, .empty, .empty⟩ ≠
      parseLists true {}
        ⟨.single { type := .other 5, houseIndex := 1, frame := 210 }, .empty, .empty⟩ := by
  decide

end Ra2yrcpp.StateParser
