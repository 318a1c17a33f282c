import Ra2yrcpp.Reasoning.Prog
import Ra2yrcpp.StateContext.AddedEvent
import Ra2yrcpp.StateContext.ObjectLookup
import Ra2yrcpp.StateParser.Houses

/-!
# Game commands

The work that the commands of `commands_game.cpp` and `commands_yr.cpp` leave for the game loop.  It
looks things up in the snapshot of the frame (`StateContext`), and calls functions of the game
through the ABI.  `CBGameCommand::exec` does the work of a frame.
-/

open Ra2yrcpp.Reasoning

namespace Ra2yrcpp.Commands

open StateParser (Coordinates ObjectMessage HouseMessage FactoryMessage isLocal)
open StateContext

/-! ## Messages -/

/-- `ra2yrproto::ra2yr::UnitAction`. -/
inductive UnitAction
  | deploy
  | sell
  | sellCell
  | select
  | move
  | capture
  | attack
  | attackMove
  | repair
  | stop
  | other (n : Int32)
  deriving DecidableEq, Repr

structure UnitOrder where
  objectAddresses : List UInt32 := []
  action : UnitAction
  targetObject : UInt32 := 0
  coordinates : Option Coordinates := none

/-- `object_type` is an `ObjectTypeClass`. -/
structure ProduceOrder where
  objectType : TypeClass

/-- `building` is an `Object`, of which the address is read. -/
structure PlaceBuilding where
  building : UInt32
  coordinates : Coordinates

structure ClickEvent where
  objectAddresses : List UInt32
  event : Int32

structure UnitCommand where
  objectAddresses : List UInt32
  action : UnitAction

structure MissionClicked where
  objectAddresses : List UInt32
  event : Int32
  targetObject : UInt32
  coordinates : Coordinates

structure AddEvent where
  event : Event
  frameDelay : UInt32
  spoof : Bool

structure PlaceQuery where
  coordinates : List Coordinates
  typeClass : UInt32
  houseClass : UInt32

structure AddMessage where
  message : String
  color : Int32
  durationFrames : UInt32

inductive Command
  | unitOrder (o : UnitOrder)
  | produceOrder (args : ProduceOrder)
  | placeBuilding (args : PlaceBuilding)
  | clickEvent (args : ClickEvent)
  | unitCommand (args : UnitCommand)
  | missionClicked (args : MissionClicked)
  | addEvent (args : AddEvent)
  | placeQuery (args : PlaceQuery)
  | sendMessage (args : AddMessage)

/-! ## The game -/

variable {EventType κ : Type}

/-- A call of a function that does something to the game; `κ` are the pointers to cells. -/
inductive Call (κ : Type)
  | clickEvent (object : UInt32) (event : UInt8)
  | clickMission (object : UInt32) (mission : Int32) (target : UInt32) (cell : Option κ)
  | selectObject (object : UInt32)
  | deployObject (object : UInt32)
  | sellBuilding (object : UInt32)
  | addMessage (message : String) (color : Int32) (durationFrames : UInt32)
  deriving DecidableEq, Repr

/-- What was done to the game: a call, or an event that was added to `OutList`. -/
inductive Entry (κ : Type)
  | call (c : Call κ)
  | event (ev : Event)
  deriving DecidableEq

/-- The calls and the events so far, and the event lists. -/
structure World (EventType κ : Type) where
  trace : List (Entry κ)
  lists : EventLists EventType

/-- The enumerators of the message definitions that the commands name, with `TryGetCellAt`. -/
structure GameTypes (EventType κ : Type) extends YRpp EventType where
  networkEventDeploy : Int32
  networkEventSell : Int32
  networkEventProduce : Int32
  networkEventPlace : Int32
  missionNone : Int32
  missionConstruction : Int32
  missionMove : Int32
  missionCapture : Int32
  missionAttack : Int32
  missionAttackMove : Int32
  missionStop : Int32
  tryGetCellAt : CellStruct → Option κ

/-- What the functions of the game return, after what was done to it so far. -/
structure Abi (EventType κ : Type) where
  accepts : World EventType κ → Call κ → Bool
  /-- `HouseClass_CanBuild` is `Buildable`. -/
  buildable : World EventType κ → UInt32 → UInt32 → Bool
  getFoundationData : World EventType κ → UInt32 → UInt32
  passesProximityCheck :
    World EventType κ → UInt32 → UInt32 → UInt32 → UInt32 → CellStruct → Bool
  someCheck : World EventType κ → UInt32 → UInt32 → UInt32 → UInt32 → CellStruct → Bool
  canPlaceHere : World EventType κ → UInt32 → CellStruct → UInt32 → Bool

/-- The snapshot of a frame. -/
structure GameSnapshot extends Storage where
  houses : List HouseMessage
  factories : List FactoryMessage

/-- What the commands of a frame find. -/
structure Env (EventType κ : Type) where
  types : GameTypes EventType κ
  abi : Abi EventType κ
  game : Game
  snapshot : GameSnapshot

/-- `tc_cache_` outlives the frame. -/
structure State (EventType κ : Type) extends World EventType κ where
  cache : TcCache

inductive CommandError
  | lookup (e : LookupError)
  | addEvent (e : AddEventError)
  /-- `Object has illegal mission: {}` -/
  | illegalMission (m : Int32)
  /-- `invalid cell` -/
  | invalidCell
  /-- `invalid unit action` -/
  | invalidUnitAction
  /-- `unbuildable {}` -/
  | unbuildable (args : ProduceOrder)
  /-- `completed object {} not found from any factory` -/
  | noFactory (address : UInt32)
  /-- `Proximity check failed` -/
  | proximityCheck
  /-- `CanPlaceHere check failed` -/
  | canPlaceHereCheck
  /-- `ClickEvent failed. object={},event={}` -/
  | clickEvent (object : UInt32) (event : Int32)
  /-- `ClickMission error` -/
  | clickMission
  /-- `invalid local action: {}` -/
  | invalidLocalAction (a : UnitAction)
  /-- `invalid house {}` -/
  | invalidHouse (address : UInt32)

/-- A null pointer is no exception: it ends the process. -/
inductive Stop
  | exception (e : CommandError)
  | nullPointer

/-- The work of a command. -/
abbrev Work (EventType κ α : Type) := Prog (State EventType κ) Stop α

def fail {α : Type} (e : CommandError) : Work EventType κ α := throw (.exception e)

/-! ## `StateContext` -/

/-- A lookup that may fill `tc_cache_`. -/
def lookup {α : Type} (f : TcCache → TcCache × Except LookupError α) : Work EventType κ α := do
  let s ← get
  let r := f s.cache
  set { s with cache := r.1 }
  match r.2 with
  | .ok a => return a
  | .error e => fail (.lookup e)

section Commands

variable (E : Env EventType κ)

/-- A call of a function of the game, and what it returns. -/
def call (c : Call κ) : Work EventType κ Bool := do
  let s ← get
  set { s with trace := s.trace ++ [Entry.call c] }
  return E.abi.accepts s.toWorld c

/-- `add_event`. -/
def addEvent [DecidableEq EventType] (ev : Event) (frameDelay : UInt32 := 0) (spoof : Bool := false)
    (filterDuplicates : Bool := true) : Work EventType κ (EventEntry EventType) := do
  let s ← get
  match StateContext.addEvent E.types.toYRpp E.game
      (E.snapshot.objectTypes.map TypeClass.toObjectTypeClass) s.lists ev frameDelay spoof
      filterDuplicates with
  | .ok (lists, r) =>
    set { s with trace := s.trace ++ [Entry.event ev], lists := lists }
    return r
  | .error e => fail (.addEvent e)

/-- `get_object` for an address, not in limbo. -/
def getObjectNotInLimbo (k : UInt32) : Option ObjectMessage :=
  E.snapshot.objects.find? fun v => v.pointerSelf == k && !v.inLimbo

def currentPlayer : Option HouseMessage := E.snapshot.houses.find? HouseMessage.currentPlayer

def getHouse (address : UInt32) : Option HouseMessage :=
  E.snapshot.houses.find? fun v => v.self == address

def getMapCell (c : Coordinates) : Option κ := E.types.tryGetCellAt (E.types.coord2Cell c)

/-! ## `UnitOrderCtx` -/

def requiresSourceObject (a : UnitAction) : Bool := !decide (a = .sellCell)

def requiresTargetObject : UnitAction → Bool
  | .stop => false
  | _ => true

def requiresTargetCell : UnitAction → Bool
  | .stop | .capture | .repair => false
  | _ => true

def isIllegalMission (m : Int32) : Bool :=
  m == E.types.missionNone || m == E.types.missionConstruction

/-- `click_event` of the object with the address `p`. -/
def clickEvent (p : UInt32) (event : Int32) : Work EventType κ Unit := do
  let _ ← call E (.clickEvent p event.toUInt32.toUInt8)

/-- The coordinates of `click_mission`: those of the order, or those of its target. -/
def targetCoordinates (o : UnitOrder) (target : UInt32) : Work EventType κ Coordinates :=
  if target ≠ 0 ∧ o.coordinates.isNone then do
    let OE ← lookup (getObjectEntry E.snapshot.toStorage target)
    match OE.o with
    | some t => pure (t.value.coordinates.getD ⟨0, 0, 0⟩)
    | none => throw .nullPointer
  else pure (o.coordinates.getD ⟨0, 0, 0⟩)

def targetCell (o : UnitOrder) (target : UInt32) : Work EventType κ (Option κ) :=
  if requiresTargetCell o.action then do
    let c ← targetCoordinates E o target
    match getMapCell E c with
    | some cell => pure (some cell)
    | none => fail .invalidCell
  else pure none

def clickMission (o : UnitOrder) (p : UInt32) (m : Int32) : Work EventType κ Unit := do
  let target := if requiresTargetObject o.action then o.targetObject else 0
  let cell ← targetCell E o target
  let _ ← call E (.clickMission p m target cell)

/-- The event of `UNIT_ACTION_SELL_CELL`. -/
def sellCellEvent (o : UnitOrder) : Event where
  eventType := E.types.networkEventSellCell
  sellCell := some (o.coordinates.getD ⟨0, 0, 0⟩)

/-- The switch of `unit_action`, for the object with the address `p`. -/
def applyAction [DecidableEq EventType] (o : UnitOrder) (p : UInt32) : Work EventType κ Unit :=
  match o.action with
  | .deploy => clickEvent E p E.types.networkEventDeploy
  | .sell => clickEvent E p E.types.networkEventSell
  | .sellCell => do
    let _ ← addEvent E (sellCellEvent E o)
  | .select => do let _ ← call E (.selectObject p)
  | .move => clickMission E o p E.types.missionMove
  | .capture => clickMission E o p E.types.missionCapture
  | .attack => clickMission E o p E.types.missionAttack
  | .attackMove => clickMission E o p E.types.missionAttackMove
  | .repair => clickMission E o p E.types.missionCapture
  | .stop => clickMission E o p E.types.missionStop
  | .other _ => fail .invalidUnitAction

/-- `unit_action`, where `src` is what `src_object_` points to. -/
def unitAction [DecidableEq EventType] (o : UnitOrder) (src : Option ObjectMessage) :
    Work EventType κ Unit := do
  if requiresSourceObject o.action then
    match src with
    | none => throw .nullPointer
    | some v =>
      if isIllegalMission E v.currentMission then fail (.illegalMission v.currentMission)
  applyAction E o (src.elim 0 ObjectMessage.pointerSelf)

/-- The body of the loop of `perform`. -/
def performOn [DecidableEq EventType] (o : UnitOrder) (k : UInt32) : Work EventType κ PUnit := do
  let OE ← lookup (getObjectEntryPred E.snapshot.toStorage (unitPred k))
  unitAction E o (OE.o.map Ref.value)

def perform [DecidableEq EventType] (o : UnitOrder) : Work EventType κ PUnit :=
  if o.action = .sellCell then unitAction E o none else o.objectAddresses.forM (performOn E o)

/-! ## Buildings -/

/-- The event of `produce_order`, with the ids of the request. -/
def produceEvent (args : ProduceOrder) : Event where
  eventType := E.types.networkEventProduce
  production := some { heapId := args.objectType.arrayIndex, rttiId := args.objectType.type }

/-- `produce_order` for the type class that was found. -/
def produce [DecidableEq EventType] (args : ProduceOrder) (tc : TypeClass) :
    Work EventType κ Unit :=
  match currentPlayer E with
  | none => throw .nullPointer
  | some H => do
    let s ← get
    if E.abi.buildable s.toWorld H.self tc.pointerSelf then
      let _ ← addEvent E (produceEvent E args)
    else fail (.unbuildable args)

def produceOrder [DecidableEq EventType] (args : ProduceOrder) : Work EventType κ Unit := do
  let tc ← lookup (getTypeClass E.snapshot.toStorage args.objectType.pointerSelf)
  produce E args tc.value

/-- `DisplayClass_Passes_Proximity_Check` of `abi.cpp`, for the `DisplayClass` of the game. -/
def passesProximityCheck (w : World EventType κ) (object houseIndex : UInt32) (cell : CellStruct) :
    Bool :=
  let fnd := E.abi.getFoundationData w object
  E.abi.passesProximityCheck w 0x87F7E8 object houseIndex fnd cell &&
    E.abi.someCheck w 0x87F7E8 object houseIndex fnd cell

/-- The loop of `find_factory`: the current player is looked up for a factory that has completed the
object. -/
def findFactory (object : UInt32) : List FactoryMessage → Except Stop (Option FactoryMessage)
  | [] => .ok none
  | v :: factories =>
    if v.completed && v.object == object then
      match currentPlayer E with
      | none => .error .nullPointer
      | some H => if v.owner == H.self then .ok (some v) else findFactory object factories
    else findFactory object factories

def placeEvent (H : HouseMessage) (T : TypeClass) (C : Coordinates) : Event where
  eventType := E.types.networkEventPlace
  houseIndex := H.arrayIndex.toUInt32
  place := some { rttiType := T.type, heapId := T.arrayIndex, location := C }

/-- `StateContext::place_building`. -/
def placeBuildingAt [DecidableEq EventType] (H : HouseMessage) (T : TypeClass) (C : Coordinates) :
    Work EventType κ Unit := do
  let s ← get
  let cell := E.types.coord2Cell C
  if !passesProximityCheck E s.toWorld T.pointerSelf H.arrayIndex.toUInt32 cell then
    fail .proximityCheck
  if !E.abi.canPlaceHere s.toWorld T.pointerSelf cell H.self then fail .canPlaceHereCheck
  let _ ← addEvent E (placeEvent E H T C)

/-- `place_building` for the object that was found. -/
def placeObject [DecidableEq EventType] (args : PlaceBuilding) (o : ObjectMessage)
    (tc : TypeClass) : Work EventType κ Unit :=
  match findFactory E o.pointerSelf E.snapshot.factories with
  | .error e => throw e
  | .ok none => fail (.noFactory args.building)
  | .ok (some _) =>
    match currentPlayer E with
    | none => throw .nullPointer
    | some H => placeBuildingAt E H tc args.coordinates

def placeBuilding [DecidableEq EventType] (args : PlaceBuilding) : Work EventType κ Unit := do
  let OE ← lookup (getObjectEntry E.snapshot.toStorage args.building)
  match OE.o, OE.tc with
  | some o, some tc => placeObject E args o.value tc.value
  | _, _ => throw .nullPointer

/-! ## Commands of `commands_yr.cpp` -/

/-- The static function `unit_action`. -/
def yrUnitAction (p : UInt32) : UnitAction → Work EventType κ Unit
  | .deploy => do let _ ← call E (.deployObject p)
  | .sell => do let _ ← call E (.sellBuilding p)
  | .select => do let _ ← call E (.selectObject p)
  | _ => pure ()

def unitCommand (args : UnitCommand) : Work EventType κ Unit := do
  if args.action ≠ .select ∧ !isLocal E.snapshot.houses then
    fail (.invalidLocalAction args.action)
  args.objectAddresses.forM fun k =>
    if (getObjectNotInLimbo E k).isSome then yrUnitAction E k args.action else pure ⟨⟩

def clickEventCommand (args : ClickEvent) : Work EventType κ PUnit :=
  args.objectAddresses.forM fun k => do
    if (getObjectNotInLimbo E k).isSome then
      let accepted ← call E (.clickEvent k args.event.toUInt32.toUInt8)
      if !accepted then fail (.clickEvent k args.event)

def missionClicked (args : MissionClicked) : Work EventType κ PUnit :=
  args.objectAddresses.forM fun k => do
    if (getObjectNotInLimbo E k).isSome then
      let accepted ←
        call E (.clickMission k args.event args.targetObject (getMapCell E args.coordinates))
      if !accepted then fail .clickMission

/-- `cfg::PLACE_QUERY_MAX_LENGTH`. -/
def placeQueryMaxLength : Nat := 1024

/-- The coordinates of a cell, as the halves of the word. -/
def cellX (c : CellStruct) : Int16 := c.toUInt16.toInt16

def cellY (c : CellStruct) : Int16 := (c >>> 16).toUInt16.toInt16

/-- The coordinates that the reply has. -/
def placeQuery (args : PlaceQuery) : Work EventType κ (List Coordinates) := do
  let coordinates := args.coordinates.take placeQueryMaxLength
  let B ← lookup (getTypeClass E.snapshot.toStorage args.typeClass)
  match getHouse E args.houseClass with
  | none => fail (.invalidHouse args.houseClass)
  | some house =>
    let s ← get
    return coordinates.filter fun c =>
      let cell := E.types.coord2Cell c
      !(cellX cell < 0 || cellY cell < 0) &&
        passesProximityCheck E s.toWorld B.value.pointerSelf house.arrayIndex.toUInt32 cell &&
        E.abi.canPlaceHere s.toWorld B.value.pointerSelf cell house.self

/-! ## The work of a frame -/

/-- What is in the result of a command. -/
inductive Reply (EventType : Type)
  | empty
  | event (r : EventEntry EventType)
  | coordinates (l : List Coordinates)

def work [DecidableEq EventType] : Command → Work EventType κ (Reply EventType)
  | .unitOrder o => do perform E o; return .empty
  | .produceOrder args => do produceOrder E args; return .empty
  | .placeBuilding args => do placeBuilding E args; return .empty
  | .clickEvent args => do clickEventCommand E args; return .empty
  | .unitCommand args => do unitCommand E args; return .empty
  | .missionClicked args => do missionClicked E args; return .empty
  | .addEvent args => do return .event (← addEvent E args.event args.frameDelay args.spoof false)
  | .placeQuery args => do return .coordinates (← placeQuery E args)
  | .sendMessage args => do
    let _ ← call E (.addMessage args.message args.color args.durationFrames)
    return .empty

/-- `run_async_handler`: an exception becomes the error of the command. -/
def runAsyncHandler [DecidableEq EventType] (cmd : Command) :
    Work EventType κ (Except CommandError (Reply EventType)) :=
  tryCatch (do return .ok (← work E cmd)) fun
    | .exception e => return .error e
    | .nullPointer => throw .nullPointer

/-- `CBGameCommand::exec` with the items of the queue, oldest first. -/
def gameCommandExec [DecidableEq EventType] :
    List Command → Work EventType κ (List (Except CommandError (Reply EventType)))
  | [] => return []
  | cmd :: items => do
    let r ← runAsyncHandler E cmd
    let results ← gameCommandExec items
    return r :: results

end Commands

end Ra2yrcpp.Commands
