import Ra2yrcpp.StateParser.EventBuffer
import Ra2yrcpp.StateParser.Houses
import Ra2yrcpp.StateParser.Map
import Ra2yrcpp.StateParser.TypeClasses

/-!
# Snapshots of the game

`CBSaveState::state_to_protobuf` of `hooks_yr.cpp` as a whole, frame after frame, with the other two
callbacks that write to `game_state`: `CBUpdateLoadProgress` and `CBExitGameLoop`.
-/

open Ra2yrcpp.Reasoning

namespace Ra2yrcpp.Snapshot

open StateParser

/-! ## Messages -/

/-- `ra2yrproto::ra2yr::LoadStage`. -/
inductive LoadStage
  | unspecified
  | loading
  | ingame
  | exitGame
  deriving DecidableEq, Repr

/-- `ra2yrproto::ra2yr::GameState`. -/
structure GameState extends EventListMessages where
  stage : LoadStage := .unspecified
  loadProgresses : List DoubleBits := []
  objectTypes : List TypeClassMessage := []
  prerequisiteGroups : PrerequisiteGroups := {}
  crc : UInt32 := 0
  currentFrame : UInt32 := 0
  techLevel : Int32 := 0
  houses : List HouseMessage := []
  objects : List ObjectMessage := []
  factories : List FactoryMessage := []
  cellsDifference : List CellMessage := []
  deriving DecidableEq, Repr

/-- `ra2yrproto::ra2yr::StorageValue`; of `load_state`, its `load_progresses`. -/
structure StorageValue where
  gameState : GameState := {}
  initialGameState : GameState := {}
  loadState : List DoubleBits := []
  mapData : List CellMessage := []
  mapWidth : Int32 := 0
  mapHeight : Int32 := 0
  eventBuffer : EventListsSnapshot := {}
  deriving DecidableEq, Repr

/-! ## The game -/

variable {κ : Type}

/-- What `state_to_protobuf` finds in a frame, with the `parse_map_data_interval` that is configured
then. -/
structure GameFrame (κ : Type) where
  currentFrame : UInt32
  currentFrameCRC : UInt32
  techLevel : Int32
  typeClasses : List AbstractTypeClass
  rules : PrerequisiteRules
  houses : List HouseClass
  technos : List TechnoClass
  factories : List FactoryClass
  cells : κ → CellClass
  containedTiberiumValue : κ → Int32
  isShrouded : κ → Bool
  events : EventRings
  parseMapDataInterval : Nat

/-- What the part about the map reads. -/
def GameFrame.mapFrame (f : GameFrame κ) : Frame κ :=
  ⟨f.currentFrame.toNat, f.cells, f.containedTiberiumValue, f.isShrouded⟩

/-- The storage and the `CBSaveState`.  `initialState` says that `initial_state` is not null; the
static variables of `parse_map` outlive the callback. -/
structure State (κ : Type) where
  sv : StorageValue
  initialState : Bool
  cells : List Cell
  statics : ParseMapStatics κ

def State.init : State κ := ⟨{}, false, [], .init⟩

/-- What the part about the map keeps between frames. -/
def State.saveState (s : State κ) : SaveState κ :=
  ⟨s.statics, s.cells, s.sv.gameState.cellsDifference, s.sv.mapData⟩

/-! ## `state_to_protobuf` -/

/-- `cfg::EVENT_BUFFER_SIZE`. -/
def eventBufferSize : Nat := 600

/-- Up to the type classes.  The flag is false when a parser of the type classes throws. -/
def parseTypes (doTypeClasses : Bool) (sv : StorageValue) (f : GameFrame κ) :
    Option (StorageValue × Bool) :=
  let gbuf := { sv.gameState with
    loadProgresses := sv.loadState, objectTypes := [], prerequisiteGroups := {} }
  if doTypeClasses then
    match parseAbstractTypeClasses sv.initialGameState.objectTypes f.typeClasses with
    | none => none
    | some (typeClasses, ok) =>
      let initial := { sv.initialGameState with objectTypes := typeClasses }
      if ok then
        let groups := parsePrerequisiteGroups initial.prerequisiteGroups f.rules
        some ({ sv with
          gameState := { gbuf with objectTypes := typeClasses, prerequisiteGroups := groups }
          initialGameState := { initial with prerequisiteGroups := groups } }, true)
      else some ({ sv with gameState := gbuf, initialGameState := initial }, false)
  else some ({ sv with gameState := gbuf }, true)

/-- From the CRC to the stage. -/
def parseGame (gbuf : GameState) (f : GameFrame κ) : Option GameState := do
  let houses ← parseHouseClasses gbuf.houses f.houses
  let objects ← parseObjects gbuf.objects f.technos
  let factories ← parseFactories gbuf.factories f.factories
  return { gbuf with
    crc := f.currentFrameCRC
    currentFrame := f.currentFrame
    techLevel := f.techLevel
    houses := houses
    objects := objects
    factories := factories
    stage := .ingame }

section StateToProtobuf

variable (oneof : Bool) (r : Rules) (M : MapClass κ)

/-- The map data and the cells. -/
def parseCellData (s : State κ) (f : GameFrame κ) : Option (State κ) := do
  let m ← StateParser.stateToProtobuf r M f.parseMapDataInterval s.saveState f.mapFrame
  let sv :=
    if 0 < f.currentFrame.toNat ∧ s.sv.mapData.isEmpty then
      { s.sv with mapWidth := M.right + 1, mapHeight := M.bottom + 1 }
    else s.sv
  return { s with
    sv := { sv with
      gameState := { sv.gameState with cellsDifference := m.cellsDifference }
      mapData := m.mapData }
    cells := m.cells
    statics := m.statics }

/-- `initial_state` is set to a copy of the first state that gets here. -/
def setInitialState (s : State κ) : State κ :=
  if s.initialState then s
  else
    { s with
      initialState := true
      sv := { s.sv with initialGameState := s.sv.gameState } }

def parseEvents (s : State κ) (f : GameFrame κ) : Option (State κ) := do
  let (EL, ES) ← parseEventLists oneof s.sv.gameState.toEventListMessages f.currentFrame
    s.sv.eventBuffer eventBufferSize f.events
  return { s with
    sv := { s.sv with
      gameState := { s.sv.gameState with toEventListMessages := EL }
      eventBuffer := ES } }

/-- The state that is left, and the copy that is returned, unless an exception is thrown. -/
def stateToProtobuf (doTypeClasses : Bool) (s : State κ) (f : GameFrame κ) :
    Option (State κ × Option GameState) := do
  match ← parseTypes doTypeClasses s.sv f with
  | (sv, false) => return ({ s with sv := sv }, none)
  | (sv, true) =>
    let gbuf ← parseGame sv.gameState f
    let s ← parseCellData r M { s with sv := { sv with gameState := gbuf } } f
    let s ← parseEvents oneof (setInitialState s) f
    return (s, some s.sv.gameState)

/-- `CBSaveState::exec` up to `work.push`. -/
def exec (s : State κ) (f : GameFrame κ) : Option (State κ × Option GameState) :=
  stateToProtobuf oneof r M s.sv.initialGameState.objectTypes.isEmpty s f

end StateToProtobuf

/-! ## The other callbacks -/

/-- `CBUpdateLoadProgress::exec`, where `n` is `sizeof(*B) / sizeof(B)`. -/
def updateLoadProgress (n : Nat) (B : Nat → DoubleBits) (sv : StorageValue) : StorageValue :=
  let progresses := if sv.loadState.isEmpty then List.replicate n 0 else sv.loadState
  { sv with
    loadState := (List.range progresses.length).foldl (fun l i => l.set i (B i)) progresses
    gameState := { sv.gameState with stage := .loading } }

def exitGameLoop (sv : StorageValue) : StorageValue :=
  { sv with gameState := { sv.gameState with stage := .exitGame } }

/-! ## Runs -/

inductive Action (κ : Type)
  | progressUpdate (B : Nat → DoubleBits)
  | frame (f : GameFrame κ)
  | gameloopExit

/-- A frame that was recorded, with what `PlayerProgresses` was at the last update. -/
structure RecordedFrame (κ : Type) where
  frame : GameFrame κ
  progress : Option (Nat → DoubleBits)

/-- A run, with the snapshots that were pushed to the worker and the frames they are of, what the
last update of the progresses saw, the cells that were parsed last, and whether a frame threw. -/
structure Run (κ : Type) where
  state : State κ
  exited : Bool
  snapshots : List GameState
  frames : List (RecordedFrame κ)
  progress : Option (Nat → DoubleBits)
  parsed : Option (κ → CellClass)
  threw : Bool

def Run.init : Run κ := ⟨.init, false, [], [], none, none, false⟩

variable (oneof : Bool) (r : Rules) (M : MapClass κ) (n : Nat)

/-- A frame parses the cells. -/
def parsesCells (s : State κ) (f : GameFrame κ) : Bool :=
  !(s.saveState.allocated M f.mapFrame).isEmpty &&
    f.currentFrame.toNat % f.parseMapDataInterval == 0

/-- The callbacks are removed at the end of the game loop.  An action without a result ends the
process. -/
def step (h : Run κ) : Action κ → Option (Run κ)
  | .progressUpdate B =>
    if h.exited then some h
    else
      some { h with
        state := { h.state with sv := updateLoadProgress n B h.state.sv }, progress := some B }
  | .frame f =>
    if h.exited then some h
    else
      (exec oneof r M h.state f).map fun
        | (s, none) => { h with state := s, threw := true }
        | (s, some G) =>
          { h with
            state := s
            snapshots := h.snapshots ++ [G]
            frames := h.frames ++ [⟨f, h.progress⟩]
            parsed := if parsesCells M h.state f then some f.cells else h.parsed }
  | .gameloopExit =>
    some { h with exited := true, state := { h.state with sv := exitGameLoop h.state.sv } }

end Ra2yrcpp.Snapshot
