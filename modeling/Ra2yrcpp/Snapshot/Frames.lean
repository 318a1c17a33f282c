import Ra2yrcpp.Snapshot.Model
import Ra2yrcpp.StateParser.MapData

/-!
# Frames

What one call of `state_to_protobuf` leaves in the storage: with or without an exception, and
whatever the frames before it have left there.
-/

open Ra2yrcpp.Reasoning

namespace Ra2yrcpp.Snapshot

open StateParser

variable {κ : Type} {oneof : Bool} {r : Rules} {M : MapClass κ} {n : Nat} {s s' : State κ}
  {f : GameFrame κ} {m : SaveState κ}

/-! ## One frame -/

/-- There are no type classes yet, and one that the frame finds cannot be parsed. -/
def Throws (s : State κ) (f : GameFrame κ) : Prop :=
  s.sv.initialGameState.objectTypes = [] ∧ f.typeClasses.all AbstractTypeClass.parses = false

instance (s : State κ) (f : GameFrame κ) : Decidable (Throws s f) :=
  inferInstanceAs (Decidable (_ ∧ _))

/-- The type classes that are parsed in the frame. -/
def newTypes (s : State κ) (f : GameFrame κ) : List TypeClassMessage :=
  if s.sv.initialGameState.objectTypes.isEmpty then f.typeClasses.map typeClassMessage else []

/-- The prerequisite groups, where the type classes are parsed. -/
def newGroups (s : State κ) (f : GameFrame κ) : PrerequisiteGroups :=
  if s.sv.initialGameState.objectTypes.isEmpty then
    parsePrerequisiteGroups s.sv.initialGameState.prerequisiteGroups f.rules
  else {}

/-- What `parse_EventLists` finds. -/
def eventCall (s : State κ) (f : GameFrame κ) : EventCall :=
  ⟨s.sv.gameState.toEventListMessages, f.currentFrame, f.events⟩

/-- The snapshot of a frame in which nothing throws. -/
def snapshot (oneof : Bool) (s : State κ) (f : GameFrame κ) (difference : List CellMessage) :
    GameState where
  toEventListMessages := (eventCall s f).parsed oneof
  stage := .ingame
  loadProgresses := s.sv.loadState
  objectTypes := newTypes s f
  prerequisiteGroups := newGroups s f
  crc := f.currentFrameCRC
  currentFrame := f.currentFrame
  techLevel := f.techLevel
  houses := f.houses.map (parseHouseClass {})
  objects := refill (slots [] f.technos) s.sv.gameState.objects
  factories := f.factories.map fun I => parseFactory I {}
  cellsDifference := difference

/-- The state after a frame that throws. -/
def thrown (s : State κ) (f : GameFrame κ) : State κ :=
  { s with
    sv := { s.sv with
      gameState := { s.sv.gameState with
        loadProgresses := s.sv.loadState, objectTypes := [], prerequisiteGroups := {} }
      initialGameState := { s.sv.initialGameState with
        objectTypes := firstTypeClasses f.typeClasses } } }

/-- `initial_game_state` after a frame in which nothing throws. -/
def initialAfter (oneof : Bool) (s : State κ) (f : GameFrame κ) (difference : List CellMessage) :
    GameState :=
  if s.initialState then
    if s.sv.initialGameState.objectTypes.isEmpty then
      { s.sv.initialGameState with
        objectTypes := newTypes s f, prerequisiteGroups := newGroups s f }
    else s.sv.initialGameState
  else
    -- copied before the event lists are parsed
    { snapshot oneof s f difference with
      toEventListMessages := s.sv.gameState.toEventListMessages }

/-- The frame parses the map data as a whole. -/
def ParsesMapData (s : State κ) (f : GameFrame κ) : Prop :=
  0 < f.currentFrame.toNat ∧ s.sv.mapData.isEmpty

instance (s : State κ) (f : GameFrame κ) : Decidable (ParsesMapData s f) :=
  inferInstanceAs (Decidable (_ ∧ _))

/-- What a frame in which nothing throws leaves. -/
structure After (oneof : Bool) (M : MapClass κ) (s : State κ) (f : GameFrame κ) (m : SaveState κ)
    (s' : State κ) : Prop where
  gameState : s'.sv.gameState = snapshot oneof s f m.cellsDifference
  initialGameState : s'.sv.initialGameState = initialAfter oneof s f m.cellsDifference
  initialState : s'.initialState = true
  loadState : s'.sv.loadState = s.sv.loadState
  saveState : s'.saveState = m
  mapWidth : s'.sv.mapWidth = if ParsesMapData s f then M.right + 1 else s.sv.mapWidth
  mapHeight : s'.sv.mapHeight = if ParsesMapData s f then M.bottom + 1 else s.sv.mapHeight
  eventBuffer : s'.sv.eventBuffer =
    ⟨slide eventBufferSize s.sv.eventBuffer.lists ((eventCall s f).parsed oneof),
      slide eventBufferSize s.sv.eventBuffer.frame f.currentFrame⟩

theorem parseTypes_of_throws (h : Throws s f) :
    parseTypes s.sv.initialGameState.objectTypes.isEmpty s.sv f =
      some ((thrown s f).sv, false) := by
  obtain ⟨hnil, hthrow⟩ := h
  unfold parseTypes
  rw [hnil, List.isEmpty_nil, if_pos rfl, parseAbstractTypeClasses_nil, hthrow]
  rfl

/-- The storage with the type classes that the frame parses. -/
def typesParsed (s : State κ) (f : GameFrame κ) : StorageValue :=
  { s.sv with
    gameState := { s.sv.gameState with
      loadProgresses := s.sv.loadState
      objectTypes := newTypes s f
      prerequisiteGroups := newGroups s f }
    initialGameState :=
      if s.sv.initialGameState.objectTypes.isEmpty then
        { s.sv.initialGameState with
          objectTypes := newTypes s f, prerequisiteGroups := newGroups s f }
      else s.sv.initialGameState }

theorem parseTypes_of_returns (h : ¬Throws s f) :
    parseTypes s.sv.initialGameState.objectTypes.isEmpty s.sv f =
      some (typesParsed s f, true) := by
  unfold parseTypes typesParsed newTypes newGroups
  by_cases hnil : s.sv.initialGameState.objectTypes = []
  · have hall : f.typeClasses.all AbstractTypeClass.parses = true := by
      by_contra hthrow
      exact h ⟨hnil, Bool.not_eq_true _ ▸ hthrow⟩
    simp [hnil, parseAbstractTypeClasses_nil, hall, firstTypeClasses_eq]
  · have hempty : s.sv.initialGameState.objectTypes.isEmpty = false := by
      rw [Bool.eq_false_iff, Ne, List.isEmpty_iff]
      exact hnil
    rw [hempty]
    rfl

theorem parseGame_eq (gbuf : GameState) (f : GameFrame κ) :
    parseGame gbuf f = some { gbuf with
      crc := f.currentFrameCRC
      currentFrame := f.currentFrame
      techLevel := f.techLevel
      houses := f.houses.map (parseHouseClass {})
      objects := refill (slots [] f.technos) gbuf.objects
      factories := f.factories.map fun I => parseFactory I {}
      stage := .ingame } := by
  unfold parseGame
  rw [parseHouseClasses_eq, parseObjects_eq, parseFactories_eq]
  rfl

theorem intOfSize_eventBufferSize : intOfSize eventBufferSize = (600 : Nat) := by
  rw [intOfSize_eq]
  rfl

/-- The buffer takes in the event lists that the game state gets. -/
theorem parseEventLists_eq (call : EventCall) {ES : EventListsSnapshot}
    (hlength : ES.frame.length = ES.lists.length) :
    parseEventLists oneof call.G call.currentFrame ES eventBufferSize call.rings =
      some (call.parsed oneof,
        ⟨slide eventBufferSize ES.lists (call.parsed oneof),
          slide eventBufferSize ES.frame call.currentFrame⟩) := by
  have hlists : parseLists oneof call.G call.rings = some (call.parsed oneof) := call.lists_eq oneof
  have hslide := run_slide oneof call intOfSize_eventBufferSize (by decide) hlength
  unfold EventCall.run parseEventLists at hslide
  unfold parseEventLists
  rw [hlists] at hslide ⊢
  cases hremove : removeFirst ES eventBufferSize with
  | none =>
    rw [hremove] at hslide
    cases hslide
  | some ES' =>
    rw [hremove] at hslide
    exact congrArg (fun ES => some (call.parsed oneof, ES)) (Option.some.inj hslide)

theorem exec_of_throws (h : Throws s f) : exec oneof r M s f = some (thrown s f, none) := by
  unfold exec stateToProtobuf
  rw [parseTypes_of_throws h]
  rfl

/-- The state after the part about the map, which leaves `m`. -/
def cellDataParsed (M : MapClass κ) (s : State κ) (f : GameFrame κ) (m : SaveState κ) : State κ :=
  { s with
    sv := { s.sv with
      gameState := { s.sv.gameState with cellsDifference := m.cellsDifference }
      mapData := m.mapData
      mapWidth := if ParsesMapData s f then M.right + 1 else s.sv.mapWidth
      mapHeight := if ParsesMapData s f then M.bottom + 1 else s.sv.mapHeight }
    cells := m.cells
    statics := m.statics }

theorem parseCellData_eq
    (hm : StateParser.stateToProtobuf r M f.parseMapDataInterval s.saveState f.mapFrame = some m) :
    parseCellData r M s f = some (cellDataParsed M s f m) := by
  unfold parseCellData cellDataParsed
  rw [hm]
  by_cases hmap : ParsesMapData s f
  · have hmap' : 0 < f.currentFrame.toNat ∧ s.sv.mapData.isEmpty := hmap
    simp only [if_pos hmap, if_pos hmap']
    rfl
  · have hmap' : ¬(0 < f.currentFrame.toNat ∧ s.sv.mapData.isEmpty) := hmap
    simp only [if_neg hmap, if_neg hmap']
    rfl

theorem parseEvents_eq
    (hlength : s.sv.eventBuffer.frame.length = s.sv.eventBuffer.lists.length) :
    parseEvents oneof s f = some
      { s with
        sv := { s.sv with
          gameState := { s.sv.gameState with
            toEventListMessages := (eventCall s f).parsed oneof }
          eventBuffer :=
            ⟨slide eventBufferSize s.sv.eventBuffer.lists ((eventCall s f).parsed oneof),
              slide eventBufferSize s.sv.eventBuffer.frame f.currentFrame⟩ } } := by
  have hevents : parseEventLists oneof s.sv.gameState.toEventListMessages f.currentFrame
      s.sv.eventBuffer eventBufferSize f.events = _ := parseEventLists_eq (eventCall s f) hlength
  unfold parseEvents
  rw [hevents]
  rfl

/-- The state that the part about the map starts from. -/
def gameParsed (s : State κ) (f : GameFrame κ) : State κ :=
  { s with
    sv := { typesParsed s f with
      gameState := { (typesParsed s f).gameState with
        crc := f.currentFrameCRC
        currentFrame := f.currentFrame
        techLevel := f.techLevel
        houses := f.houses.map (parseHouseClass {})
        objects := refill (slots [] f.technos) s.sv.gameState.objects
        factories := f.factories.map fun I => parseFactory I {}
        stage := .ingame } } }

theorem setInitialState_of_set (h : s.initialState = true) : setInitialState s = s := if_pos h

theorem setInitialState_of_unset (h : s.initialState = false) :
    setInitialState s =
      { s with initialState := true, sv := { s.sv with initialGameState := s.sv.gameState } } :=
  if_neg (by rw [h]; decide)

theorem exec_of_returns (h : ¬Throws s f)
    (hm : StateParser.stateToProtobuf r M f.parseMapDataInterval s.saveState f.mapFrame = some m)
    (hlength : s.sv.eventBuffer.frame.length = s.sv.eventBuffer.lists.length) :
    ∃ s', exec oneof r M s f = some (s', some (snapshot oneof s f m.cellsDifference)) ∧
      After oneof M s f m s' := by
  have hcells := parseCellData_eq (s := gameParsed s f) (r := r) (M := M) (f := f) hm
  unfold exec stateToProtobuf
  rw [parseTypes_of_returns h]
  dsimp only [Option.bind_eq_bind, Option.bind_some]
  rw [parseGame_eq, Option.bind_some]
  change ∃ s', ((parseCellData r M (gameParsed s f) f).bind fun s =>
    (parseEvents oneof (setInitialState s) f).bind fun s =>
      some (s, some s.sv.gameState)) = _ ∧ _
  rw [hcells, Option.bind_some]
  cases hset : s.initialState with
  | true =>
    have hset' : (cellDataParsed M (gameParsed s f) f m).initialState = true := hset
    rw [setInitialState_of_set hset', parseEvents_eq]
    · refine ⟨_, rfl, rfl, ?_, hset, rfl, rfl, rfl, rfl, rfl⟩
      unfold initialAfter
      rw [if_pos hset]
      rfl
    · exact hlength
  | false =>
    have hset' : (cellDataParsed M (gameParsed s f) f m).initialState = false := hset
    rw [setInitialState_of_unset hset', parseEvents_eq]
    · refine ⟨_, rfl, rfl, ?_, rfl, rfl, rfl, rfl, rfl, rfl⟩
      unfold initialAfter
      rw [if_neg (by rw [hset]; decide)]
      rfl
    · exact hlength

/-! ## Load progresses -/

/-- The progresses that a snapshot has after an update. -/
def progresses (n : Nat) (B : Option (Nat → DoubleBits)) : List DoubleBits :=
  B.elim [] fun B => (List.range n).map B

theorem length_progresses (n : Nat) (B : Nat → DoubleBits) : (progresses n (some B)).length = n :=
  (List.length_map B).trans List.length_range

-- the entries that the loop has passed are those of `B`
theorem foldl_set_range (B : Nat → DoubleBits) (k : Nat) (l : List DoubleBits) (hk : k ≤ l.length) :
    (List.range k).foldl (fun l i => l.set i (B i)) l = (List.range k).map B ++ l.drop k := by
  induction k with
  | zero => rfl
  | succ k ih =>
    have hlen : ((List.range k).map B).length = k := by rw [List.length_map, List.length_range]
    rw [List.range_succ, List.foldl_append, ih (by omega), List.foldl_cons, List.foldl_nil,
      List.set_append_right _ _ (by omega), hlen, Nat.sub_self, List.map_append,
      List.drop_eq_getElem_cons (by omega), List.set_cons_zero, List.append_assoc]
    rfl

/-- The list is made once, with `n` entries, and written anew by each update. -/
theorem updateLoadProgress_loadState (B : Nat → DoubleBits) {B' : Option (Nat → DoubleBits)}
    {sv : StorageValue} (h : sv.loadState = progresses n B') :
    (updateLoadProgress n B sv).loadState = progresses n (some B) := by
  have hlen : (if sv.loadState.isEmpty then List.replicate n 0 else sv.loadState).length = n := by
    rw [h]
    cases B' with
    | none => exact List.length_replicate
    | some B' =>
      split
      · exact List.length_replicate
      · exact length_progresses n B'
  unfold updateLoadProgress
  dsimp only
  rw [hlen, foldl_set_range B n _ (by omega), List.drop_of_length_le (by omega), List.append_nil]
  rfl

end Ra2yrcpp.Snapshot
