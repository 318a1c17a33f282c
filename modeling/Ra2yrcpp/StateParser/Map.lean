import Ra2yrcpp.Reasoning.Snapshots
import Ra2yrcpp.Reasoning.Transition

/-!
# Cells of the map

The part of `state_parser.cpp` that reads the cells of the map, and of `CBSaveState` in
`hooks_yr.cpp` that records them frame by frame.  A frame is recorded with the list of cells that
changed since the map was parsed last.
-/

open Ra2yrcpp.Reasoning

namespace Ra2yrcpp.StateParser

/-! ## The game -/

structure CellStruct where
  X : Int16
  Y : Int16
  deriving DecidableEq, Repr

/-- The bit pattern of a double: cells are compared bytewise. -/
abbrev DoubleBits := UInt64

/-- What the parser reads of a `CellClass`. -/
structure CellClass where
  radLevel : DoubleBits
  landType : Int32
  height : Int8
  level : Int8
  overlayData : UInt8
  altFlags : UInt32
  passability : UInt32
  firstObject : UInt32
  wallOwnerIndex : Int32
  overlayTypeIndex : Int32
  deriving DecidableEq, Repr

/-- A map with `MapCoordBounds.Right` and `.Bottom`; `κ` are the addresses of its cells.  The
coordinates of all cells are shorts, and a cell is found under its own. -/
structure MapClass (κ : Type) where
  right : Int32
  bottom : Int32
  tryGetCellAt : CellStruct → Option κ
  mapCoords : κ → CellStruct
  right_lt : right.toInt < 32768
  bottom_lt : bottom.toInt < 32768
  mapCoords_of_tryGetCellAt : ∀ c k, tryGetCellAt c = some k → mapCoords k = c

/-- What `get_tiberium_type` reads of a `TiberiumClass`, with `Image->ArrayIndex`. -/
structure TiberiumClass where
  arrayIndex : Int32
  imageArrayIndex : Int32
  numImages : Int32
  fieldEC : Int32
  value : Int32
  deriving DecidableEq, Repr

/-- The arrays of type classes and the value of `LAND_TYPE_Tiberium`.  `overlayTypeTiberium` and
`tiberium` are `GetItem`, which does not check its index. -/
structure Rules where
  overlayTypeTiberium : Int32 → Bool
  tiberiums : List TiberiumClass
  tiberium : Int32 → TiberiumClass
  landTypeTiberium : Int32

def getTiberiumType (r : Rules) (overlayTypeIndex : Int32) : Int32 :=
  if overlayTypeIndex = -1 ∨ r.overlayTypeTiberium overlayTypeIndex = false then -1
  else
    let hit := r.tiberiums.find? fun t =>
      let ix := t.imageArrayIndex
      decide (ix ≤ overlayTypeIndex ∧ overlayTypeIndex < t.numImages + ix) ||
        decide (t.numImages + ix ≤ overlayTypeIndex ∧
          overlayTypeIndex < t.fieldEC + t.numImages + ix)
    match hit with
    | some t => t.arrayIndex
    | none => 0

def getTiberiumValue (r : Rules) (cell : CellClass) : Int32 :=
  let ix := getTiberiumType r cell.overlayTypeIndex
  if ix = -1 then 0 else (r.tiberium ix).value * (Int32.ofNat cell.overlayData.toNat + 1)

/-! ## Parsed cells -/

/-- The intermediate `Cell`.  `pad` also stands for the bytes that alignment adds: no assignment of
the parser names them. -/
structure Cell where
  landType : Int32
  overlayData : Int32
  tiberiumValue : Int32
  radiationLevel : DoubleBits
  passability : UInt32
  index : Int32
  shrouded : Bool
  height : Int8
  level : Int8
  pad : UInt8
  firstObject : UInt32
  wallOwnerIndex : Int32
  overlayTypeIndex : Int32
  deriving DecidableEq, Repr

def Cell.zero : Cell := ⟨0, 0, 0, 0, 0, 0, false, 0, 0, 0, 0, 0, 0⟩

/-- `ra2yrproto::ra2yr::Cell`; of the objects only `pointer_self` is set. -/
structure CellMessage where
  landType : Int32 := 0
  radiationLevel : DoubleBits := 0
  height : Int32 := 0
  level : Int32 := 0
  overlayData : Int32 := 0
  tiberiumValue : Int32 := 0
  shrouded : Bool := false
  passability : UInt32 := 0
  index : Int32 := 0
  objects : List UInt32 := []
  wallOwnerIndex : Int32 := 0
  overlayTypeIndex : Int32 := 0
  deriving DecidableEq, Repr

def Cell.copyTo (dst : CellMessage) (src : Cell) : CellMessage where
  landType := src.landType
  radiationLevel := src.radiationLevel
  height := src.height.toInt32
  level := src.level.toInt32
  overlayData := src.overlayData
  tiberiumValue := src.tiberiumValue
  shrouded := src.shrouded
  passability := src.passability
  index := src.index
  objects := if src.firstObject ≠ 0 then [src.firstObject] else dst.objects
  wallOwnerIndex := src.wallOwnerIndex
  overlayTypeIndex := src.overlayTypeIndex

def parseCell (r : Rules) (C : Cell) (ix : Int32) (cc : CellClass) : Cell :=
  { C with
    radiationLevel := cc.radLevel
    landType := cc.landType
    height := cc.height
    level := cc.level
    overlayData := Int32.ofNat cc.overlayData.toNat
    tiberiumValue := if cc.landType = r.landTypeTiberium then getTiberiumValue r cc else 0
    shrouded := cc.altFlags &&& 0x8 == 0
    passability := cc.passability
    index := ix
    firstObject := cc.firstObject
    wallOwnerIndex := cc.wallOwnerIndex
    overlayTypeIndex := cc.overlayTypeIndex }

/-! ## Parsing the map -/

variable {κ : Type}

/-- The loops run up to and including `Right` and `Bottom`. -/
def MapClass.width (M : MapClass κ) : Nat := (M.right.toInt + 1).toNat
def MapClass.height (M : MapClass κ) : Nat := (M.bottom.toInt + 1).toNat

/-- `TryGetCellAt` at loop indices, which are cast to shorts. -/
def MapClass.cellAt (M : MapClass κ) (p : Nat × Nat) : Option κ :=
  M.tryGetCellAt ⟨Int16.ofNat p.1, Int16.ofNat p.2⟩

def getValidCells (M : MapClass κ) : List κ := (grid M.width M.height).filterMap M.cellAt

def cellIndex (M : MapClass κ) (cc : κ) : Int32 :=
  (M.right + 1) * (M.mapCoords cc).Y.toInt32 + (M.mapCoords cc).X.toInt32

/-- `parse_cells`, where `dest` and `src` go on to the end of their arrays. -/
def parseCells (r : Rules) (M : MapClass κ) (cells : κ → CellClass) :
    List Cell → List κ → Nat → List Cell
  | C :: dest, cc :: src, c + 1 =>
    parseCell r C (cellIndex M cc) (cells cc) :: parseCells r M cells dest src c
  | dest, _, _ => dest

/-- `update_modified_cells` on as many cells as `current` has. -/
def updateModifiedCells :
    List Cell → List Cell → List CellMessage → List Cell × List CellMessage
  | C :: current, p :: previous, difference =>
    if C ≠ p then
      let (previous, difference) :=
        updateModifiedCells current previous (difference ++ [C.copyTo {}])
      (C :: previous, difference)
    else
      let (previous, difference) := updateModifiedCells current previous difference
      (p :: previous, difference)
  | _, previous, difference => (previous, difference)

structure Buffers where
  cellBuf : List Cell
  previous : List Cell
  difference : List CellMessage

/-- Parse the `c` cells from `i` on, and compare them as one block before comparing each.  This is
`apply_cell_stride<N>` with `c = N`, and the body of the loop over the remainder. -/
def applyCells (r : Rules) (M : MapClass κ) (cells : κ → CellClass) (valid : List κ) (c : Nat)
    (b : Buffers) (i : Nat) : Buffers :=
  let buf := parseCells r M cells b.cellBuf (valid.drop i) c
  if buf.take c ≠ (b.previous.drop i).take c then
    let (previous, difference) :=
      updateModifiedCells (buf.take c) (b.previous.drop i) b.difference
    ⟨buf, b.previous.take i ++ previous, difference⟩
  else ⟨buf, b.previous, b.difference⟩

def chunk : Nat := 128

/-- The static variables of `parse_map`. -/
structure ParseMapStatics (κ : Type) where
  validCellObjects : List κ
  cellBuf : List Cell

def ParseMapStatics.init : ParseMapStatics κ := ⟨[], List.replicate chunk Cell.zero⟩

def parseMap (r : Rules) (M : MapClass κ) (cells : κ → CellClass) (st : ParseMapStatics κ)
    (previous : List Cell) (difference : List CellMessage) :
    ParseMapStatics κ × List Cell × List CellMessage :=
  let valid := if st.validCellObjects.isEmpty then getValidCells M else st.validCellObjects
  let sz := valid.length
  let cnt := sz / chunk
  let b := (forLoop 0 (cnt * chunk) chunk).foldl (applyCells r M cells valid chunk)
    ⟨st.cellBuf, previous, difference⟩
  let b := (forLoop (cnt * chunk) sz chunk).foldl
    (applyCells r M cells valid (min chunk (sz - cnt * chunk))) b
  (⟨valid, b.cellBuf⟩, b.previous, b.difference)

/-! ## Recording frames -/

/-- The game at a frame, with the answers of `CellClass_GetContainedTiberiumValue` and
`CellClass_IsShrouded`. -/
structure Frame (κ : Type) where
  currentFrame : Nat
  cells : κ → CellClass
  containedTiberiumValue : κ → Int32
  isShrouded : κ → Bool

/-- `RepeatedPtrField::at`, which ends the process on a bad index. -/
def modifyAt (m : List CellMessage) (ix : Int32) (f : CellMessage → CellMessage) :
    Option (List CellMessage) :=
  if 0 ≤ ix.toInt ∧ ix.toInt < m.length then some (m.modify ix.toInt.toNat f) else none

def parseMapDataCell (r : Rules) (f : Frame κ) (k : κ) (c : CellMessage) : CellMessage :=
  let cc := f.cells k
  { c with
    landType := cc.landType
    height := cc.height.toInt32
    level := cc.level.toInt32
    radiationLevel := cc.radLevel
    overlayData := Int32.ofNat cc.overlayData.toNat
    objects := if cc.firstObject ≠ 0 then [cc.firstObject] else c.objects
    tiberiumValue :=
      if cc.landType = r.landTypeTiberium then f.containedTiberiumValue k else c.tiberiumValue
    shrouded := f.isShrouded k
    passability := cc.passability
    wallOwnerIndex := cc.wallOwnerIndex
    overlayTypeIndex := cc.overlayTypeIndex }

/-- The body of the loops of `parse_MapData`. -/
def parseMapDataAt (r : Rules) (M : MapClass κ) (f : Frame κ) (m : List CellMessage)
    (p : Nat × Nat) : Option (List CellMessage) :=
  match M.cellAt p with
  | some k =>
    modifyAt m ((M.right + 1) * Int32.ofNat p.2 + Int32.ofNat p.1) (parseMapDataCell r f k)
  | none => some m

def parseMapData (r : Rules) (M : MapClass κ) (f : Frame κ) (m : List CellMessage) :
    Option (List CellMessage) :=
  let sz := (M.right + 1) * (M.bottom + 1)
  let m := if (m.length : Int) ≠ sz.toInt then List.replicate sz.toInt.toNat {} else m
  (grid M.width M.height).foldlM (parseMapDataAt r M f) m

def updateMapData (m : List CellMessage) (difference : List CellMessage) :
    Option (List CellMessage) :=
  difference.foldlM (fun m c => modifyAt m c.index fun _ => c) m

/-- What `state_to_protobuf` keeps about the map between frames: its own `cells`, the
`cells_difference` of `game_state` and the cells of `map_data`. -/
structure SaveState (κ : Type) where
  statics : ParseMapStatics κ
  cells : List Cell
  cellsDifference : List CellMessage
  mapData : List CellMessage

def SaveState.init : SaveState κ := ⟨.init, [], [], []⟩

/-- `cells`, allocated in the first frame after frame 0. -/
def SaveState.allocated (M : MapClass κ) (s : SaveState κ) (f : Frame κ) : List Cell :=
  if s.cells.isEmpty ∧ 0 < f.currentFrame then List.replicate (getValidCells M).length Cell.zero
  else s.cells

/-- `map_data`, parsed as a whole in the first frame after frame 0. -/
def SaveState.initMapData (r : Rules) (M : MapClass κ) (s : SaveState κ) (f : Frame κ) :
    Option (List CellMessage) :=
  if 0 < f.currentFrame ∧ s.mapData.isEmpty then parseMapData r M f s.mapData else some s.mapData

/-- The part of `state_to_protobuf` about the map; nothing else touches `cells_difference`. -/
def stateToProtobuf (r : Rules) (M : MapClass κ) (interval : Nat) (s : SaveState κ) (f : Frame κ) :
    Option (SaveState κ) := do
  let mapData ← s.initMapData r M f
  let cells := s.allocated M f
  if cells.isEmpty then some { s with cells := cells, mapData := mapData }
  else if interval = 0 then none
  else if f.currentFrame % interval = 0 then
    let (statics, cells, difference) := parseMap r M f.cells s.statics cells []
    let mapData ← updateMapData mapData difference
    some ⟨statics, cells, difference, mapData⟩
  else some { s with cells := cells, mapData := mapData }

/-- The run of the program, with what it recorded and the cells that were parsed last. -/
structure Recording (κ : Type) where
  state : SaveState κ
  recorded : List (List CellMessage)
  parsed : Option (κ → CellClass)

def Recording.init : Recording κ := ⟨.init, [], none⟩

def record (r : Rules) (M : MapClass κ) (interval : Nat) (h : Recording κ) (f : Frame κ) :
    Option (Recording κ) := do
  let s ← stateToProtobuf r M interval h.state f
  let parses := !(h.state.allocated M f).isEmpty && f.currentFrame % interval == 0
  some ⟨s, h.recorded ++ [s.cellsDifference], if parses then some f.cells else h.parsed⟩

/-- A reader of the records starts with default messages and replaces cell by cell. -/
def replay (recorded : List (List CellMessage)) : Int32 → CellMessage :=
  recorded.foldl (patch CellMessage.index) fun _ => {}

end Ra2yrcpp.StateParser
