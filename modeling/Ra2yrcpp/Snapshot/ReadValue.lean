import Ra2yrcpp.Snapshot.Runs

/-!
# Reading values

The `ReadValue` command of `commands_yr.cpp`: a request has the field that is asked for set, and the
reply is the request with that field filled.  `map_data_soa` is the map data by columns.
-/

open Ra2yrcpp.Reasoning

namespace Ra2yrcpp.Snapshot

open StateParser

/-! ## Messages -/

/-- `ra2yrproto::ra2yr::MapData`. -/
structure MapDataMessage where
  cells : List CellMessage := []
  width : Int32 := 0
  height : Int32 := 0
  deriving DecidableEq, Repr

/-- `ra2yrproto::ra2yr::MapDataSoA`. -/
structure MapDataSoA where
  landType : List Int32 := []
  radiationLevel : List DoubleBits := []
  height : List Int32 := []
  level : List Int32 := []
  overlayData : List Int32 := []
  tiberiumValue : List Int32 := []
  shrouded : List Bool := []
  passability : List UInt32 := []
  mapWidth : Int32 := 0
  mapHeight : Int32 := 0
  deriving DecidableEq, Repr

/-- The fields of a `StorageValue` message. -/
inductive Field
  | gameState
  | initialGameState
  | loadState
  | mapData
  | mapDataSoa
  | eventBuffer
  deriving DecidableEq, Repr

/-- The `data` of a `ReadValue` message. -/
structure StorageMessage where
  gameState : Option GameState := none
  initialGameState : Option GameState := none
  loadState : Option (List DoubleBits) := none
  mapData : Option MapDataMessage := none
  mapDataSoa : Option MapDataSoA := none
  eventBuffer : Option EventListsSnapshot := none
  deriving DecidableEq, Repr

def StorageMessage.isSet (A : StorageMessage) : Field → Bool
  | .gameState => A.gameState.isSome
  | .initialGameState => A.initialGameState.isSome
  | .loadState => A.loadState.isSome
  | .mapData => A.mapData.isSome
  | .mapDataSoa => A.mapDataSoa.isSome
  | .eventBuffer => A.eventBuffer.isSome

/-! ## The command -/

/-- `find_set_fields`; `fields` are the fields of the message by their numbers. -/
def findSetFields (fields : List Field) (A : StorageMessage) : List Field :=
  fields.filter A.isSet

def StorageValue.mapDataMessage (sv : StorageValue) : MapDataMessage :=
  ⟨sv.mapData, sv.mapWidth, sv.mapHeight⟩

/-- `copy_field`.  Nothing writes to the `map_data_soa` of the storage. -/
def copyField (D : StorageMessage) (sv : StorageValue) : Field → StorageMessage
  | .gameState => { D with gameState := some sv.gameState }
  | .initialGameState => { D with initialGameState := some sv.initialGameState }
  | .loadState => { D with loadState := some sv.loadState }
  | .mapData => { D with mapData := some sv.mapDataMessage }
  | .mapDataSoa => { D with mapDataSoa := some {} }
  | .eventBuffer => { D with eventBuffer := some sv.eventBuffer }

/-- The body of the loop of `convert_map_data`. -/
def MapDataSoA.addCell (dst : MapDataSoA) (c : CellMessage) : MapDataSoA :=
  { dst with
    landType := dst.landType ++ [c.landType]
    radiationLevel := dst.radiationLevel ++ [c.radiationLevel]
    height := dst.height ++ [c.height]
    level := dst.level ++ [c.level]
    overlayData := dst.overlayData ++ [c.overlayData]
    tiberiumValue := dst.tiberiumValue ++ [c.tiberiumValue]
    shrouded := dst.shrouded ++ [c.shrouded]
    passability := dst.passability ++ [c.passability] }

/-- `convert_map_data` adds to the columns that are there. -/
def convertMapData (dst : MapDataSoA) (src : MapDataMessage) : MapDataSoA :=
  { src.cells.foldl MapDataSoA.addCell dst with mapWidth := src.width, mapHeight := src.height }

/-- The handler of `ReadValue`. -/
def readValue (fields : List Field) (sv : StorageValue) (A : StorageMessage) :
    Except String StorageMessage :=
  match findSetFields fields A with
  | [] => .error "no field specified"
  | .mapDataSoa :: _ =>
    .ok { A with
      mapDataSoa := some (convertMapData (A.mapDataSoa.getD {}) sv.mapDataMessage) }
  | fld :: _ => .ok (copyField A sv fld)

/-! ## Columns -/

/-- What a cell has in the columns. -/
def visible (c : CellMessage) : CellMessage where
  landType := c.landType
  radiationLevel := c.radiationLevel
  height := c.height
  level := c.level
  overlayData := c.overlayData
  tiberiumValue := c.tiberiumValue
  shrouded := c.shrouded
  passability := c.passability

/-- What a client reads at one position of the columns. -/
def MapDataSoA.cell (S : MapDataSoA) (i : Nat) : Option CellMessage := do
  let landType ← S.landType[i]?
  let radiationLevel ← S.radiationLevel[i]?
  let height ← S.height[i]?
  let level ← S.level[i]?
  let overlayData ← S.overlayData[i]?
  let tiberiumValue ← S.tiberiumValue[i]?
  let shrouded ← S.shrouded[i]?
  let passability ← S.passability[i]?
  return { landType, radiationLevel, height, level, overlayData, tiberiumValue, shrouded,
           passability }

/-- All columns have `n` entries. -/
structure MapDataSoA.Aligned (S : MapDataSoA) (n : Nat) : Prop where
  landType : S.landType.length = n
  radiationLevel : S.radiationLevel.length = n
  height : S.height.length = n
  level : S.level.length = n
  overlayData : S.overlayData.length = n
  tiberiumValue : S.tiberiumValue.length = n
  shrouded : S.shrouded.length = n
  passability : S.passability.length = n

theorem foldl_addCell (cells : List CellMessage) (dst : MapDataSoA) :
    cells.foldl MapDataSoA.addCell dst =
      { dst with
        landType := dst.landType ++ cells.map CellMessage.landType
        radiationLevel := dst.radiationLevel ++ cells.map CellMessage.radiationLevel
        height := dst.height ++ cells.map CellMessage.height
        level := dst.level ++ cells.map CellMessage.level
        overlayData := dst.overlayData ++ cells.map CellMessage.overlayData
        tiberiumValue := dst.tiberiumValue ++ cells.map CellMessage.tiberiumValue
        shrouded := dst.shrouded ++ cells.map CellMessage.shrouded
        passability := dst.passability ++ cells.map CellMessage.passability } := by
  induction cells generalizing dst with
  | nil => simp
  | cons c cells ih =>
    rw [List.foldl_cons, ih]
    simp [MapDataSoA.addCell]

/-- One column, behind what the request had in it. -/
theorem getElem?_column {α : Type} {l : List α} {n : Nat} (hlen : l.length = n)
    (g : CellMessage → α) (cells : List CellMessage) (i : Nat) :
    (l ++ cells.map g)[n + i]? = cells[i]?.map g := by
  rw [List.getElem?_append_right (by omega), List.getElem?_map, hlen, Nat.add_sub_cancel_left]

/-- The columns have the cells one by one, behind the entries that the request had. -/
theorem convertMapData_cell {dst : MapDataSoA} {n : Nat} (h : dst.Aligned n)
    (src : MapDataMessage) (i : Nat) :
    (convertMapData dst src).cell (n + i) = src.cells[i]?.map visible := by
  unfold convertMapData MapDataSoA.cell
  rw [foldl_addCell]
  dsimp only
  rw [getElem?_column h.landType, getElem?_column h.radiationLevel, getElem?_column h.height,
    getElem?_column h.level, getElem?_column h.overlayData, getElem?_column h.tiberiumValue,
    getElem?_column h.shrouded, getElem?_column h.passability]
  cases src.cells[i]? <;> rfl

theorem readValue_soa {fields : List Field} {sv : StorageValue} {A : StorageMessage}
    (hfirst : (findSetFields fields A).head? = some .mapDataSoa) :
    readValue fields sv A = .ok { A with
      mapDataSoa := some (convertMapData (A.mapDataSoa.getD {}) sv.mapDataMessage) } := by
  unfold readValue
  cases hset : findSetFields fields A with
  | nil =>
    rw [hset] at hfirst
    cases hfirst
  | cons fld rest =>
    rw [hset, List.head?_cons, Option.some.injEq] at hfirst
    subst hfirst
    rfl

/-! ## The map that clients read -/

variable {κ : Type}

/-- After any run of frames, a client that asks for `map_data_soa` reads, behind the entries of its
own request, every cell as it was parsed last, under its row-major index in a map of the size that
is given with it; and it is the cell that a reader of the recorded differences has.  Only a cell
that is all zeros may be different. -/
theorem readValue_map (oneof : Bool) (r : Rules) (M : MapClass κ) (n : Nat)
    (acts : List (Action κ)) (hok : ∀ a ∈ acts, a.Ok) (fields : List Field) (A : StorageMessage)
    (hfirst : (findSetFields fields A).head? = some .mapDataSoa) (sent : Nat)
    (haligned : (A.mapDataSoa.getD {}).Aligned sent) :
    ∃ h, run (step oneof r M n) Run.init acts = some h ∧
      ∃ reply S, readValue fields h.state.sv A = .ok reply ∧ reply.mapDataSoa = some S ∧
        ∀ cells, h.parsed = some cells → ∀ k ∈ getValidCells M,
          parsedCell r M cells k ≠ Cell.zero →
          S.mapWidth = M.right + 1 ∧ S.mapHeight = M.bottom + 1 ∧
            S.cell (sent + (cellIndex M k).toInt.toNat) =
              some (visible ((parsedCell r M cells k).copyTo {})) ∧
            replay (h.snapshots.map GameState.cellsDifference) (cellIndex M k) =
              (parsedCell r M cells k).copyTo {} := by
  obtain ⟨h, hrun, hinv⟩ := inv_run oneof hok (inv_init r M n)
  refine ⟨h, hrun, _, _, readValue_soa hfirst, rfl, fun cells hcells k hk hne => ?_⟩
  have hmap := hinv.map
  have hentry := hinv.agrees.parsed hmap hcells hk hne
  -- the map data has the size of the map
  have hparsed : h.state.cells = parsedCells r M cells := hmap.parsed cells hcells
  have hcellsne : h.state.cells ≠ [] := by
    rw [hparsed]
    exact List.ne_nil_of_mem (List.mem_map_of_mem hk)
  have hmapData : h.state.sv.mapData ≠ [] := hmap.initialized hcellsne
  have hlength : h.state.sv.mapData.length = M.width * M.height :=
    (hmap.mapData (List.ne_nil_of_mem hk)).resolve_left hmapData
  have hindex := cellIndex_lt hk
  have hlt : (cellIndex M k).toInt.toNat < h.state.sv.mapData.length := by omega
  obtain ⟨hwidth, hheight⟩ := hinv.mapSize hmapData
  refine ⟨hwidth, hheight, ?_, ?_⟩
  · rw [convertMapData_cell haligned]
    change cellAtIndex h.state.sv.mapData _ = _ at hentry
    unfold cellAtIndex at hentry
    rw [List.getElem?_eq_getElem hlt] at hentry
    show h.state.sv.mapData[_]?.map visible = _
    rw [List.getElem?_eq_getElem hlt, ← hentry]
    rfl
  · exact hmap.replayed hcells hk

theorem readValue_threeFrames :
    ∃ h, run (step true plainRules smallMap 2) Run.init threeFrames = some h ∧
      ∃ reply S, readValue [.mapData, .mapDataSoa] h.state.sv { mapDataSoa := some {} } =
          .ok reply ∧ reply.mapDataSoa = some S ∧
        ∀ cells, h.parsed = some cells → ∀ k ∈ getValidCells smallMap,
          parsedCell plainRules smallMap cells k ≠ Cell.zero →
          S.cell (cellIndex smallMap k).toInt.toNat =
            some (visible ((parsedCell plainRules smallMap cells k).copyTo {})) := by
  obtain ⟨h, hrun, reply, S, hreply, hS, hcells⟩ :=
    readValue_map true plainRules smallMap 2 threeFrames threeFrames_ok [.mapData, .mapDataSoa]
      { mapDataSoa := some {} } rfl 0 ⟨rfl, rfl, rfl, rfl, rfl, rfl, rfl, rfl⟩
  refine ⟨h, hrun, reply, S, hreply, hS, fun cells hparsed k hk hne => ?_⟩
  have hcell := (hcells cells hparsed k hk hne).2.2.1
  rw [Nat.zero_add] at hcell
  exact hcell

end Ra2yrcpp.Snapshot
