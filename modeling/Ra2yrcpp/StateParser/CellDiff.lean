import Ra2yrcpp.StateParser.Map

/-!
# Recorded cell differences

`parse_map` compares the map in blocks of 128 cells and a remainder; what it lists is what a plain
comparison of all cells lists.  A reader that applies the recorded lists in order, the ones repeated
in skipped frames included, has the map as it was parsed last.
-/

open Ra2yrcpp.Reasoning

namespace Ra2yrcpp.StateParser

variable {κ : Type} {r : Rules} {M : MapClass κ} {cells : κ → CellClass}
  {g : Recording κ}

/-- The `Cell` parsed from one cell of the map. -/
def parsedCell (r : Rules) (M : MapClass κ) (cells : κ → CellClass) (k : κ) : Cell :=
  parseCell r Cell.zero (cellIndex M k) (cells k)

def parsedCells (r : Rules) (M : MapClass κ) (cells : κ → CellClass) : List Cell :=
  (getValidCells M).map (parsedCell r M cells)

/-- The messages for the cells that are not as they were. -/
def modifiedCells (current previous : List Cell) : List CellMessage :=
  (changed current previous).map (Cell.copyTo {})

/-! ## One block -/

theorem parseCell_of_pad {C : Cell} (hpad : C.pad = 0) (ix : Int32) (cc : CellClass) :
    parseCell r C ix cc = parseCell r Cell.zero ix cc := by
  unfold parseCell
  rw [hpad]
  rfl

theorem parseCells_length (dest : List Cell) (src : List κ) (c : Nat) :
    (parseCells r M cells dest src c).length = dest.length := by
  fun_induction parseCells r M cells dest src c with
  | case1 C dest cc src c ih => rw [List.length_cons, List.length_cons, ih]
  | case2 => rfl

theorem parseCells_pad {dest : List Cell} (hpad : ∀ C ∈ dest, C.pad = 0) (src : List κ) (c : Nat) :
    ∀ C ∈ parseCells r M cells dest src c, C.pad = 0 := by
  fun_induction parseCells r M cells dest src c with
  | case1 C dest cc src c ih =>
    intro C' hC'
    rcases List.mem_cons.mp hC' with rfl | hC'
    · exact hpad C List.mem_cons_self
    · exact ih (fun C hC => hpad C (List.mem_cons_of_mem _ hC)) C' hC'
  | case2 => exact hpad

theorem parseCells_take {dest : List Cell} {src : List κ} {c : Nat}
    (hpad : ∀ C ∈ dest, C.pad = 0) (hdest : c ≤ dest.length) (hsrc : c ≤ src.length) :
    (parseCells r M cells dest src c).take c = (src.map (parsedCell r M cells)).take c := by
  induction c generalizing dest src with
  | zero => rfl
  | succ c ih =>
    cases dest with
    | nil => cases hdest
    | cons C dest =>
      cases src with
      | nil => cases hsrc
      | cons cc src =>
        rw [parseCells, List.map_cons, List.take_succ_cons, List.take_succ_cons,
          ih (fun C hC => hpad C (List.mem_cons_of_mem _ hC)) (Nat.le_of_succ_le_succ hdest)
            (Nat.le_of_succ_le_succ hsrc),
          parseCell_of_pad (hpad C List.mem_cons_self)]
        rfl

theorem updateModifiedCells_eq {current previous : List Cell}
    (hlen : current.length ≤ previous.length) (difference : List CellMessage) :
    updateModifiedCells current previous difference =
      (current ++ previous.drop current.length,
        difference ++ modifiedCells current (previous.take current.length)) := by
  unfold modifiedCells
  induction current generalizing previous difference with
  | nil => simp [updateModifiedCells, changed]
  | cons C current ih =>
    cases previous with
    | nil => cases hlen
    | cons p previous =>
      have htail := Nat.le_of_succ_le_succ hlen
      rw [updateModifiedCells, List.length_cons, List.take_succ_cons, changed]
      split
      · rw [ih htail]
        simp
      · rename_i heq
        rw [ih htail]
        simp [not_not.mp heq]

/-! ## All blocks -/

/-- The first `i` cells are done. -/
structure Upto (current old : List Cell) (difference : List CellMessage) (i : Nat) (b : Buffers) :
    Prop where
  length : b.cellBuf.length = chunk
  pad : ∀ C ∈ b.cellBuf, C.pad = 0
  previous : b.previous = current.take i ++ old.drop i
  difference : b.difference = difference ++ modifiedCells (current.take i) (old.take i)

theorem modifiedCells_take_add {current old : List Cell} (i c : Nat)
    (hlen : current.length = old.length) :
    modifiedCells (current.take (i + c)) (old.take (i + c)) =
      modifiedCells (current.take i) (old.take i) ++
        modifiedCells ((current.drop i).take c) ((old.drop i).take c) := by
  unfold modifiedCells
  rw [changed_take_add i c hlen, List.map_append]

/-- A block that differs nowhere is skipped with the result of a comparison cell by cell. -/
theorem Upto.applyCells {valid : List κ} {old : List Cell} {difference : List CellMessage}
    {c i : Nat} {b : Buffers} (hlen : old.length = valid.length) (hc : c ≤ chunk)
    (hi : i + c ≤ valid.length)
    (h : Upto (valid.map (parsedCell r M cells)) old difference i b) :
    Upto (valid.map (parsedCell r M cells)) old difference (i + c)
      (applyCells r M cells valid c b i) := by
  set current := valid.map (parsedCell r M cells) with hcurrent
  have hcurlen : current.length = old.length := by rw [hcurrent, List.length_map, hlen]
  have hbuf : (parseCells r M cells b.cellBuf (valid.drop i) c).take c = (current.drop i).take c := by
    rw [parseCells_take h.pad (by rw [h.length]; exact hc) (by rw [List.length_drop]; omega),
      List.map_drop]
  have htake : (current.take i).length = i := by
    rw [List.length_take]
    omega
  have hprev : b.previous.drop i = old.drop i := by
    rw [h.previous, List.drop_append_of_le_length (by omega), List.drop_of_length_le (by omega),
      List.nil_append]
  have hrest : old.drop i = (old.drop i).take c ++ old.drop (i + c) := by
    rw [← List.drop_drop, List.take_append_drop]
  have hblock : ((current.drop i).take c).length = c := by
    rw [List.length_take, List.length_drop]
    omega
  unfold StateParser.applyCells
  dsimp only
  rw [hbuf, hprev]
  split
  · -- some cell of the block differs
    rw [updateModifiedCells_eq (by rw [hblock, List.length_drop]; omega), hblock]
    refine ⟨(parseCells_length ..).trans h.length, parseCells_pad h.pad _ _, ?_, ?_⟩
    · have hfirst : b.previous.take i = current.take i := by
        rw [h.previous, List.take_append_of_le_length (by omega), List.take_take, Nat.min_self]
      dsimp only
      rw [hfirst, List.drop_drop, List.take_add, List.append_assoc]
    · dsimp only
      rw [h.difference, modifiedCells_take_add i c hcurlen, List.append_assoc]
  · -- the block is as it was: nothing is written, and a comparison would find nothing
    rename_i heq
    have hsame := not_not.mp heq
    refine ⟨(parseCells_length ..).trans h.length, parseCells_pad h.pad _ _, ?_, ?_⟩
    · dsimp only
      rw [h.previous, List.take_add, hsame, List.append_assoc, ← hrest]
    · dsimp only
      have hnone : modifiedCells ((old.drop i).take c) ((old.drop i).take c) = [] := by
        unfold modifiedCells
        rw [changed_self, List.map_nil]
      rw [h.difference, modifiedCells_take_add i c hcurlen, hsame, hnone, List.append_nil]

/-- The static variables as the calls of `parse_map` for this map leave them. -/
structure ParseMapStatics.Ready (M : MapClass κ) (st : ParseMapStatics κ) : Prop where
  valid : st.validCellObjects = [] ∨ st.validCellObjects = getValidCells M
  length : st.cellBuf.length = chunk
  pad : ∀ C ∈ st.cellBuf, C.pad = 0

theorem ready_init (M : MapClass κ) : ParseMapStatics.init.Ready M where
  valid := Or.inl rfl
  length := List.length_replicate
  pad C hC := by
    obtain rfl := List.eq_of_mem_replicate hC
    rfl

theorem parseMap_eq (r : Rules) (cells : κ → CellClass) {st : ParseMapStatics κ}
    {previous : List Cell} (hst : st.Ready M)
    (hlen : previous.length = (getValidCells M).length) (difference : List CellMessage) :
    ∃ st', parseMap r M cells st previous difference =
        (st', parsedCells r M cells,
          difference ++ modifiedCells (parsedCells r M cells) previous) ∧ st'.Ready M := by
  -- the static list of valid cells is filled by the first call
  have hvalid : (if st.validCellObjects.isEmpty then getValidCells M else st.validCellObjects) =
      getValidCells M := by
    rcases hst.valid with h | h
    · rw [h]
      rfl
    · rw [h]
      exact ite_self _
  set valid := getValidCells M with hdef
  have hmod := Nat.mod_lt valid.length (show 0 < chunk by decide)
  have hdiv := Nat.div_add_mod' valid.length chunk
  have hstart : Upto (valid.map (parsedCell r M cells)) previous difference 0
      ⟨st.cellBuf, previous, difference⟩ := by
    refine ⟨hst.length, hst.pad, rfl, ?_⟩
    simp [modifiedCells, changed]
  -- the full chunks
  have hchunks : Upto (valid.map (parsedCell r M cells)) previous difference
      (valid.length / chunk * chunk)
      ((forLoop 0 (valid.length / chunk * chunk) chunk).foldl (applyCells r M cells valid chunk)
        ⟨st.cellBuf, previous, difference⟩) := by
    have hloop := forLoop_mul 0 (valid.length / chunk) chunk (by decide)
    rw [Nat.zero_add] at hloop
    rw [hloop]
    have hinv := foldl_range'_inv (Upto (valid.map (parsedCell r M cells)) previous difference)
      hstart fun i b hi h => h.applyCells hlen (Nat.le_refl chunk)
        (Nat.le_trans hi (by omega : 0 + valid.length / chunk * chunk ≤ valid.length))
    rw [Nat.zero_add] at hinv
    exact hinv
  -- the remainder
  have hall : Upto (valid.map (parsedCell r M cells)) previous difference valid.length
      ((forLoop (valid.length / chunk * chunk) valid.length chunk).foldl
        (applyCells r M cells valid (min chunk (valid.length - valid.length / chunk * chunk)))
        ((forLoop 0 (valid.length / chunk * chunk) chunk).foldl (applyCells r M cells valid chunk)
          ⟨st.cellBuf, previous, difference⟩)) := by
    by_cases hrem : valid.length / chunk * chunk = valid.length
    · rw [hrem, forLoop_self _ _ (by decide), List.foldl_nil]
      rw [hrem] at hchunks
      exact hchunks
    -- fewer than `chunk` cells are left, so the loop over the remainder runs once
    · have hone : forLoop (valid.length / chunk * chunk) valid.length chunk =
          [valid.length / chunk * chunk] := forLoop_lt (by omega) (by omega)
      rw [hone, Nat.min_eq_right (by omega), List.foldl_cons, List.foldl_nil]
      have hlast := hchunks.applyCells (c := valid.length - valid.length / chunk * chunk) hlen
        (by omega) (by omega)
      rw [Nat.add_sub_cancel' (by omega)] at hlast
      exact hlast
  unfold parseMap
  rw [hvalid]
  dsimp only
  refine ⟨⟨valid, _⟩, ?_, ⟨Or.inr rfl, hall.length, hall.pad⟩⟩
  rw [hall.previous, hall.difference, List.take_of_length_le (by rw [List.length_map]),
    List.drop_of_length_le (by omega), List.take_of_length_le (by omega), List.append_nil]
  rfl

/-! ## Indices -/

theorem MapClass.width_le (M : MapClass κ) : M.width ≤ 32768 := by
  have hlt := M.right_lt
  unfold MapClass.width
  omega

theorem MapClass.height_le (M : MapClass κ) : M.height ≤ 32768 := by
  have hlt := M.bottom_lt
  unfold MapClass.height
  omega

theorem toInt_succ {x : Int32} {n : Nat} (hlt : x.toInt < 32768) (hn : n = (x.toInt + 1).toNat)
    (hpos : 0 < n) : (x + 1).toInt = n := by
  rw [Int32.toInt_add, Int32.toInt_one, Int.bmod_eq_of_le] <;> omega

theorem MapClass.right_succ (M : MapClass κ) (h : 0 < M.width) : (M.right + 1).toInt = M.width :=
  toInt_succ M.right_lt rfl h

theorem MapClass.bottom_succ (M : MapClass κ) (h : 0 < M.height) :
    (M.bottom + 1).toInt = M.height :=
  toInt_succ M.bottom_lt rfl h

/-- No product of the parser overflows. -/
theorem toInt_mul_of_le {x y : Int32} {m n : Nat} (hx : x.toInt = m) (hy : y.toInt = n)
    (hm : m ≤ 32768) (hn : n ≤ 32768) : (x * y).toInt = (m * n : Nat) := by
  have hle : m * n ≤ 32768 * 32768 := Nat.mul_le_mul hm hn
  rw [Int32.toInt_mul, hx, hy, ← Int.natCast_mul, Int.bmod_eq_of_le] <;> omega

/-- The row-major index of the cell in column `i` and row `j`. -/
theorem toInt_index {i j : Nat} (hi : i < M.width) (hj : j < M.height) {x y : Int32}
    (hx : x.toInt = i) (hy : y.toInt = j) :
    ((M.right + 1) * y + x).toInt = (M.width * j + i : Nat) := by
  have hw := M.width_le
  have hh := M.height_le
  have hmul := toInt_mul_of_le (M.right_succ (by omega)) hy hw (by omega)
  have hle : M.width * j ≤ 32768 * 32768 := Nat.mul_le_mul hw (by omega)
  rw [Int32.toInt_add, hmul, hx, Int.bmod_eq_of_le] <;> omega

theorem toInt_cellIndex {p : Nat × Nat} {k : κ} (hp : p ∈ grid M.width M.height)
    (hk : M.cellAt p = some k) : (cellIndex M k).toInt = (M.width * p.2 + p.1 : Nat) := by
  obtain ⟨hi, hj⟩ := mem_grid.mp hp
  have hw := M.width_le
  have hh := M.height_le
  unfold cellIndex
  rw [M.mapCoords_of_tryGetCellAt _ k hk]
  apply toInt_index hi hj
  · rw [Int16.toInt_toInt32, Int16.toInt_ofNat_of_lt (by omega)]
  · rw [Int16.toInt_toInt32, Int16.toInt_ofNat_of_lt (by omega)]

/-- The valid cells are visited in the order of their indices. -/
theorem cellIndex_sublist (M : MapClass κ) :
    ((getValidCells M).map fun k => (cellIndex M k).toInt).Sublist
      ((List.range (M.width * M.height)).map Nat.cast) := by
  rw [← grid_map_index, List.map_map]
  unfold getValidCells
  have hgrid : ∀ ps : List (Nat × Nat), (∀ p ∈ ps, p ∈ grid M.width M.height) →
      ((ps.filterMap M.cellAt).map fun k => (cellIndex M k).toInt).Sublist
        (ps.map (Nat.cast ∘ fun p => M.width * p.2 + p.1)) := by
    intro ps hps
    induction ps with
    | nil => exact List.Sublist.slnil
    | cons p ps ih =>
      have htail := ih fun q hq => hps q (List.mem_cons_of_mem _ hq)
      cases hk : M.cellAt p with
      | none =>
        rw [List.filterMap_cons_none hk, List.map_cons]
        exact htail.cons _
      | some k =>
        rw [List.filterMap_cons_some hk, List.map_cons, List.map_cons,
          toInt_cellIndex (hps p List.mem_cons_self) hk]
        exact htail.cons_cons _
  exact hgrid _ fun p hp => hp

theorem cellIndex_nodup (M : MapClass κ) : ((getValidCells M).map (cellIndex M)).Nodup := by
  apply List.Nodup.of_map Int32.toInt
  rw [List.map_map]
  refine (cellIndex_sublist M).nodup (List.Nodup.map ?_ List.nodup_range)
  exact fun a b h => Int.ofNat.inj h

theorem cellIndex_lt {k : κ} (hk : k ∈ getValidCells M) :
    0 ≤ (cellIndex M k).toInt ∧ (cellIndex M k).toInt < (M.width * M.height : Nat) := by
  have hmem := (cellIndex_sublist M).subset
    (List.mem_map_of_mem (f := fun k => (cellIndex M k).toInt) hk)
  obtain ⟨n, hn, hcast⟩ := List.mem_map.mp hmem
  have hlt := List.mem_range.mp hn
  rw [← hcast]
  exact ⟨Int.natCast_nonneg n, Int.ofNat_lt.mpr hlt⟩

/-! ## The map data of the program itself -/

theorem modifyAt_total {m : List CellMessage} {ix : Int32} (f : CellMessage → CellMessage)
    (hix : 0 ≤ ix.toInt ∧ ix.toInt < m.length) :
    ∃ m', modifyAt m ix f = some m' ∧ m'.length = m.length := by
  unfold modifyAt
  rw [if_pos hix]
  exact ⟨_, rfl, List.length_modify ..⟩

theorem updateMapData_total {m difference : List CellMessage}
    (h : ∀ d ∈ difference, 0 ≤ d.index.toInt ∧ d.index.toInt < m.length) :
    ∃ m', updateMapData m difference = some m' ∧ m'.length = m.length := by
  unfold updateMapData
  refine foldlM_total (fun m' : List CellMessage => m'.length = m.length) rfl fun b d hd hb => ?_
  obtain ⟨b', hmod, hlen⟩ := modifyAt_total (fun _ => d) (by rw [hb]; exact h d hd)
  exact ⟨b', hmod, hlen.trans hb⟩

theorem parseMapDataAt_total (r : Rules) (f : Frame κ) {m : List CellMessage} {p : Nat × Nat}
    (hp : p ∈ grid M.width M.height) (hlen : m.length = M.width * M.height) :
    ∃ m', parseMapDataAt r M f m p = some m' ∧ m'.length = M.width * M.height := by
  unfold parseMapDataAt
  cases M.cellAt p with
  | none => exact ⟨m, rfl, hlen⟩
  | some k =>
    obtain ⟨hi, hj⟩ := mem_grid.mp hp
    have hw := M.width_le
    have hh := M.height_le
    have hindex := toInt_index hi hj (Int32.toInt_ofNat_of_lt (by omega))
      (Int32.toInt_ofNat_of_lt (by omega))
    have hlt : M.width * p.2 + p.1 < M.width * M.height := by
      have hmem : M.width * p.2 + p.1 ∈ List.range (M.width * M.height) := by
        rw [← grid_map_index]
        exact List.mem_map_of_mem (f := fun p => M.width * p.2 + p.1) hp
      exact List.mem_range.mp hmem
    rw [← hlen]
    exact modifyAt_total _ (by rw [hindex, hlen]; omega)

theorem parseMapData_total (r : Rules) (M : MapClass κ) (f : Frame κ) (m : List CellMessage) :
    ∃ m', parseMapData r M f m = some m' ∧
      (getValidCells M ≠ [] → m'.length = M.width * M.height) := by
  unfold parseMapData
  dsimp only
  by_cases hgrid : grid M.width M.height = []
  -- without a row or a column no cell is valid
  · rw [hgrid]
    refine ⟨_, rfl, fun hvalid => absurd ?_ hvalid⟩
    unfold getValidCells
    rw [hgrid]
    rfl
  · obtain ⟨p, hp⟩ := List.exists_mem_of_ne_nil _ hgrid
    obtain ⟨hi, hj⟩ := mem_grid.mp hp
    have hsz := toInt_mul_of_le (M.right_succ (by omega)) (M.bottom_succ (by omega))
      M.width_le M.height_le
    rw [hsz]
    obtain ⟨m', hm', hlen⟩ := foldlM_total
      (fun m : List CellMessage => m.length = M.width * M.height)
      (b := if (m.length : Int) ≠ (M.width * M.height : Nat) then
        List.replicate (Int.toNat (M.width * M.height : Nat)) {} else m) (by
          split
          · rw [List.length_replicate, Int.toNat_natCast]
          · rename_i heq
            exact Int.ofNat.inj (not_not.mp heq))
      fun b q hq hb => parseMapDataAt_total r f hq hb
    exact ⟨m', hm', fun _ => hlen⟩

/-! ## Frames -/

/-- What the reader has of the cells: zeros until `cells` is allocated. -/
def SaveState.shown (M : MapClass κ) (s : SaveState κ) : List Cell :=
  if s.cells.isEmpty then List.replicate (getValidCells M).length Cell.zero else s.cells

theorem shown_of_length {s : SaveState κ} (hlen : s.cells.length = (getValidCells M).length) :
    s.shown M = s.cells := by
  unfold SaveState.shown
  split
  · rename_i hempty
    rw [← hlen, List.isEmpty_iff.mp hempty]
    rfl
  · rfl

theorem allocated_eq (M : MapClass κ) (s : SaveState κ) (f : Frame κ) :
    (s.allocated M f = [] ∧ s.cells = []) ∨ s.allocated M f = s.shown M := by
  unfold SaveState.allocated SaveState.shown
  cases hcells : s.cells with
  | nil =>
    by_cases hframe : 0 < f.currentFrame
    · right
      simp [hframe]
    · left
      simp [hframe]
  | cons C cells =>
    right
    simp

theorem shown_allocated (M : MapClass κ) (s t : SaveState κ) (f : Frame κ)
    (ht : t.cells = s.allocated M f) : t.shown M = s.shown M := by
  rcases allocated_eq M s f with ⟨hnil, hcells⟩ | heq
  -- before the first frame nothing is allocated
  · unfold SaveState.shown
    rw [ht, hnil, hcells]
  · unfold SaveState.shown at heq ⊢
    rw [ht, heq]
    cases s.cells with
    | nil => simp
    | cons C cells => simp

/-- The reader has the cells as they were parsed last, and would get nothing new from the differences
of the last frame. -/
structure Recorded (r : Rules) (M : MapClass κ) (h : Recording κ) : Prop where
  ready : h.state.statics.Ready M
  length : (h.state.shown M).length = (getValidCells M).length
  mapData : getValidCells M ≠ [] →
    h.state.mapData = [] ∨ h.state.mapData.length = M.width * M.height
  initialized : h.state.cells ≠ [] → h.state.mapData ≠ []
  parsed : ∀ cells ∈ h.parsed, h.state.cells = parsedCells r M cells
  shown : List.Forall₂ (fun k C => replay h.recorded (cellIndex M k) = C.copyTo {})
    (getValidCells M) (h.state.shown M)
  inPlace : ∀ d ∈ h.state.cellsDifference, replay h.recorded d.index = d

theorem recorded_init (r : Rules) (M : MapClass κ) : Recorded r M Recording.init where
  ready := ready_init M
  length := List.length_replicate
  mapData _ := Or.inl rfl
  initialized h := absurd rfl h
  parsed _ h := by cases h
  shown := by
    refine List.forall₂_iff_zip.mpr ⟨List.length_replicate.symm, fun {k C} hmem => ?_⟩
    obtain rfl := List.eq_of_mem_replicate (List.of_mem_zip hmem).2
    rfl
  inPlace _ h := by cases h

theorem replay_concat (recorded : List (List CellMessage)) (d : List CellMessage) :
    replay (recorded ++ [d]) = patch CellMessage.index (replay recorded) d := by
  unfold replay
  rw [List.foldl_append]
  rfl

theorem parsedCells_length (r : Rules) (M : MapClass κ) (cells : κ → CellClass) :
    (parsedCells r M cells).length = (getValidCells M).length :=
  List.length_map ..

theorem Recorded.valid_ne_nil (h : Recorded r M g) {f : Frame κ}
    (halloc : g.state.allocated M f ≠ []) : getValidCells M ≠ [] := by
  intro hvalid
  rcases allocated_eq M g.state f with ⟨hnil, -⟩ | heq
  · exact halloc hnil
  · have hlen := h.length
    rw [← heq, hvalid] at hlen
    exact halloc (List.eq_nil_of_length_eq_zero hlen)

theorem area_pos (hvalid : getValidCells M ≠ []) : 0 < M.width * M.height := by
  obtain ⟨k, hk⟩ := List.exists_mem_of_ne_nil _ hvalid
  have hlt := cellIndex_lt hk
  omega

/-- The map data that a frame goes on with. -/
theorem Recorded.mapData_total (h : Recorded r M g) (f : Frame κ) :
    ∃ m, g.state.initMapData r M f = some m ∧
      (getValidCells M ≠ [] → m = [] ∨ m.length = M.width * M.height) ∧
      (g.state.allocated M f ≠ [] → m ≠ []) := by
  unfold SaveState.initMapData
  by_cases hparse : 0 < f.currentFrame ∧ g.state.mapData.isEmpty
  · rw [if_pos hparse]
    obtain ⟨m, hm, hlen⟩ := parseMapData_total r M f g.state.mapData
    refine ⟨m, hm, fun hvalid => Or.inr (hlen hvalid), fun halloc hnil => ?_⟩
    have hvalid := h.valid_ne_nil halloc
    have hpos := area_pos hvalid
    rw [← hlen hvalid, hnil] at hpos
    exact Nat.lt_irrefl _ hpos
  · rw [if_neg hparse]
    refine ⟨_, rfl, h.mapData, fun halloc hnil => hparse ⟨?_, by rw [hnil]; rfl⟩⟩
    -- `cells` is allocated in this frame: otherwise the map data was there before
    have hcells : g.state.cells = [] := not_not.mp fun hne => h.initialized hne hnil
    unfold SaveState.allocated at halloc
    rw [hcells] at halloc
    by_contra hframe
    rw [if_neg fun hc => hframe hc.2] at halloc
    exact halloc rfl

/-- A frame without `parse_map`: the differences of the one before are recorded again. -/
theorem Recorded.keep (h : Recorded r M g) (f : Frame κ) {m : List CellMessage}
    (hm : getValidCells M ≠ [] → m = [] ∨ m.length = M.width * M.height)
    (hinit : g.state.allocated M f ≠ [] → m ≠ []) :
    Recorded r M ⟨{ g.state with cells := g.state.allocated M f, mapData := m },
      g.recorded ++ [g.state.cellsDifference], g.parsed⟩ := by
  -- the repeated differences are in place already
  have hreplay : replay (g.recorded ++ [g.state.cellsDifference]) = replay g.recorded := by
    rw [replay_concat, patch_of_inPlace h.inPlace]
  have hshown : SaveState.shown M { g.state with cells := g.state.allocated M f, mapData := m } =
      g.state.shown M := shown_allocated M g.state _ f rfl
  refine ⟨h.ready, ?_, hm, hinit, fun cells hcells => ?_, ?_, ?_⟩
  · rw [hshown]
    exact h.length
  · have hold := h.parsed cells hcells
    dsimp only
    rcases allocated_eq M g.state f with ⟨hnil, hcells⟩ | heq
    · rw [hnil, ← hcells, hold]
    · have hlen := parsedCells_length r M cells
      rw [← hold] at hlen
      rw [heq, shown_of_length hlen, hold]
  · rw [hshown, hreplay]
    exact h.shown
  · rw [hreplay]
    exact h.inPlace

/-- A frame with `parse_map`. -/
theorem Recorded.parse (h : Recorded r M g) (cells : κ → CellClass) {st : ParseMapStatics κ}
    (hst : st.Ready M) {m : List CellMessage}
    (hm : getValidCells M ≠ [] → m = [] ∨ m.length = M.width * M.height)
    (hinit : parsedCells r M cells ≠ [] → m ≠ []) :
    Recorded r M ⟨⟨st, parsedCells r M cells,
        modifiedCells (parsedCells r M cells) (g.state.shown M), m⟩,
      g.recorded ++ [modifiedCells (parsedCells r M cells) (g.state.shown M)], some cells⟩ := by
  have hview : ∀ k ∈ getValidCells M,
      replay (g.recorded ++ [modifiedCells (parsedCells r M cells) (g.state.shown M)])
        (cellIndex M k) = (parsedCell r M cells k).copyTo {} := by
    rw [replay_concat]
    exact patch_changed (cellIndex M) (parsedCell r M cells) (Cell.copyTo {}) (fun _ => rfl)
      (cellIndex_nodup M) h.shown
  have hshown : SaveState.shown M ⟨st, parsedCells r M cells,
      modifiedCells (parsedCells r M cells) (g.state.shown M), m⟩ = parsedCells r M cells :=
    shown_of_length (parsedCells_length r M cells)
  refine ⟨hst, ?_, hm, hinit, fun cells' hcells => ?_, ?_, fun d hd => ?_⟩
  · rw [hshown]
    exact parsedCells_length ..
  · obtain rfl := Option.some.inj hcells
    rfl
  · rw [hshown]
    unfold parsedCells
    rw [List.forall₂_map_right_iff, List.forall₂_same]
    exact hview
  · obtain ⟨C, hC, rfl⟩ := List.mem_map.mp hd
    obtain ⟨k, hk, rfl⟩ := List.mem_map.mp (changed_subset _ _ hC)
    exact hview k hk

theorem modifiedCells_index (r : Rules) (M : MapClass κ) (cells : κ → CellClass)
    (old : List Cell) : ∀ d ∈ modifiedCells (parsedCells r M cells) old,
      0 ≤ d.index.toInt ∧ d.index.toInt < (M.width * M.height : Nat) := by
  intro d hd
  obtain ⟨C, hC, rfl⟩ := List.mem_map.mp hd
  obtain ⟨k, hk, rfl⟩ := List.mem_map.mp (changed_subset _ _ hC)
  exact cellIndex_lt hk

/-- No frame makes the program fail, and every frame keeps the reader up to date. -/
theorem Recorded.record (h : Recorded r M g) {interval : Nat} (hinterval : 1 ≤ interval)
    (f : Frame κ) : ∃ g', record r M interval g f = some g' ∧ Recorded r M g' := by
  obtain ⟨m, hm, hlen, hinit⟩ := h.mapData_total f
  unfold StateParser.record stateToProtobuf
  rw [hm]
  by_cases halloc : g.state.allocated M f = []
  -- frame 0, or a map without valid cells
  · refine ⟨_, ?_, h.keep f hlen hinit⟩
    simp [halloc]
  · by_cases hframe : f.currentFrame % interval = 0
    · have hshown : g.state.allocated M f = g.state.shown M :=
        (allocated_eq M g.state f).resolve_left fun hnil => halloc hnil.1
      have hne : g.state.shown M ≠ [] := hshown ▸ halloc
      have harea : m.length = M.width * M.height :=
        (hlen (h.valid_ne_nil halloc)).resolve_left (hinit halloc)
      obtain ⟨st, hparse, hst⟩ := parseMap_eq r f.cells h.ready h.length []
      obtain ⟨m', hm', hlen'⟩ := updateMapData_total fun d hd =>
        harea ▸ modifiedCells_index r M f.cells (g.state.shown M) d hd
      have hne' : m' ≠ [] := by
        rintro rfl
        exact hinit halloc (List.eq_nil_of_length_eq_zero hlen'.symm)
      refine ⟨_, ?_, h.parse f.cells hst (fun _ => Or.inr (hlen'.trans harea)) fun _ => hne'⟩
      simp [hframe, hshown, hne, hparse, hm', Nat.ne_of_gt hinterval]
    -- a frame that the interval skips
    · refine ⟨_, ?_, h.keep f hlen hinit⟩
      simp [halloc, hframe, Nat.ne_of_gt hinterval]

theorem Recorded.run (h : Recorded r M g) {interval : Nat} (hinterval : 1 ≤ interval)
    (frames : List (Frame κ)) : ∃ g', run (StateParser.record r M interval) g frames = some g' ∧
      Recorded r M g' := by
  induction frames generalizing g with
  | nil => exact ⟨g, rfl, h⟩
  | cons f frames ih =>
    obtain ⟨g', hg', h'⟩ := h.record hinterval f
    rw [run_cons, hg', Option.bind_some]
    exact ih h'

/-- `parse_map` lists exactly the cells that a plain comparison finds changed and leaves the parsed
cells in `previous`, whatever the number of valid cells; and the records of any run of frames, read in
order, give each valid cell as it was parsed last. -/
theorem differences_reconstruct_map (r : Rules) (M : MapClass κ) :
    ParseMapStatics.init.Ready M ∧
    (∀ (cells : κ → CellClass) (st : ParseMapStatics κ) (previous : List Cell)
      (difference : List CellMessage), st.Ready M →
      previous.length = (getValidCells M).length →
      ∃ st', parseMap r M cells st previous difference = (st', parsedCells r M cells,
        difference ++ modifiedCells (parsedCells r M cells) previous) ∧ st'.Ready M) ∧
    (∀ (interval : Nat) (frames : List (Frame κ)), 1 ≤ interval →
      ∃ g, run (StateParser.record r M interval) Recording.init frames = some g ∧
        ∀ cells ∈ g.parsed, g.state.cells = parsedCells r M cells ∧
          ∀ k ∈ getValidCells M,
            replay g.recorded (cellIndex M k) = (parsedCell r M cells k).copyTo {}) := by
  refine ⟨ready_init M, fun cells st previous difference hst hlen =>
      parseMap_eq r cells hst hlen difference,
    fun interval frames hinterval => ?_⟩
  obtain ⟨g, hrun, h⟩ := (recorded_init r M).run hinterval frames
  refine ⟨g, hrun, fun cells hcells => ⟨h.parsed cells hcells, ?_⟩⟩
  have hparsed := h.parsed cells hcells
  have hlen := parsedCells_length r M cells
  rw [← hparsed] at hlen
  have hshown := h.shown
  rw [shown_of_length hlen, hparsed, parsedCells, List.forall₂_map_right_iff,
    List.forall₂_same] at hshown
  exact hshown

/-- Two by two cells, one of them outside of the playable area. -/
def smallMap : MapClass CellStruct where
  right := 1
  bottom := 1
  tryGetCellAt c := if c = ⟨1, 0⟩ then none else some c
  mapCoords := id
  right_lt := by decide
  bottom_lt := by decide
  mapCoords_of_tryGetCellAt c k h := by
    split at h
    · cases h
    · exact (Option.some.inj h).symm

def plainRules : Rules := ⟨fun _ => false, [], fun _ => ⟨0, 0, 0, 0, 0⟩, 5⟩

/-- All cells have the same height, and an object stands on the last one. -/
def flatCells (height : Int8) (k : CellStruct) : CellClass :=
  ⟨0, 0, height, 0, 0, 8, 0, if k = ⟨1, 1⟩ then 77 else 0, 0, 0⟩

def flatFrame (n : Nat) (height : Int8) : Frame CellStruct :=
  ⟨n, flatCells height, fun _ => 0, fun _ => false⟩

/-- Frames 1 to 5; the map is parsed in frames 2 and 4. -/
theorem smallMap_reconstructed :
    (∃ st', parseMap plainRules smallMap (flatCells 3) .init (List.replicate 3 Cell.zero) [] =
      (st', parsedCells plainRules smallMap (flatCells 3),
        modifiedCells (parsedCells plainRules smallMap (flatCells 3))
          (List.replicate 3 Cell.zero))) ∧
    ∃ g, run (record plainRules smallMap 2) Recording.init
        [flatFrame 1 0, flatFrame 2 3, flatFrame 3 4, flatFrame 4 3, flatFrame 5 0] = some g ∧
      g.recorded.map List.length = [0, 3, 3, 0, 0] ∧
      ∀ cells ∈ g.parsed, ∀ k ∈ getValidCells smallMap,
        replay g.recorded (cellIndex smallMap k) =
          (parsedCell plainRules smallMap cells k).copyTo {} := by
  obtain ⟨hready, hparse, hrun⟩ := differences_reconstruct_map plainRules smallMap
  obtain ⟨st', heq, -⟩ := hparse (flatCells 3) .init (List.replicate 3 Cell.zero) [] hready
    (by decide)
  obtain ⟨g, hg, hview⟩ := hrun 2
    [flatFrame 1 0, flatFrame 2 3, flatFrame 3 4, flatFrame 4 3, flatFrame 5 0] (by decide)
  refine ⟨⟨st', heq⟩, g, hg, ?_, fun cells hcells => (hview cells hcells).2⟩
  have hlengths : (run (record plainRules smallMap 2) Recording.init
      [flatFrame 1 0, flatFrame 2 3, flatFrame 3 4, flatFrame 4 3, flatFrame 5 0]).map
      (fun g => g.recorded.map List.length) = some [0, 3, 3, 0, 0] := by
    decide
  rw [hg] at hlengths
  exact Option.some.inj hlengths

end Ra2yrcpp.StateParser
