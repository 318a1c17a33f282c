import Ra2yrcpp.StateParser.CellDiff

/-!
# The map data and the recorded differences

`state_to_protobuf` keeps the cells of the map twice: `map_data` for the clients, and `cells` for
the differences that are recorded.  The one is first filled by `parse_MapData` and then updated with
the differences; the other starts with zeros.
-/

open Ra2yrcpp.Reasoning

namespace Ra2yrcpp.StateParser

variable {κ : Type} {r : Rules} {M : MapClass κ} {g g' : Recording κ} {f : Frame κ}
  {interval : Nat}

/-- The message of the map data under an index. -/
def cellAtIndex (m : List CellMessage) (ix : Int32) : CellMessage := m[ix.toInt.toNat]?.getD {}

theorem modifyAt_replace {m m' : List CellMessage} {ix : Int32} {d : CellMessage}
    (h : modifyAt m ix (fun _ => d) = some m') :
    0 ≤ ix.toInt ∧ m'.length = m.length ∧
      ∀ i : Int32, 0 ≤ i.toInt → cellAtIndex m' i = Function.update (cellAtIndex m) ix d i := by
  unfold modifyAt at h
  split at h
  · next hix =>
    obtain rfl := Option.some.inj h
    refine ⟨hix.1, List.length_modify .., fun i hi => ?_⟩
    unfold cellAtIndex
    by_cases heq : i = ix
    · subst heq
      rw [Function.update_self, List.getElem?_modify, List.getElem?_eq_getElem (by omega)]
      simp
    · have hne : ix.toInt.toNat ≠ i.toInt.toNat := by
        intro hsame
        apply heq
        apply Int32.toInt_inj.mp
        omega
      rw [Function.update_of_ne heq, List.getElem?_modify]
      simp only [if_neg hne, Option.map_eq_map, Option.map_id']
  · cases h

/-- The update replaces message by message, as a reader of the differences does. -/
theorem updateMapData_eq {m m' : List CellMessage} {difference : List CellMessage}
    (h : updateMapData m difference = some m') (ix : Int32) (hix : 0 ≤ ix.toInt) :
    cellAtIndex m' ix = patch CellMessage.index (cellAtIndex m) difference ix := by
  induction difference generalizing m with
  | nil =>
    obtain rfl := Option.some.inj h
    rfl
  | cons d difference ih =>
    unfold updateMapData at h
    rw [List.foldlM_cons] at h
    obtain ⟨m₁, hmodify, h⟩ := Option.bind_eq_some_iff.mp h
    obtain ⟨-, -, hreplace⟩ := modifyAt_replace hmodify
    rw [ih h, patch_cons]
    exact patch_congr (hreplace ix hix) difference

/-! ## Frames -/

/-- What a frame that is recorded does. -/
theorem record_cases (h : Recorded r M g) (hinterval : 1 ≤ interval)
    (hrecord : record r M interval g f = some g') :
    ∃ m, g.state.initMapData r M f = some m ∧
      (g' = ⟨{ g.state with cells := g.state.allocated M f, mapData := m },
          g.recorded ++ [g.state.cellsDifference], g.parsed⟩ ∨
        ∃ st m', updateMapData m (modifiedCells (parsedCells r M f.cells) (g.state.shown M)) =
            some m' ∧
          g' = ⟨⟨st, parsedCells r M f.cells,
              modifiedCells (parsedCells r M f.cells) (g.state.shown M), m'⟩,
            g.recorded ++ [modifiedCells (parsedCells r M f.cells) (g.state.shown M)],
            some f.cells⟩) := by
  obtain ⟨m, hm, -, -⟩ := h.mapData_total f
  refine ⟨m, hm, ?_⟩
  unfold record stateToProtobuf at hrecord
  rw [hm] at hrecord
  dsimp only [Option.bind_eq_bind, Option.bind_some] at hrecord
  by_cases halloc : g.state.allocated M f = []
  · left
    rw [halloc] at hrecord ⊢
    exact (Option.some.inj hrecord).symm
  · have hne : (g.state.allocated M f).isEmpty = false := by
      rw [Bool.eq_false_iff, Ne, List.isEmpty_iff]
      exact halloc
    rw [hne, if_neg (by decide), if_neg (by omega)] at hrecord
    by_cases hframe : f.currentFrame % interval = 0
    · right
      have hshown : g.state.allocated M f = g.state.shown M :=
        (allocated_eq M g.state f).resolve_left fun hnil => halloc hnil.1
      obtain ⟨st, hparse, -⟩ := parseMap_eq r f.cells h.ready h.length []
      rw [if_pos hframe, hshown, hparse, hframe, List.nil_append] at hrecord
      obtain ⟨s, hs, hrecord⟩ := Option.bind_eq_some_iff.mp hrecord
      obtain ⟨m', hm', hs⟩ := Option.bind_eq_some_iff.mp hs
      obtain rfl := Option.some.inj hs
      exact ⟨st, m', hm', (Option.some.inj hrecord).symm⟩
    · left
      rw [if_neg hframe] at hrecord
      have hskip : (f.currentFrame % interval == 0) = false := beq_eq_false_iff_ne.mpr hframe
      rw [Option.bind_some, hskip] at hrecord
      exact (Option.some.inj hrecord).symm

theorem updateMapData_length {m m' : List CellMessage} {difference : List CellMessage}
    (h : updateMapData m difference = some m') : m'.length = m.length := by
  induction difference generalizing m with
  | nil =>
    obtain rfl := Option.some.inj h
    rfl
  | cons d difference ih =>
    unfold updateMapData at h
    rw [List.foldlM_cons] at h
    obtain ⟨m₁, hmodify, h⟩ := Option.bind_eq_some_iff.mp h
    rw [ih h, (modifyAt_replace hmodify).2.1]

/-- In frame 0 no map data comes up. -/
theorem mapData_of_frame_zero (h : Recorded r M g) (hinterval : 1 ≤ interval)
    (hrecord : record r M interval g f = some g') (hframe : ¬0 < f.currentFrame)
    (hnil : g.state.mapData = []) : g'.state.mapData = [] := by
  obtain ⟨m, hm, hcases⟩ := record_cases h hinterval hrecord
  unfold SaveState.initMapData at hm
  rw [if_neg fun hparse => hframe hparse.1, hnil] at hm
  obtain rfl := Option.some.inj hm
  rcases hcases with rfl | ⟨st, m', hupdate, rfl⟩
  · rfl
  · exact List.eq_nil_of_length_eq_zero (updateMapData_length hupdate)

/-- The map data has what the reader has, wherever a difference was recorded. -/
def Agrees (M : MapClass κ) (g : Recording κ) : Prop :=
  ∀ p ∈ (getValidCells M).zip (g.state.shown M), p.2 ≠ Cell.zero →
    cellAtIndex g.state.mapData (cellIndex M p.1) = replay g.recorded (cellIndex M p.1)

theorem agrees_init (M : MapClass κ) : Agrees M Recording.init := by
  intro p hp hne
  exact absurd (List.eq_of_mem_replicate (List.of_mem_zip hp).2) hne

/-- Before the first difference the cells are zeros. -/
theorem agrees_of_zero (h : g.state.shown M = List.replicate (getValidCells M).length Cell.zero) :
    Agrees M g := by
  intro p hp hne
  rw [h] at hp
  exact absurd (List.eq_of_mem_replicate (List.of_mem_zip hp).2) hne

theorem mem_zip_self {α : Type} {xs : List α} {x : α} (h : x ∈ xs) : (x, x) ∈ xs.zip xs := by
  obtain ⟨i, hi, rfl⟩ := List.mem_iff_getElem.mp h
  refine List.mem_iff_getElem.mpr ⟨i, by rw [List.length_zip]; omega, ?_⟩
  rw [List.getElem_zip]

theorem exists_mem_zip {α β : Type} {xs : List α} {ys : List β} (hlen : xs.length = ys.length)
    {x : α} (h : x ∈ xs) : ∃ y, (x, y) ∈ xs.zip ys := by
  obtain ⟨i, hi, rfl⟩ := List.mem_iff_getElem.mp h
  refine ⟨ys.get ⟨i, hlen ▸ hi⟩, List.mem_iff_getElem.mpr ⟨i, by rw [List.length_zip]; omega, ?_⟩⟩
  rw [List.getElem_zip]
  rfl

theorem of_mem_zip_parsedCells {cells : κ → CellClass} {p : κ × Cell}
    (h : p ∈ (getValidCells M).zip (parsedCells r M cells)) :
    p.1 ∈ getValidCells M ∧ p.2 = parsedCell r M cells p.1 := by
  refine ⟨(List.of_mem_zip h).1, ?_⟩
  unfold parsedCells at h
  obtain ⟨i, hi, rfl⟩ := List.mem_iff_getElem.mp h
  rw [List.getElem_zip, List.getElem_map]

theorem mem_zip_parsedCells {cells : κ → CellClass} {k : κ} (hk : k ∈ getValidCells M) :
    (k, parsedCell r M cells k) ∈ (getValidCells M).zip (parsedCells r M cells) := by
  unfold parsedCells
  rw [List.zip_map_right, List.mem_map]
  exact ⟨(k, k), mem_zip_self hk, rfl⟩

/-- A reader of the records has the cells as they were parsed last. -/
theorem Recorded.replayed (h : Recorded r M g) {cells : κ → CellClass}
    (hcells : g.parsed = some cells) {k : κ} (hk : k ∈ getValidCells M) :
    replay g.recorded (cellIndex M k) = (parsedCell r M cells k).copyTo {} := by
  have hsame : g.state.cells = parsedCells r M cells := h.parsed cells hcells
  have hshown : g.state.shown M = parsedCells r M cells := by
    rw [shown_of_length (by rw [hsame]; exact parsedCells_length r M cells), hsame]
  have hmem : (k, parsedCell r M cells k) ∈ (getValidCells M).zip (g.state.shown M) := by
    rw [hshown]
    exact mem_zip_parsedCells hk
  exact (List.forall₂_iff_zip.mp h.shown).2 hmem

theorem Agrees.record (ha : Agrees M g) (h : Recorded r M g) (hinterval : 1 ≤ interval)
    (hrecord : record r M interval g f = some g') : Agrees M g' := by
  obtain ⟨m, hm, hcases⟩ := record_cases h hinterval hrecord
  unfold SaveState.initMapData at hm
  rcases hcases with rfl | ⟨st, m', hupdate, rfl⟩
  -- a frame without `parse_map`
  · have hreplay : replay (g.recorded ++ [g.state.cellsDifference]) = replay g.recorded := by
      rw [replay_concat, patch_of_inPlace h.inPlace]
    have hshown : SaveState.shown M { g.state with cells := g.state.allocated M f, mapData := m } =
        g.state.shown M := shown_allocated M g.state _ f rfl
    by_cases hparse : 0 < f.currentFrame ∧ g.state.mapData.isEmpty
    · -- the map data is made in this frame, and so nothing was recorded
      apply agrees_of_zero
      rw [hshown]
      have hcells : g.state.cells = [] :=
        not_not.mp fun hne => h.initialized hne (List.isEmpty_iff.mp hparse.2)
      unfold SaveState.shown
      rw [hcells]
      rfl
    · rw [if_neg hparse] at hm
      obtain rfl := Option.some.inj hm
      intro p hp hne
      rw [hshown] at hp
      rw [hreplay]
      exact ha p hp hne
  -- a frame with `parse_map`
  · have hshown : SaveState.shown M ⟨st, parsedCells r M f.cells,
        modifiedCells (parsedCells r M f.cells) (g.state.shown M), m'⟩ = parsedCells r M f.cells :=
      shown_of_length (parsedCells_length r M f.cells)
    intro p hp hne
    rw [hshown] at hp
    obtain ⟨hk, hrow⟩ := of_mem_zip_parsedCells hp
    obtain ⟨y, hy⟩ := exists_mem_zip h.length.symm hk
    have hindex : 0 ≤ (cellIndex M p.1).toInt := (cellIndex_lt hk).1
    show cellAtIndex m' (cellIndex M p.1) = replay (_ ++ [_]) (cellIndex M p.1)
    rw [updateMapData_eq hupdate _ hindex, replay_concat]
    by_cases hzero : y = Cell.zero
    -- the cell is not what it was, so that both have the difference
    · apply patch_of_mem
      refine ⟨Cell.copyTo {} p.2, List.mem_map_of_mem (mem_changed (y := y) ?_ (hzero ▸ hne)), ?_⟩
      · unfold parsedCells
        rw [List.zip_map_left, List.mem_map]
        exact ⟨(p.1, y), hy, by rw [hrow]; rfl⟩
      · rw [hrow]
        rfl
    · apply patch_congr
      rw [← ha (p.1, y) hy hzero]
      split at hm
      · next hparse =>
        -- nothing was recorded yet
        have hcells : g.state.cells = [] :=
          not_not.mp fun hne => h.initialized hne (List.isEmpty_iff.mp hparse.2)
        unfold SaveState.shown at hy
        rw [hcells] at hy
        exact absurd (List.eq_of_mem_replicate (List.of_mem_zip hy).2) hzero
      · rw [Option.some.inj hm]

/-- After any frames, the map data has every cell as it was parsed last, and as a reader of the
records has it, unless the cell is all zeros. -/
theorem Agrees.parsed (ha : Agrees M g) (h : Recorded r M g) {cells : κ → CellClass}
    (hcells : g.parsed = some cells) {k : κ} (hk : k ∈ getValidCells M)
    (hne : parsedCell r M cells k ≠ Cell.zero) :
    cellAtIndex g.state.mapData (cellIndex M k) = (parsedCell r M cells k).copyTo {} := by
  have hparsed := h.parsed cells (by rw [hcells]; rfl)
  have hshown : g.state.shown M = parsedCells r M cells := by
    rw [shown_of_length (by rw [hparsed]; exact parsedCells_length r M cells), hparsed]
  have hmem : (k, parsedCell r M cells k) ∈ (getValidCells M).zip (g.state.shown M) := by
    rw [hshown]
    exact mem_zip_parsedCells hk
  rw [ha _ hmem hne]
  exact (List.forall₂_iff_zip.mp h.shown).2 hmem

end Ra2yrcpp.StateParser
