import Mathlib.Data.List.Forall2
import Ra2yrcpp.Snapshot.Frames

/-!
# Runs of frames

What every run of frames keeps: no frame ends the process, a snapshot has the houses, the factories
and the objects of its own frame, and the type classes are recorded once.
-/

open Ra2yrcpp.Reasoning

namespace Ra2yrcpp.Snapshot

open StateParser

variable {κ : Type} {oneof : Bool} {r : Rules} {M : MapClass κ} {n : Nat} {s s' : State κ}
  {f : GameFrame κ} {m : SaveState κ}

/-- What a snapshot has of its own frame. -/
structure OfFrame (n : Nat) (f : RecordedFrame κ) (G : GameState) : Prop where
  stage : G.stage = .ingame
  loadProgresses : G.loadProgresses = progresses n f.progress
  crc : G.crc = f.frame.currentFrameCRC
  currentFrame : G.currentFrame = f.frame.currentFrame
  techLevel : G.techLevel = f.frame.techLevel
  houses : G.houses = f.frame.houses.map (parseHouseClass {})
  factories : G.factories = f.frame.factories.map fun I => parseFactory I {}
  objects : G.objects.map ObjectMessage.pointerSelf =
    (f.frame.technos.filter TechnoClass.parses).map TechnoClass.address

/-- The parts of a state that are neither event lists nor type classes and their groups. -/
def GameState.core (G : GameState) : GameState :=
  { G with toEventListMessages := {}, objectTypes := [], prerequisiteGroups := {} }

/-- The run, as far as the map goes. -/
def Run.recording (h : Run κ) : Recording κ :=
  ⟨h.state.saveState, h.snapshots.map GameState.cellsDifference, h.parsed⟩

/-- The snapshots with type classes, with their frames. -/
def Run.carriers (h : Run κ) : List (RecordedFrame κ × GameState) :=
  (h.frames.zip h.snapshots).filter fun p => !p.2.objectTypes.isEmpty

/-- Where the type classes are: not parsed and recorded yet, or in one snapshot. -/
inductive Types (h : Run κ) : Prop
  | unset (hsnapshots : h.snapshots = []) (hset : h.state.initialState = false)
  | none (hcarriers : h.carriers = []) (hset : h.state.initialState = true)
  | one (f : RecordedFrame κ) (G : GameState) (hcarriers : h.carriers = [(f, G)])
      (hset : h.state.initialState = true)
      (hG : G.objectTypes = f.frame.typeClasses.map typeClassMessage)
      (hinitial : h.state.sv.initialGameState.objectTypes = G.objectTypes)

/-- The first frame that found type classes. -/
def Run.finder (h : Run κ) : Option (RecordedFrame κ) :=
  h.frames.find? fun f => !f.frame.typeClasses.isEmpty

/-- The type classes are those of the first frame that found any, and its snapshot has them. -/
structure FirstFound (h : Run κ) : Prop where
  initial : h.state.sv.initialGameState.objectTypes =
    h.finder.elim [] fun f => f.frame.typeClasses.map typeClassMessage
  carriers : h.carriers.map Prod.fst = h.finder.toList

/-- The map data has the size of the map, once there is any. -/
def MapSize (M : MapClass κ) (sv : StorageValue) : Prop :=
  sv.mapData ≠ [] → sv.mapWidth = M.right + 1 ∧ sv.mapHeight = M.bottom + 1

structure Inv (r : Rules) (M : MapClass κ) (n : Nat) (h : Run κ) : Prop where
  map : Recorded r M h.recording
  agrees : Agrees M h.recording
  mapSize : MapSize M h.state.sv
  ofFrame : List.Forall₂ (OfFrame n) h.frames h.snapshots
  progress : h.state.sv.loadState = progresses n h.progress
  eventBuffer : h.state.sv.eventBuffer =
    ⟨(h.snapshots.map GameState.toEventListMessages).rtake eventBufferSize,
      (h.snapshots.map GameState.currentFrame).rtake eventBufferSize⟩
  initial : h.snapshots.head?.map GameState.core =
    if h.state.initialState then some h.state.sv.initialGameState.core else none
  types : Types h
  /-- As long as no frame has thrown. -/
  found : h.threw = false → FirstFound h

theorem inv_init (r : Rules) (M : MapClass κ) (n : Nat) : Inv r M n Run.init where
  map := recorded_init r M
  agrees := agrees_init M
  mapSize hne := absurd rfl hne
  ofFrame := List.Forall₂.nil
  progress := rfl
  eventBuffer := by
    show _ = EventListsSnapshot.mk ([].rtake _) ([].rtake _)
    rw [List.rtake_nil, List.rtake_nil]
    rfl
  initial := rfl
  types := .unset rfl rfl
  found _ := ⟨rfl, rfl⟩

/-- A step that writes neither to the snapshots nor to what the next one is made of. -/
theorem Inv.frame {h h' : Run κ} (hinv : Inv r M n h) (hmap : h'.recording = h.recording)
    (hsize : MapSize M h'.state.sv)
    (hframes : h'.frames = h.frames) (hsnapshots : h'.snapshots = h.snapshots)
    (hprogress : h'.state.sv.loadState = progresses n h'.progress)
    (hbuffer : h'.state.sv.eventBuffer = h.state.sv.eventBuffer)
    (hset : h'.state.initialState = h.state.initialState)
    (hinitial : h'.state.sv.initialGameState = h.state.sv.initialGameState)
    (hthrew : h'.threw = h.threw) : Inv r M n h' := by
  have hcarriers : h'.carriers = h.carriers := by
    unfold Run.carriers
    rw [hframes, hsnapshots]
  refine ⟨hmap ▸ hinv.map, hmap ▸ hinv.agrees, hsize, ?_, hprogress, ?_, ?_, ?_, ?_⟩
  · rw [hframes, hsnapshots]
    exact hinv.ofFrame
  · rw [hbuffer, hsnapshots]
    exact hinv.eventBuffer
  · rw [hset, hinitial, hsnapshots]
    exact hinv.initial
  · cases hinv.types with
    | unset hnil hunset => exact .unset (hsnapshots.trans hnil) (hset.trans hunset)
    | none hnone hisset => exact .none (hcarriers.trans hnone) (hset.trans hisset)
    | one f G hone hisset hG htypes =>
      exact .one f G (hcarriers.trans hone) (hset.trans hisset) hG (hinitial ▸ htypes)
  · intro hnot
    have hfound := hinv.found (hthrew ▸ hnot)
    have hfinder : h'.finder = h.finder := by
      unfold Run.finder
      rw [hframes]
    exact ⟨by rw [hinitial, hfinder, hfound.initial], by rw [hcarriers, hfinder, hfound.carriers]⟩

/-- A type class of a frame without type classes is not in the storage. -/
theorem newTypes_of_ne_nil (h : s.sv.initialGameState.objectTypes ≠ []) : newTypes s f = [] := by
  unfold newTypes
  rw [if_neg (by rwa [List.isEmpty_iff])]

theorem newTypes_of_nil (h : s.sv.initialGameState.objectTypes = []) :
    newTypes s f = f.typeClasses.map typeClassMessage := by
  unfold newTypes
  rw [h]
  rfl

theorem initialAfter_objectTypes (difference : List CellMessage) :
    (initialAfter oneof s f difference).objectTypes =
      if s.initialState = true ∧ s.sv.initialGameState.objectTypes ≠ [] then
        s.sv.initialGameState.objectTypes
      else newTypes s f := by
  unfold initialAfter
  cases s.initialState with
  | false => rfl
  | true =>
    by_cases hnil : s.sv.initialGameState.objectTypes = []
    · simp [hnil]
    · simp [hnil]

theorem initialAfter_core (difference : List CellMessage) :
    (initialAfter oneof s f difference).core =
      if s.initialState then s.sv.initialGameState.core
      else (snapshot oneof s f difference).core := by
  unfold initialAfter
  cases s.initialState with
  | false => rfl
  | true =>
    cases s.sv.initialGameState.objectTypes.isEmpty with
    | true => rfl
    | false => rfl

theorem snapshot_ofFrame {B : Option (Nat → DoubleBits)} (hB : s.sv.loadState = progresses n B)
    (difference : List CellMessage) :
    OfFrame n ⟨f, B⟩ (snapshot oneof s f difference) := by
  refine ⟨rfl, hB, rfl, rfl, rfl, rfl, rfl, ?_⟩
  show (refill (slots [] f.technos) s.sv.gameState.objects).map ObjectMessage.pointerSelf = _
  rw [refill_map_pointerSelf, slots_map_parsed]

/-- The type classes that a snapshot carries are those in the storage. -/
theorem Types.ne_nil {h : Run κ} {f : RecordedFrame κ} {G : GameState}
    (hcarriers : h.carriers = [(f, G)]) : G.objectTypes ≠ [] := by
  have hmem : (f, G) ∈ h.carriers := by
    rw [hcarriers]
    exact List.mem_singleton_self _
  have hfilter := (List.mem_filter.mp hmem).2
  rw [Bool.not_eq_true', Bool.eq_false_iff, Ne, List.isEmpty_iff] at hfilter
  exact hfilter

theorem Inv.thrown {h : Run κ} (hinv : Inv r M n h) (hthrows : Throws h.state f) :
    Inv r M n { h with state := thrown h.state f, threw := true } := by
  refine ⟨hinv.map, hinv.agrees, hinv.mapSize, hinv.ofFrame, hinv.progress, hinv.eventBuffer,
    hinv.initial, ?_, nofun⟩
  cases hinv.types with
  | unset hnil hunset => exact .unset hnil hunset
  | none hnone hset => exact .none hnone hset
  | one f G hone hset hG hinitial => exact absurd (hinitial ▸ hthrows.1) (Types.ne_nil hone)

section Returned

variable {h : Run κ} {parsed : Option (κ → CellClass)}

/-- The run after a frame that has returned a snapshot. -/
def returned (oneof : Bool) (h : Run κ) (f : GameFrame κ) (m : SaveState κ) (s' : State κ)
    (parsed : Option (κ → CellClass)) : Run κ :=
  { h with
    state := s'
    snapshots := h.snapshots ++ [snapshot oneof h.state f m.cellsDifference]
    frames := h.frames ++ [⟨f, h.progress⟩]
    parsed := parsed }

theorem carriers_returned (hinv : Inv r M n h) :
    (returned oneof h f m s' parsed).carriers =
      h.carriers ++ if (newTypes h.state f).isEmpty then []
        else [(⟨f, h.progress⟩, snapshot oneof h.state f m.cellsDifference)] := by
  have hlength := hinv.ofFrame.length_eq
  unfold Run.carriers returned
  dsimp only
  rw [List.zip_append hlength, List.filter_append]
  congr 1
  show List.filter _ [_] = _
  rw [List.filter_singleton]
  show (bif !(newTypes h.state f).isEmpty then _ else _) = _
  cases (newTypes h.state f).isEmpty <;> rfl

theorem Inv.initialState_of_snapshots (hinv : Inv r M n h) (hne : h.snapshots ≠ []) :
    h.state.initialState = true := by
  by_contra hunset
  have hinitial := hinv.initial
  rw [if_neg hunset, Option.map_eq_none_iff, List.head?_eq_none_iff] at hinitial
  exact hne hinitial

theorem Inv.types_returned (hinv : Inv r M n h) (hafter : After oneof M h.state f m s') :
    Types (returned oneof h f m s' parsed) := by
  have hset : (returned oneof h f m s' parsed).state.initialState = true := hafter.initialState
  have hcarriers : (Snapshot.returned oneof h f m s' parsed).carriers = _ := carriers_returned hinv
  have htypes : s'.sv.initialGameState.objectTypes = _ :=
    (congrArg GameState.objectTypes hafter.initialGameState).trans (initialAfter_objectTypes _)
  cases hnew : (newTypes h.state f).isEmpty with
  | true =>
    rw [hnew, if_pos rfl, List.append_nil] at hcarriers
    cases hinv.types with
    | unset hnil hunset =>
      refine .none (hcarriers.trans ?_) hset
      unfold Run.carriers
      rw [hnil, List.zip_nil_right]
      rfl
    | none hnone _ => exact .none (hcarriers.trans hnone) hset
    | one f' G' hone hisset hG hinitial =>
      refine .one f' G' (hcarriers.trans hone) hset hG ?_
      have hne := Types.ne_nil hone
      rw [← hinitial] at hne
      exact (htypes.trans (if_pos ⟨hisset, hne⟩)).trans hinitial
  | false =>
    -- the frame parses the type classes, so that there were none
    have hnil : h.state.sv.initialGameState.objectTypes = [] := by
      by_contra hne
      rw [newTypes_of_ne_nil hne] at hnew
      cases hnew
    rw [hnew, if_neg (by decide)] at hcarriers
    have hnone : h.carriers = [] := by
      cases hinv.types with
      | unset hsnapshots _ =>
        unfold Run.carriers
        rw [hsnapshots, List.zip_nil_right]
        rfl
      | none hnone _ => exact hnone
      | one f' G' hone _ _ hinitial => exact absurd (hinitial ▸ hnil) (Types.ne_nil hone)
    rw [hnone, List.nil_append] at hcarriers
    refine .one _ _ hcarriers hset (newTypes_of_nil hnil) ?_
    exact htypes.trans (if_neg fun hboth => hboth.2 hnil)

theorem Inv.found_returned (hinv : Inv r M n h) (hafter : After oneof M h.state f m s')
    (hfound : FirstFound h) : FirstFound (returned oneof h f m s' parsed) := by
  have htypes : s'.sv.initialGameState.objectTypes = _ :=
    (congrArg GameState.objectTypes hafter.initialGameState).trans (initialAfter_objectTypes _)
  have hcarriers : (Snapshot.returned oneof h f m s' parsed).carriers = _ := carriers_returned hinv
  have hfinder : (Snapshot.returned oneof h f m s' parsed).finder = h.finder.or
      ([RecordedFrame.mk f h.progress].find? fun f => !f.frame.typeClasses.isEmpty) :=
    List.find?_append
  have hinitial := hfound.initial
  cases hfind : h.finder with
  | some g =>
    -- they were parsed before, and `initial_state` is set
    have hg : (!g.frame.typeClasses.isEmpty) = true :=
      List.find?_some (p := fun f : RecordedFrame κ => !f.frame.typeClasses.isEmpty) hfind
    have hne : h.state.sv.initialGameState.objectTypes ≠ [] := by
      intro hnil
      rw [hinitial, hfind] at hnil
      rw [List.map_eq_nil_iff.mp hnil] at hg
      cases hg
    have hsnapshots : h.snapshots ≠ [] := by
      intro hnil
      have hlength := hinv.ofFrame.length_eq
      unfold Run.finder at hfind
      rw [hnil] at hlength
      rw [List.eq_nil_of_length_eq_zero hlength] at hfind
      cases hfind
    rw [hfind, Option.some_or] at hfinder
    rw [newTypes_of_ne_nil hne, List.isEmpty_nil, if_pos rfl, List.append_nil] at hcarriers
    rw [if_pos ⟨hinv.initialState_of_snapshots hsnapshots, hne⟩] at htypes
    refine ⟨?_, ?_⟩
    · rw [hfinder, ← hfind, ← hinitial]
      exact htypes
    · rw [hcarriers, hfinder, hfound.carriers, hfind]
  | none =>
    have hnil : h.state.sv.initialGameState.objectTypes = [] := by
      rw [hinitial, hfind]
      rfl
    rw [if_neg fun hboth => hboth.2 hnil, newTypes_of_nil hnil] at htypes
    rw [newTypes_of_nil hnil] at hcarriers
    rw [hfind, Option.none_or] at hfinder
    refine ⟨htypes.trans ?_, ?_⟩
    · rw [hfinder]
      cases hclasses : f.typeClasses with
      | nil => simp [hclasses]
      | cons P D => simp [hclasses]
    · rw [hcarriers, List.map_append, hfound.carriers, hfind, hfinder]
      cases hclasses : f.typeClasses with
      | nil => simp [hclasses]
      | cons P D => simp [hclasses]

/-- The part about the map goes on as it does by itself. -/
theorem recording_returned (hafter : After oneof M h.state f m s') :
    (returned oneof h f m s' parsed).recording =
      ⟨m, h.recording.recorded ++ [m.cellsDifference], parsed⟩ := by
  unfold Run.recording Snapshot.returned
  dsimp only
  rw [hafter.saveState, List.map_append]
  rfl

theorem Inv.mapSize_returned (hinv : Inv r M n h) (hafter : After oneof M h.state f m s')
    (hempty : ¬0 < f.currentFrame.toNat → h.state.sv.mapData = [] → m.mapData = []) :
    MapSize M s'.sv := by
  intro hne
  rw [hafter.mapWidth, hafter.mapHeight]
  split
  · exact ⟨rfl, rfl⟩
  · next hparses =>
    apply hinv.mapSize
    intro hnil
    apply hne
    have hmapData : s'.sv.mapData = m.mapData := congrArg SaveState.mapData hafter.saveState
    rw [hmapData]
    exact hempty (fun hframe => hparses ⟨hframe, by rw [hnil]; rfl⟩) hnil

theorem Inv.returned (hinv : Inv r M n h) (hafter : After oneof M h.state f m s')
    (hmap : Recorded r M ⟨m, h.recording.recorded ++ [m.cellsDifference], parsed⟩)
    (hagrees : Agrees M ⟨m, h.recording.recorded ++ [m.cellsDifference], parsed⟩)
    (hempty : ¬0 < f.currentFrame.toNat → h.state.sv.mapData = [] → m.mapData = []) :
    Inv r M n (returned oneof h f m s' parsed) where
  map := recording_returned hafter ▸ hmap
  agrees := recording_returned hafter ▸ hagrees
  mapSize := hinv.mapSize_returned hafter hempty
  ofFrame := List.rel_append hinv.ofFrame (.cons (snapshot_ofFrame hinv.progress _) .nil)
  progress := hafter.loadState.trans hinv.progress
  eventBuffer := by
    show s'.sv.eventBuffer = ⟨(List.map _ (_ ++ [_])).rtake _, (List.map _ (_ ++ [_])).rtake _⟩
    rw [hafter.eventBuffer, hinv.eventBuffer, List.map_append, List.map_append,
      slide_rtake (by decide), slide_rtake (by decide)]
    rfl
  initial := by
    have hcore : s'.sv.initialGameState.core = _ :=
      (congrArg GameState.core hafter.initialGameState).trans (initialAfter_core _)
    have hinitial := hinv.initial
    show (h.snapshots ++ [_]).head?.map _ =
      if s'.initialState then some s'.sv.initialGameState.core else none
    rw [hafter.initialState, if_pos rfl, hcore]
    cases hsnapshots : h.snapshots with
    | nil =>
      rw [hsnapshots] at hinitial
      have hunset : ¬h.state.initialState = true := by
        intro hset
        rw [if_pos hset] at hinitial
        cases hinitial
      rw [if_neg hunset]
      rfl
    | cons G Gs =>
      have hset := hinv.initialState_of_snapshots (by rw [hsnapshots]; exact List.cons_ne_nil _ _)
      rw [hsnapshots, if_pos hset] at hinitial
      rw [if_pos hset]
      exact hinitial
  types := hinv.types_returned hafter
  found hnot := hinv.found_returned hafter (hinv.found hnot)

end Returned

/-! ## All frames -/

/-- The interval of a frame is not zero. -/
def Action.Ok : Action κ → Prop
  | .frame f => 1 ≤ f.parseMapDataInterval
  | _ => True

/-- No frame ends the process. -/
theorem Inv.step {h : Run κ} {a : Action κ} (hinv : Inv r M n h) (ha : a.Ok) :
    ∃ h', step oneof r M n h a = some h' ∧ Inv r M n h' := by
  cases a with
  | progressUpdate B =>
    unfold Snapshot.step
    by_cases hexited : h.exited = true
    · exact ⟨h, if_pos hexited, hinv⟩
    · exact ⟨_, if_neg hexited, hinv.frame rfl hinv.mapSize rfl rfl
        (updateLoadProgress_loadState B hinv.progress) rfl rfl rfl rfl⟩
  | gameloopExit =>
    exact ⟨_, rfl, hinv.frame rfl hinv.mapSize rfl rfl hinv.progress rfl rfl rfl rfl⟩
  | frame f =>
    by_cases hexited : h.exited = true
    · exact ⟨h, if_pos hexited, hinv⟩
    · unfold Snapshot.step
      dsimp only
      rw [if_neg hexited]
      by_cases hthrows : Throws h.state f
      · rw [exec_of_throws hthrows]
        exact ⟨_, rfl, hinv.thrown hthrows⟩
      · obtain ⟨g, hg, hmap⟩ := hinv.map.record ha f.mapFrame
        have hagrees := hinv.agrees.record hinv.map ha hg
        have hempty := mapData_of_frame_zero hinv.map ha hg
        unfold StateParser.record at hg
        obtain ⟨m, hm, hg⟩ := Option.bind_eq_some_iff.mp hg
        obtain rfl := Option.some.inj hg
        have hlength : h.state.sv.eventBuffer.frame.length =
            h.state.sv.eventBuffer.lists.length := by
          rw [hinv.eventBuffer, length_rtake, length_rtake, List.length_map, List.length_map]
        obtain ⟨s', hexec, hafter⟩ := exec_of_returns hthrows hm hlength
        rw [hexec]
        exact ⟨_, rfl, hinv.returned hafter hmap hagrees hempty⟩

theorem inv_run (oneof : Bool) {acts : List (Action κ)} (hok : ∀ a ∈ acts, a.Ok) {h : Run κ}
    (hinv : Inv r M n h) : ∃ h', run (step oneof r M n) h acts = some h' ∧ Inv r M n h' := by
  induction acts generalizing h with
  | nil => exact ⟨h, rfl, hinv⟩
  | cons a acts ih =>
    obtain ⟨h', hstep, hinv'⟩ := hinv.step (hok a List.mem_cons_self)
    rw [run_cons, hstep, Option.bind_some]
    exact ih (fun b hb => hok b (List.mem_cons_of_mem _ hb)) hinv'

/-! ### Which frames are recorded -/

/-- The frames up to the end of the game loop. -/
def framesOf : List (Action κ) → List (GameFrame κ)
  | [] => []
  | .frame f :: acts => f :: framesOf acts
  | .progressUpdate _ :: acts => framesOf acts
  | .gameloopExit :: _ => []

theorem throws_of_exec (h : exec oneof r M s f = some (s', none)) : Throws s f := by
  by_contra hreturns
  unfold exec stateToProtobuf at h
  rw [parseTypes_of_returns hreturns, Option.bind_eq_bind, Option.bind_some] at h
  obtain ⟨gbuf, -, h⟩ := Option.bind_eq_some_iff.mp h
  obtain ⟨t, -, h⟩ := Option.bind_eq_some_iff.mp h
  obtain ⟨u, -, h⟩ := Option.bind_eq_some_iff.mp h
  cases h

/-- What a frame adds to the frames of the run. -/
theorem frames_step {h h' : Run κ} (hexited : h.exited = false)
    (hstep : step oneof r M n h (.frame f) = some h') :
    h'.exited = false ∧
      ((h'.frames = h.frames ∧ Throws h.state f) ∨
        (h'.frames = h.frames ++ [⟨f, h.progress⟩] ∧ h'.threw = h.threw)) := by
  unfold step at hstep
  dsimp only at hstep
  rw [if_neg (by rw [hexited]; decide)] at hstep
  obtain ⟨⟨s, out⟩, hexec, hstep⟩ := Option.map_eq_some_iff.mp hstep
  cases out with
  | none =>
    subst hstep
    exact ⟨hexited, .inl ⟨rfl, throws_of_exec hexec⟩⟩
  | some G =>
    subst hstep
    exact ⟨hexited, .inr ⟨rfl, rfl⟩⟩

theorem run_exited {h h' : Run κ} {acts : List (Action κ)} (hexited : h.exited = true)
    (hrun : run (step oneof r M n) h acts = some h') :
    h'.frames = h.frames ∧ h'.threw = h.threw := by
  induction acts generalizing h with
  | nil =>
    cases hrun
    exact ⟨rfl, rfl⟩
  | cons a acts ih =>
    obtain ⟨t, hstep, hrun⟩ := run_cons_eq_some.mp hrun
    cases a with
    | progressUpdate B | frame f =>
      unfold step at hstep
      dsimp only at hstep
      rw [if_pos hexited] at hstep
      cases hstep
      exact ih hexited hrun
    | gameloopExit =>
      obtain rfl := Option.some.inj hstep
      have hrest := ih rfl hrun
      exact hrest

theorem frames_run {h h' : Run κ} {acts : List (Action κ)} (hexited : h.exited = false)
    (hrun : run (step oneof r M n) h acts = some h') :
    ∃ fs, h'.frames.map RecordedFrame.frame = h.frames.map RecordedFrame.frame ++ fs ∧
      fs.Sublist (framesOf acts) ∧
      ((∀ f ∈ framesOf acts, f.typeClasses.all AbstractTypeClass.parses = true) →
        fs = framesOf acts ∧ h'.threw = h.threw) := by
  induction acts generalizing h with
  | nil =>
    cases hrun
    exact ⟨[], (List.append_nil _).symm, .slnil, fun _ => ⟨rfl, rfl⟩⟩
  | cons a acts ih =>
    obtain ⟨t, hstep, hrun'⟩ := run_cons_eq_some.mp hrun
    cases a with
    | progressUpdate B =>
      unfold step at hstep
      dsimp only at hstep
      rw [if_neg (by rw [hexited]; decide)] at hstep
      cases hstep
      have hrest := ih (by exact hexited) hrun'
      exact hrest
    | gameloopExit =>
      obtain rfl := Option.some.inj hstep
      obtain ⟨hframes, hthrew⟩ := run_exited rfl hrun'
      exact ⟨[], by rw [hframes, List.append_nil], .slnil, fun _ => ⟨rfl, hthrew⟩⟩
    | frame f =>
      obtain ⟨hexited', hadds⟩ := frames_step hexited hstep
      obtain ⟨fs, hfs, hsub, hall⟩ := ih hexited' hrun'
      rcases hadds with ⟨hsame, hthrows⟩ | ⟨hmore, hthrew⟩
      · refine ⟨fs, by rw [hfs, hsame], hsub.cons f, fun hparse => ?_⟩
        have hf := hparse f List.mem_cons_self
        rw [hthrows.2] at hf
        cases hf
      · refine ⟨f :: fs, by rw [hfs, hmore, List.map_append, List.append_assoc]; rfl,
          hsub.cons_cons f, fun hparse => ?_⟩
        obtain ⟨hfs', hthrew'⟩ := hall fun g hg => hparse g (List.mem_cons_of_mem _ hg)
        exact ⟨by rw [hfs']; rfl, hthrew'.trans hthrew⟩

/-! ### What every run keeps -/

/-- A frame on the small map, with the type classes that are loaded. -/
def smallFrame (currentFrame : UInt32) (typeClasses : List AbstractTypeClass) :
    GameFrame CellStruct where
  currentFrame := currentFrame
  currentFrameCRC := 0
  techLevel := 10
  typeClasses := typeClasses
  rules := {}
  houses := []
  technos := [rhino]
  factories := []
  cells := flatCells 3
  containedTiberiumValue _ := 0
  isShrouded _ := false
  events := ⟨.empty, .empty, .empty⟩
  parseMapDataInterval := 2

/-- The type classes are loaded after the first frame, and read again in the third. -/
def threeFrames : List (Action CellStruct) :=
  [.progressUpdate fun _ => 0, .frame (smallFrame 0 []),
    .frame (smallFrame 1 [{ address := 64, whatAmI := some .unitType }]),
    .frame (smallFrame 2 [{ address := 64, whatAmI := some .unitType }]), .gameloopExit]

theorem threeFrames_ok : ∀ a ∈ threeFrames, a.Ok := by
  simp [threeFrames, Action.Ok, smallFrame]

end Ra2yrcpp.Snapshot
