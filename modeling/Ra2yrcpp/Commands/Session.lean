import Ra2yrcpp.Commands.Cache
import Ra2yrcpp.Snapshot.Runs

/-!
# Sessions

Frames and commands, in any order.  The commands read the storage that the last frame has left, and
`tc_cache` outlives the frame: what it holds are pointers into `initial_game_state`.
-/

open Ra2yrcpp.Reasoning

namespace Ra2yrcpp.Commands

open StateParser (AbstractTypeClass TypeClassMessage TypeClassType MapClass Rules)
open StateContext
open Snapshot (GameFrame Run StorageValue framesOf)

variable {EventType κ ι : Type}

/-! ## The session -/

/-- A message of the storage, as the lookups read it; `typeNumber` are the enumerators. -/
def readTypeClass (typeNumber : TypeClassType → Int32) (O : TypeClassMessage) : TypeClass :=
  ⟨⟨O.arrayIndex, typeNumber O.type⟩, O.pointerSelf⟩

def readStorage (typeNumber : TypeClassType → Int32) (sv : StorageValue) : GameSnapshot where
  objects := sv.gameState.objects
  objectTypes := sv.initialGameState.objectTypes.map (readTypeClass typeNumber)
  houses := sv.gameState.houses
  factories := sv.gameState.factories

/-- The callbacks, and what the commands have done so far. -/
structure Session (EventType κ ι : Type) where
  run : Run ι
  commands : State EventType κ

/-- `commands` is a call of `CBGameCommand::exec`, with what the game is then. -/
inductive SessionAction (EventType κ ι : Type)
  | callback (a : Snapshot.Action ι)
  | commands (abi : Abi EventType κ) (game : Game) (lists : EventLists EventType)
      (cmds : List Command)

def Session.init (w : World EventType κ) : Session EventType κ ι := ⟨Run.init, ⟨w, []⟩⟩

section Step

variable (types : GameTypes EventType κ) (typeNumber : TypeClassType → Int32)

def Session.env (s : Session EventType κ ι) (abi : Abi EventType κ) (game : Game) :
    Env EventType κ where
  types := types
  abi := abi
  game := game
  snapshot := readStorage typeNumber s.run.state.sv

variable [DecidableEq EventType] (oneof : Bool) (r : Rules) (M : MapClass ι) (n : Nat)

/-- An action without a result ends the process. -/
def Session.step (s : Session EventType κ ι) :
    SessionAction EventType κ ι → Option (Session EventType κ ι)
  | .callback a => (Snapshot.step oneof r M n s.run a).map fun h => { s with run := h }
  | .commands abi game lists cmds =>
    if s.run.exited then some s
    else
      match (gameCommandExec (s.env types typeNumber abi game) cmds).exec
        { s.commands with lists := lists } with
      | (.ok _, t) => some { s with commands := t }
      | (.error _, _) => none

end Step

/-! ## The type classes of the storage -/

section Types

variable {oneof : Bool} {r : Rules} {M : MapClass ι} {n : Nat} {h h' : Run ι}

/-- A frame with its interval, and with type classes that can all be parsed. -/
def Parses : Snapshot.Action ι → Prop
  | .frame f => 1 ≤ f.parseMapDataInterval ∧ f.typeClasses.all AbstractTypeClass.parses = true
  | _ => True

theorem Parses.ok {a : Snapshot.Action ι} (ha : Parses a) : a.Ok := by
  cases a with
  | frame f => exact ha.1
  | progressUpdate | gameloopExit => trivial

/-- The frames that were recorded stay. -/
theorem frames_kept {a : Snapshot.Action ι} (ha : Parses a)
    (hstep : Snapshot.step oneof r M n h a = some h') :
    h.frames <+: h'.frames ∧ h'.threw = h.threw := by
  cases a with
  | gameloopExit =>
    obtain rfl := Option.some.inj hstep
    exact ⟨List.prefix_refl _, rfl⟩
  | progressUpdate B =>
    unfold Snapshot.step at hstep
    dsimp only at hstep
    split at hstep <;> cases hstep <;> exact ⟨List.prefix_refl _, rfl⟩
  | frame f =>
    by_cases hexited : h.exited = true
    · unfold Snapshot.step at hstep
      dsimp only at hstep
      rw [if_pos hexited] at hstep
      obtain rfl := Option.some.inj hstep
      exact ⟨List.prefix_refl _, rfl⟩
    · obtain ⟨-, hsame | hmore⟩ := Snapshot.frames_step (Bool.not_eq_true _ ▸ hexited) hstep
      · have hthrows := hsame.2.2
        rw [ha.2] at hthrows
        cases hthrows
      · exact ⟨⟨_, hmore.1.symm⟩, hmore.2⟩

/-- Once there are type classes, they are those of a frame that stays the first one with any. -/
theorem objectTypes_kept (hinv : Snapshot.Inv r M n h) (hinv' : Snapshot.Inv r M n h')
    (hframes : h.frames <+: h'.frames) (hthrew : h.threw = false) (hthrew' : h'.threw = false) :
    h.state.sv.initialGameState.objectTypes = [] ∨
      h'.state.sv.initialGameState.objectTypes = h.state.sv.initialGameState.objectTypes := by
  have hfound := (hinv.found hthrew).initial
  have hfound' := (hinv'.found hthrew').initial
  cases hfinder : h.finder with
  | none =>
    rw [hfinder] at hfound
    exact .inl hfound
  | some f =>
    obtain ⟨fs, hfs⟩ := hframes
    have hfinder' : h'.finder = some f := by
      unfold Run.finder at hfinder ⊢
      rw [← hfs, List.find?_append, hfinder]
      rfl
    rw [hfinder] at hfound
    rw [hfinder'] at hfound'
    exact .inr (hfound'.trans hfound.symm)

end Types

/-! ## Every session -/

section Sessions

variable [DecidableEq EventType] {types : GameTypes EventType κ}
  {typeNumber : TypeClassType → Int32} {oneof : Bool} {r : Rules} {M : MapClass ι} {n : Nat}
  {s t : Session EventType κ ι} {a : SessionAction EventType κ ι}

def SessionAction.Ok : SessionAction EventType κ ι → Prop
  | .callback a => Parses a
  | .commands _ _ _ _ => True

/-- What the commands of a frame find of the type classes. -/
def Session.objectTypes (typeNumber : TypeClassType → Int32) (s : Session EventType κ ι) :
    List TypeClass :=
  (readStorage typeNumber s.run.state.sv).objectTypes

structure Session.Inv (r : Rules) (M : MapClass ι) (n : Nat) (typeNumber : TypeClassType → Int32)
    (s : Session EventType κ ι) : Prop where
  run : Snapshot.Inv r M n s.run
  threw : s.run.threw = false
  cache : Current (s.objectTypes typeNumber) s.commands.cache

omit [DecidableEq EventType] in
theorem Session.inv_init (w : World EventType κ) :
    (Session.init w : Session EventType κ ι).Inv r M n typeNumber :=
  ⟨Snapshot.inv_init r M n, rfl, .inl rfl⟩

theorem Session.Inv.step (hinv : s.Inv r M n typeNumber) (ha : a.Ok)
    (hstep : s.step types typeNumber oneof r M n a = some t) : t.Inv r M n typeNumber := by
  cases a with
  | callback a =>
    obtain ⟨h, hrun, rfl⟩ := Option.map_eq_some_iff.mp hstep
    have hnext : ∃ h', Snapshot.step oneof r M n s.run a = some h' ∧ Snapshot.Inv r M n h' :=
      hinv.run.step (Parses.ok ha)
    obtain ⟨h', hrun', hinv'⟩ := hnext
    obtain rfl : h = h' := Option.some.inj (hrun.symm.trans hrun')
    obtain ⟨hframes, hthrew⟩ := frames_kept ha hrun
    have hthrew' := hthrew.trans hinv.threw
    refine ⟨hinv', hthrew', ?_⟩
    show Current (h.state.sv.initialGameState.objectTypes.map (readTypeClass typeNumber)) _
    have hcache : Current (s.run.state.sv.initialGameState.objectTypes.map
      (readTypeClass typeNumber)) s.commands.cache := hinv.cache
    rcases objectTypes_kept hinv.run hinv' hframes hinv.threw hthrew' with hnil | hsame
    · -- the cache was empty
      rw [hnil] at hcache
      rcases hcache with hcache | hcache
      · exact .inl hcache
      · exact .inl hcache
    · rw [hsame]
      exact hcache
  | commands abi game lists cmds =>
    unfold Session.step at hstep
    dsimp only at hstep
    split at hstep
    · obtain rfl := Option.some.inj hstep
      exact hinv
    · split at hstep
      · next results u hexec =>
        -- the commands of the frame are compared with themselves
        obtain rfl := Option.some.inj hstep
        obtain ⟨-, halike⟩ := transparent_gameCommandExec
          (E := s.env types typeNumber abi game) cmds { s.commands with lists := lists } _
          ⟨rfl, hinv.cache, hinv.cache⟩
        rw [hexec] at halike
        exact ⟨hinv.run, hinv.threw, halike.right⟩
      · cases hstep

theorem Session.inv_run {acts : List (SessionAction EventType κ ι)} (hok : ∀ a ∈ acts, a.Ok)
    (hinv : s.Inv r M n typeNumber)
    (hrun : Reasoning.run (Session.step types typeNumber oneof r M n) s acts = some t) :
    t.Inv r M n typeNumber := by
  induction acts generalizing s with
  | nil =>
    cases hrun
    exact hinv
  | cons a acts ih =>
    obtain ⟨u, hstep, hrun'⟩ := run_cons_eq_some.mp hrun
    exact ih (fun b hb => hok b (List.mem_cons_of_mem a hb))
      (hinv.step (hok a List.mem_cons_self) hstep) hrun'

/-- An entry of the filled cache points to a type class of the list, and is found by its address. -/
theorem mem_fillCache {p : UInt32 × Ref TypeClass} (types : List TypeClass) (i : Nat) (tc : TcCache)
    (hp : p ∈ fillCache types i tc) :
    p ∈ tc ∨ ∃ j, p.2.index = i + j ∧ types[j]? = some p.2.value ∧ p.2.value.pointerSelf = p.1 := by
  induction types generalizing i tc with
  | nil => exact .inl hp
  | cons O types ih =>
    rcases ih (i + 1) _ hp with hmem | ⟨j, hindex, hvalue, hself⟩
    · unfold TcCache.emplace at hmem
      split at hmem
      · exact .inl hmem
      · rcases List.mem_append.mp hmem with hmem | hmem
        · exact .inl hmem
        · obtain rfl := List.mem_singleton.mp hmem
          exact .inr ⟨0, rfl, rfl, rfl⟩
    · exact .inr ⟨j + 1, by omega, hvalue, hself⟩

/-- However frames and commands alternate, `tc_cache` is never stale, as long as all type classes
can be parsed: an entry points to the type class of the storage that has its address, and the
commands return the same and do the same to the game as if they looked each type class up anew. -/
theorem cache_never_stale (types : GameTypes EventType κ) (typeNumber : TypeClassType → Int32)
    (oneof : Bool) (r : Rules) (M : MapClass ι) (n : Nat) (w : World EventType κ)
    {acts : List (SessionAction EventType κ ι)} (hok : ∀ a ∈ acts, a.Ok)
    (hrun : Reasoning.run (Session.step types typeNumber oneof r M n) (Session.init w) acts =
      some s) :
    (∀ p ∈ s.commands.cache, (s.objectTypes typeNumber)[p.2.index]? = some p.2.value ∧
        p.2.value.pointerSelf = p.1) ∧
      ∀ abi game lists cmds,
        ((gameCommandExec (s.env types typeNumber abi game) cmds).exec
            { s.commands with lists := lists }).1 =
          ((gameCommandExec (s.env types typeNumber abi game) cmds).exec
            { s.commands with lists := lists, cache := [] }).1 ∧
        ((gameCommandExec (s.env types typeNumber abi game) cmds).exec
            { s.commands with lists := lists }).2.toWorld =
          ((gameCommandExec (s.env types typeNumber abi game) cmds).exec
            { s.commands with lists := lists, cache := [] }).2.toWorld := by
  have hinv := Session.inv_run hok (Session.inv_init w) hrun
  refine ⟨fun p hp => ?_, fun abi game lists cmds => ?_⟩
  · rcases hinv.cache with hnil | hfilled
    · rw [hnil] at hp
      cases hp
    · rw [hfilled] at hp
      rcases mem_fillCache _ 0 [] hp with hnot | ⟨j, hindex, hvalue, hself⟩
      · cases hnot
      · rw [hindex, Nat.zero_add]
        exact ⟨hvalue, hself⟩
  · obtain ⟨hresult, halike⟩ := transparent_gameCommandExec
      (E := s.env types typeNumber abi game) cmds { s.commands with lists := lists }
      { s.commands with lists := lists, cache := [] } ⟨rfl, hinv.cache, .inl rfl⟩
    exact ⟨hresult, halike.toWorld.symm⟩

/-! ### Orders between two frames -/

/-- No frame ends the process. -/
theorem Session.Inv.callback_some {b : Snapshot.Action ι} (hinv : s.Inv r M n typeNumber)
    (hb : Parses b) : ∃ t, s.step types typeNumber oneof r M n (.callback b) = some t := by
  have hnext : ∃ h, Snapshot.step oneof r M n s.run b = some h ∧ Snapshot.Inv r M n h :=
    hinv.run.step hb.ok
  obtain ⟨h, hrun, -⟩ := hnext
  exact ⟨_, Option.map_eq_some_iff.mpr ⟨h, hrun, rfl⟩⟩

/-- Nor does an order to units. -/
theorem Session.unitOrder_some (s : Session EventType κ ι) {o : UnitOrder}
    (ha : o.action ≠ .sellCell) (abi : Abi EventType κ) (game : Game)
    (lists : EventLists EventType) :
    ∃ t, s.step types typeNumber oneof r M n (.commands abi game lists [.unitOrder o]) =
      some t := by
  obtain ⟨result, t, hexec, -, -, hraises⟩ := perform_exec
    (E := s.env types typeNumber abi game) ha { s.commands with lists := lists }
  unfold Session.step
  dsimp only
  split
  · exact ⟨s, rfl⟩
  · unfold gameCommandExec runAsyncHandler work
    cases result with
    | ok u =>
      simp only [Prog.exec_bind, Prog.exec_tryCatch, hexec]
      exact ⟨_, rfl⟩
    | error e =>
      obtain ⟨x, rfl⟩ := hraises e rfl
      simp only [Prog.exec_bind, Prog.exec_tryCatch, hexec]
      exact ⟨_, rfl⟩

theorem Session.run_some {acts : List (SessionAction EventType κ ι)} (hinv : s.Inv r M n typeNumber)
    (hsteps : ∀ a ∈ acts, a.Ok ∧ ∀ s : Session EventType κ ι, s.Inv r M n typeNumber →
      ∃ t, s.step types typeNumber oneof r M n a = some t) :
    ∃ t, Reasoning.run (Session.step types typeNumber oneof r M n) s acts = some t := by
  induction acts generalizing s with
  | nil => exact ⟨s, rfl⟩
  | cons a acts ih =>
    obtain ⟨hok, hsome⟩ := hsteps a List.mem_cons_self
    obtain ⟨u, hstep⟩ := hsome s hinv
    obtain ⟨t, hrun⟩ := ih (hinv.step hok hstep) fun b hb => hsteps b (List.mem_cons_of_mem a hb)
    exact ⟨t, run_cons_eq_some.mpr ⟨u, hstep, hrun⟩⟩

end Sessions

def yuriNumber : TypeClassType → Int32
  | .aircraftType => 0x03
  | .buildingType => 0x07
  | .infantryType => 0x10
  | .overlayType => 0x15
  | .unitType => 0x28
  | .unspecified => -1

def stopTank (k : UInt32) : SessionAction UInt8 UInt32 StateParser.CellStruct :=
  .commands willing {} noEvents [.unitOrder { objectAddresses := [k], action := .stop }]

def tankFrame (currentFrame : UInt32) : SessionAction UInt8 UInt32 StateParser.CellStruct :=
  .callback
    (.frame (Snapshot.smallFrame currentFrame [{ address := 64, whatAmI := some .unitType }]))

/-- The first order comes before the type classes, the second fills the cache. -/
theorem tankFrames_never_stale :
    ∃ s, Reasoning.run
        (Session.step yuriTypes yuriNumber true StateParser.plainRules StateParser.smallMap 2)
        (Session.init ⟨[], noEvents⟩) [stopTank 16, tankFrame 1, stopTank 16, tankFrame 2] =
          some s ∧
      ∀ p ∈ s.commands.cache, (s.objectTypes yuriNumber)[p.2.index]? = some p.2.value ∧
        p.2.value.pointerSelf = p.1 := by
  have hframe : ∀ k, (tankFrame k).Ok := fun k => by
    simp [tankFrame, SessionAction.Ok, Parses, Snapshot.smallFrame, AbstractTypeClass.parses]
  have hacts : ∀ a ∈ [stopTank 16, tankFrame 1, stopTank 16, tankFrame 2],
      (∃ k, a = stopTank k) ∨ ∃ k, a = tankFrame k := by
    simp only [List.mem_cons, List.not_mem_nil, or_false]
    rintro a (rfl | rfl | rfl | rfl)
    exacts [.inl ⟨16, rfl⟩, .inr ⟨1, rfl⟩, .inl ⟨16, rfl⟩, .inr ⟨2, rfl⟩]
  have hok : ∀ a ∈ [stopTank 16, tankFrame 1, stopTank 16, tankFrame 2], a.Ok := by
    intro a ha
    rcases hacts a ha with ⟨k, rfl⟩ | ⟨k, rfl⟩
    · exact True.intro
    · exact hframe k
  have hsome : ∃ s, Reasoning.run
      (Session.step yuriTypes yuriNumber true StateParser.plainRules StateParser.smallMap 2)
      (Session.init ⟨[], noEvents⟩) [stopTank 16, tankFrame 1, stopTank 16, tankFrame 2] = some s :=
    Session.run_some (Session.inv_init ⟨[], noEvents⟩) fun a ha => ⟨hok a ha, fun s hinv => by
      rcases hacts a ha with ⟨k, rfl⟩ | ⟨k, rfl⟩
      · exact s.unitOrder_some (by simp) _ _ _
      · exact hinv.callback_some (hframe k)⟩
  obtain ⟨s, hrun⟩ := hsome
  exact ⟨s, hrun, (cache_never_stale yuriTypes yuriNumber true StateParser.plainRules
    StateParser.smallMap 2 _ hok hrun).1⟩

end Ra2yrcpp.Commands
