import Ra2yrcpp.Commands.UnitOrders

/-!
# What the commands see of the cache

Whether `tc_cache` was filled by an earlier command or is still empty makes no difference to a
command: each lookup fills it first.
-/

open Ra2yrcpp.Reasoning

namespace Ra2yrcpp.Commands

open StateParser (Coordinates ObjectMessage)
open StateContext

variable {EventType κ : Type} {E : Env EventType κ}

/-- The cache was not filled yet, or has the type classes of the storage. -/
def Current (types : List TypeClass) (tc : TcCache) : Prop := tc = [] ∨ tc = fillCache types 0 []

theorem Current.tcCache_eq {S : Storage} {tc : TcCache} (h : Current S.objectTypes tc) :
    tcCache S tc = fillCache S.objectTypes 0 [] := by
  rcases h with rfl | rfl
  · rfl
  · exact tcCache_tcCache S []

theorem current_of_tcCache {S : Storage} {tc : TcCache}
    (h : tcCache S tc = fillCache S.objectTypes 0 []) : Current S.objectTypes tc := by
  cases tc with
  | nil => exact .inl rfl
  | cons t tc => exact .inr h

/-- States that differ only in whether the cache is filled. -/
structure Alike (E : Env EventType κ) (s s' : State EventType κ) : Prop where
  toWorld : s'.toWorld = s.toWorld
  left : Current E.snapshot.objectTypes s.cache
  right : Current E.snapshot.objectTypes s'.cache

/-- The program comes to the same from states that differ only in whether the cache is filled. -/
abbrev Transparent (E : Env EventType κ) {α : Type} (p : Work EventType κ α) : Prop :=
  Prog.Respects (Alike E) p

/-- The lookup reads the cache only after it was filled, and keeps it. -/
structure Memoized {α : Type} (S : Storage) (f : TcCache → TcCache × Except LookupError α) :
    Prop where
  result : ∀ tc, (f (tcCache S tc)).2 = (f tc).2
  cache : ∀ tc, tcCache S (f tc).1 = tcCache S tc

theorem memoized_getTypeClass (S : Storage) (address : UInt32) :
    Memoized S (getTypeClass S address) := by
  constructor
  · intro tc
    unfold getTypeClass
    rw [tcCache_tcCache]
  · intro tc
    unfold getTypeClass
    dsimp only
    cases (tcCache S tc).lookup address with
    | none => exact tcCache_tcCache S tc
    | some t => exact tcCache_tcCache S tc

theorem memoized_getObjectEntry (S : Storage) (address : UInt32) :
    Memoized S (getObjectEntry S address) := by
  refine ⟨fun tc => ?_, tcCache_getObjectEntry S address⟩
  unfold getObjectEntry getObjectByAddress getObject
  rw [findEntryFrom_address, findEntryFrom_address]
  cases firstFrom (fun v => v.pointerSelf == address) S.objects 0 with
  | none => rfl
  | some o =>
    simp only [getTypeClass_eq, typeClass?_tcCache]
    cases typeClass? S tc o.value <;> rfl

/-- The first object that the search looks at fills the cache. -/
theorem findEntryFrom_filled (S : Storage) (pred : ObjectEntry → Bool) (l : List ObjectMessage)
    (i : Nat) (tc : TcCache) (res : ObjectEntry) :
    (findEntryFrom (entryPred S pred) l i (tcCache S tc, res)).2 =
        (findEntryFrom (entryPred S pred) l i (tc, res)).2 ∧
      (findEntryFrom (entryPred S pred) l i (tcCache S tc, res)).1.2 =
        (findEntryFrom (entryPred S pred) l i (tc, res)).1.2 := by
  cases l with
  | nil => exact ⟨rfl, rfl⟩
  | cons v l =>
    have hentry : entryPred S pred ⟨i, v⟩ (tcCache S tc, res) =
        entryPred S pred ⟨i, v⟩ (tc, res) := by
      unfold entryPred
      simp only [getTypeClass_eq, typeClass?_tcCache, tcCache_tcCache]
    rw [findEntryFrom, findEntryFrom, hentry]
    exact ⟨rfl, rfl⟩

theorem memoized_getObjectEntryPred (S : Storage) (pred : ObjectEntry → Bool) :
    Memoized S (getObjectEntryPred S pred) := by
  refine ⟨fun tc => ?_, tcCache_getObjectEntryPred S pred⟩
  obtain ⟨hresult, hres⟩ := findEntryFrom_filled S pred S.objects 0 tc {}
  unfold getObjectEntryPred getObject
  rcases hfilled : findEntryFrom (entryPred S pred) S.objects 0 (tcCache S tc, {}) with
    ⟨⟨_, res⟩, r⟩
  rcases hfind : findEntryFrom (entryPred S pred) S.objects 0 (tc, {}) with ⟨⟨_, res'⟩, r'⟩
  rw [hfilled, hfind] at hresult hres
  -- both searches stop at the same object, with the same entry
  obtain rfl : r = r' := hresult
  obtain rfl : res = res' := hres
  rcases r with e | _ | o <;> rfl

theorem transparent_lookup {α : Type} {f : TcCache → TcCache × Except LookupError α}
    (hf : Memoized E.snapshot.toStorage f) : Transparent E (lookup f : Work EventType κ α) := by
  intro s s' h
  -- each result is that of the filled cache, and there is only one filled cache
  have hresult : (f s.cache).2 = (f s'.cache).2 := by
    rw [← hf.result s.cache, ← hf.result s'.cache, h.left.tcCache_eq, h.right.tcCache_eq]
  have hcurrent : ∀ tc, Current E.snapshot.objectTypes tc →
      Current E.snapshot.objectTypes (f tc).1 := by
    intro tc htc
    apply current_of_tcCache (S := E.snapshot.toStorage)
    rw [hf.cache, htc.tcCache_eq]
  have hafter : Alike E { s with cache := (f s.cache).1 } { s' with cache := (f s'.cache).1 } :=
    ⟨h.toWorld, hcurrent _ h.left, hcurrent _ h.right⟩
  rw [exec_lookup, exec_lookup, hresult]
  cases (f s'.cache).2 with
  | ok a => exact ⟨rfl, hafter⟩
  | error e => exact ⟨rfl, hafter⟩

/-- Reading the world of a state. -/
theorem transparent_world {α : Type} {f : State EventType κ → Work EventType κ α}
    (hf : ∀ s s', s'.toWorld = s.toWorld → f s' = f s) (hp : ∀ s, Transparent E (f s)) :
    Transparent E (get >>= f) := by
  apply Prog.Respects.get_bind
  intro s s' h
  rw [hf s s' h.toWorld]
  exact hp s s s' h

theorem transparent_call (c : Call κ) : Transparent E (call E c) := by
  intro s s' h
  have hworld := h.toWorld
  have htrace := congrArg World.trace hworld
  have hlists := congrArg World.lists hworld
  refine ⟨?_, ?_, h.left, h.right⟩
  · show Except.ok (E.abi.accepts s.toWorld c) = Except.ok (E.abi.accepts s'.toWorld c)
    rw [hworld]
  · show World.mk (s'.trace ++ [.call c]) s'.lists = World.mk (s.trace ++ [.call c]) s.lists
    rw [htrace, hlists]

/-! ## The work of the commands -/

theorem transparent_clickEvent (p : UInt32) (event : Int32) :
    Transparent E (clickEvent E p event) :=
  Prog.Respects.bind (transparent_call _) fun _ => Prog.Respects.pure _

theorem transparent_targetCoordinates (o : UnitOrder) (target : UInt32) :
    Transparent E (targetCoordinates E o target) := by
  unfold targetCoordinates
  split
  · refine Prog.Respects.bind (transparent_lookup (memoized_getObjectEntry _ _)) fun OE => ?_
    cases OE.o with
    | none => exact Prog.Respects.throw _
    | some t => exact Prog.Respects.pure _
  · exact Prog.Respects.pure _

theorem transparent_targetCell (o : UnitOrder) (target : UInt32) :
    Transparent E (targetCell E o target) := by
  unfold targetCell
  split
  · refine Prog.Respects.bind (transparent_targetCoordinates o target) fun c => ?_
    cases getMapCell E c with
    | none => exact Prog.Respects.throw _
    | some cell => exact Prog.Respects.pure _
  · exact Prog.Respects.pure _

theorem transparent_clickMission (o : UnitOrder) (p : UInt32) (m : Int32) :
    Transparent E (clickMission E o p m) :=
  Prog.Respects.bind (transparent_targetCell o _) fun _ =>
    Prog.Respects.bind (transparent_call _) fun _ => Prog.Respects.pure _

theorem transparent_yrUnitAction (p : UInt32) (a : UnitAction) :
    Transparent E (yrUnitAction E p a) := by
  unfold yrUnitAction
  cases a with
  | deploy | sell | select =>
    exact Prog.Respects.bind (transparent_call _) fun _ => Prog.Respects.pure _
  | _ => exact Prog.Respects.pure _

/-- The loop over the objects that are not in limbo. -/
theorem transparent_present {f : UInt32 → Work EventType κ PUnit} (hf : ∀ k, Transparent E (f k))
    (ks : List UInt32) :
    Transparent E (ks.forM fun k => if (getObjectNotInLimbo E k).isSome then f k else pure ⟨⟩) := by
  apply Prog.Respects.forM
  intro k
  split
  · exact hf k
  · exact Prog.Respects.pure _

theorem transparent_accepted (c : Call κ) (e : CommandError) :
    Transparent E (do
      let accepted ← call E c
      if !accepted then fail e : Work EventType κ PUnit) := by
  refine Prog.Respects.bind (transparent_call c) fun b => ?_
  cases b with
  | true => exact Prog.Respects.pure _
  | false => exact Prog.Respects.throw _

theorem transparent_unitCommand (args : UnitCommand) : Transparent E (unitCommand E args) := by
  unfold unitCommand
  split
  · exact Prog.Respects.bind (Prog.Respects.throw _) fun _ =>
      transparent_present (fun k => transparent_yrUnitAction k _) _
  · exact transparent_present (fun k => transparent_yrUnitAction k _) _

theorem transparent_placeQuery (args : PlaceQuery) : Transparent E (placeQuery E args) := by
  refine Prog.Respects.bind (transparent_lookup (memoized_getTypeClass _ _)) fun B => ?_
  cases getHouse E args.houseClass with
  | none => exact Prog.Respects.throw _
  | some house =>
    refine transparent_world (fun s s' h => ?_) fun s => Prog.Respects.pure _
    rw [h]

section Events

variable [DecidableEq EventType]

theorem transparent_addEvent (ev : Event) (frameDelay : UInt32) (spoof filterDuplicates : Bool) :
    Transparent E (addEvent E ev frameDelay spoof filterDuplicates) := by
  intro s s' h
  have hworld := h.toWorld
  have htrace := congrArg World.trace hworld
  have hlists := congrArg World.lists hworld
  unfold addEvent
  rw [Prog.exec_bind, Prog.exec_bind, Prog.exec_get, Prog.exec_get]
  dsimp only
  rw [hlists]
  rcases StateContext.addEvent E.types.toYRpp E.game
    (E.snapshot.objectTypes.map TypeClass.toObjectTypeClass) s.lists ev frameDelay spoof
    filterDuplicates with e | ⟨lists, r⟩
  · exact ⟨rfl, h⟩
  · refine ⟨rfl, ?_, h.left, h.right⟩
    show World.mk (s'.trace ++ [.event ev]) lists = World.mk (s.trace ++ [.event ev]) lists
    rw [htrace]

theorem transparent_applyAction (o : UnitOrder) (p : UInt32) :
    Transparent E (applyAction E o p) := by
  unfold applyAction
  cases o.action with
  | deploy | sell => exact transparent_clickEvent _ _
  | sellCell =>
    exact Prog.Respects.bind (transparent_addEvent _ _ _ _) fun _ => Prog.Respects.pure _
  | select => exact Prog.Respects.bind (transparent_call _) fun _ => Prog.Respects.pure _
  | move | capture | attack | attackMove | repair | stop => exact transparent_clickMission _ _ _
  | other n => exact Prog.Respects.throw _

theorem transparent_unitAction (o : UnitOrder) (src : Option ObjectMessage) :
    Transparent E (unitAction E o src) := by
  unfold unitAction
  split
  · cases src with
    | none => exact Prog.Respects.bind (Prog.Respects.throw _) fun _ => transparent_applyAction _ _
    | some v =>
      dsimp only
      split
      · exact Prog.Respects.bind (Prog.Respects.throw _) fun _ => transparent_applyAction _ _
      · exact transparent_applyAction _ _
  · exact transparent_applyAction _ _

theorem transparent_perform (o : UnitOrder) : Transparent E (perform E o) := by
  unfold perform
  split
  · exact transparent_unitAction o none
  · apply Prog.Respects.forM
    intro k
    exact Prog.Respects.bind (transparent_lookup (memoized_getObjectEntryPred _ _)) fun OE =>
      transparent_unitAction o _

theorem transparent_produceOrder (args : ProduceOrder) : Transparent E (produceOrder E args) := by
  refine Prog.Respects.bind (transparent_lookup (memoized_getTypeClass _ _)) fun tc => ?_
  unfold produce
  cases currentPlayer E with
  | none => exact Prog.Respects.throw _
  | some H =>
    refine transparent_world (fun s s' h => ?_) fun s => ?_
    · rw [h]
    · split
      · exact Prog.Respects.bind (transparent_addEvent _ _ _ _) fun _ => Prog.Respects.pure _
      · exact Prog.Respects.throw _

theorem transparent_placeBuildingAt (H : StateParser.HouseMessage) (T : TypeClass)
    (C : Coordinates) : Transparent E (placeBuildingAt E H T C) := by
  have hadd : Transparent E (do let _ ← addEvent E (placeEvent E H T C)) :=
    Prog.Respects.bind (transparent_addEvent _ _ _ _) fun _ => Prog.Respects.pure _
  refine transparent_world (fun s s' h => ?_) fun s => ?_
  · rw [h]
  · dsimp only
    split
    · exact Prog.Respects.bind (Prog.Respects.throw _) fun _ => by
        split
        · exact Prog.Respects.bind (Prog.Respects.throw _) fun _ => hadd
        · exact hadd
    · split
      · exact Prog.Respects.bind (Prog.Respects.throw _) fun _ => hadd
      · exact hadd

theorem transparent_placeBuilding (args : PlaceBuilding) :
    Transparent E (placeBuilding E args) := by
  refine Prog.Respects.bind (transparent_lookup (memoized_getObjectEntry _ _)) fun OE => ?_
  rcases OE with ⟨o, tc⟩
  rcases o with _ | o <;> rcases tc with _ | tc
  case some.some =>
    show Transparent E (placeObject E args o.value tc.value)
    unfold placeObject
    rcases findFactory E o.value.pointerSelf E.snapshot.factories with e | _ | F
    · exact Prog.Respects.throw _
    · exact Prog.Respects.throw _
    · dsimp only
      cases currentPlayer E with
      | none => exact Prog.Respects.throw _
      | some H => exact transparent_placeBuildingAt H tc.value args.coordinates
  all_goals exact Prog.Respects.throw _

/-- Every command. -/
theorem transparent_work (cmd : Command) : Transparent E (work E cmd) := by
  cases cmd with
  | unitOrder o => exact Prog.Respects.bind (transparent_perform o) fun _ => Prog.Respects.pure _
  | produceOrder args =>
    exact Prog.Respects.bind (transparent_produceOrder args) fun _ => Prog.Respects.pure _
  | placeBuilding args =>
    exact Prog.Respects.bind (transparent_placeBuilding args) fun _ => Prog.Respects.pure _
  | clickEvent args =>
    exact Prog.Respects.bind (transparent_present (fun k => transparent_accepted _ _) _) fun _ =>
      Prog.Respects.pure _
  | unitCommand args =>
    exact Prog.Respects.bind (transparent_unitCommand args) fun _ => Prog.Respects.pure _
  | missionClicked args =>
    exact Prog.Respects.bind (transparent_present (fun k => transparent_accepted _ _) _) fun _ =>
      Prog.Respects.pure _
  | addEvent args =>
    exact Prog.Respects.bind (transparent_addEvent _ _ _ _) fun _ => Prog.Respects.pure _
  | placeQuery args =>
    exact Prog.Respects.bind (transparent_placeQuery args) fun _ => Prog.Respects.pure _
  | sendMessage args =>
    exact Prog.Respects.bind (transparent_call _) fun _ => Prog.Respects.pure _

theorem transparent_runAsyncHandler (cmd : Command) : Transparent E (runAsyncHandler E cmd) := by
  apply Prog.Respects.tryCatch
  · exact Prog.Respects.bind (transparent_work cmd) fun _ => Prog.Respects.pure _
  · intro e
    cases e with
    | exception e => exact Prog.Respects.pure _
    | nullPointer => exact Prog.Respects.throw _

/-- The work of a frame does not see how far the cache is filled. -/
theorem transparent_gameCommandExec (cmds : List Command) :
    Transparent E (gameCommandExec E cmds) := by
  induction cmds with
  | nil => exact Prog.Respects.pure _
  | cons cmd items ih =>
    exact Prog.Respects.bind (transparent_runAsyncHandler cmd) fun _ =>
      Prog.Respects.bind ih fun _ => Prog.Respects.pure _

end Events

end Ra2yrcpp.Commands
