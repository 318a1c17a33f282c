import Ra2yrcpp.Commands.UnitOrders

/-!
# The commands of a frame

What `CBGameCommand::exec` can do to the game, whatever the commands in its queue and whatever the
game answers: each command touches only what the snapshot of the frame has, and a command that fails
does not keep the others from being served.
-/

open Ra2yrcpp.Reasoning

namespace Ra2yrcpp.Commands

open StateParser (Coordinates ObjectMessage HouseMessage FactoryMessage isLocal)
open StateContext

variable {EventType κ : Type} {E : Env EventType κ} {s t : State EventType κ}

/-! ## What a command may do -/

/-- The object that a call is for. -/
def Call.object : Call κ → Option UInt32
  | .clickEvent k _ | .clickMission k _ _ _ | .selectObject k | .deployObject k
  | .sellBuilding k => some k
  | .addMessage _ _ _ => none

/-- An object of the snapshot has the address and is not in limbo. -/
def Present (E : Env EventType κ) (k : UInt32) : Prop :=
  ∃ v ∈ E.snapshot.objects, v.pointerSelf = k ∧ v.inLimbo = false

/-- Nothing was done to the game. -/
def Untouched (s t : State EventType κ) : Prop := t.toWorld = s.toWorld

/-- Calls were made that all satisfy `P`. -/
def Called (P : Call κ → Prop) (s t : State EventType κ) : Prop :=
  ∃ cs : List (Call κ), t.trace = s.trace ++ cs.map .call ∧ t.lists = s.lists ∧ ∀ c ∈ cs, P c

/-- One event was added. -/
def Added (E : Env EventType κ) [DecidableEq EventType] (ev : Event) (frameDelay : UInt32)
    (spoof filterDuplicates : Bool) (s t : State EventType κ) (r : EventEntry EventType) : Prop :=
  t.trace = s.trace ++ [.event ev] ∧
    StateContext.addEvent E.types.toYRpp E.game
      (E.snapshot.objectTypes.map TypeClass.toObjectTypeClass) s.lists ev frameDelay spoof
      filterDuplicates = .ok (t.lists, r)

/-- A unit order calls the game for units of the order that have a mission. -/
def UnitOrder.Allows (E : Env EventType κ) (o : UnitOrder) (c : Call κ) : Prop :=
  ∃ k ∈ o.objectAddresses, c.object = some k ∧
    ∃ v ∈ E.snapshot.objects, v.pointerSelf = k ∧ v.inLimbo = false ∧
      isIllegalMission E v.currentMission = false

/-- The type class `T` may be built by the current player. -/
def ProduceOrder.Allowed (E : Env EventType κ) (args : ProduceOrder) (s : State EventType κ) :
    Prop :=
  ∃ H T, currentPlayer E = some H ∧
    (tcCache E.snapshot.toStorage s.cache).lookup args.objectType.pointerSelf = some T ∧
    E.abi.buildable s.toWorld H.self T.value.pointerSelf = true

/-- Both checks of the game let the building stand at `C`. -/
def placeable (E : Env EventType κ) (w : World EventType κ) (H : HouseMessage) (T : TypeClass)
    (C : Coordinates) : Bool :=
  passesProximityCheck E w T.pointerSelf H.arrayIndex.toUInt32 (E.types.coord2Cell C) &&
    E.abi.canPlaceHere w T.pointerSelf (E.types.coord2Cell C) H.self

/-- A factory of `H` has completed the building that `args` names. -/
def PlaceBuilding.Completed (E : Env EventType κ) (H : HouseMessage) (args : PlaceBuilding) :
    Prop :=
  ∃ F ∈ E.snapshot.factories, F.completed = true ∧ F.object = args.building ∧ F.owner = H.self

/-- The current player has completed the building, and it may stand there. -/
def PlaceBuilding.Allowed (E : Env EventType κ) (args : PlaceBuilding) (s : State EventType κ)
    (H : HouseMessage) (T : TypeClass) : Prop :=
  currentPlayer E = some H ∧
    (∃ v ∈ E.snapshot.objects, v.pointerSelf = args.building ∧
      ∃ i, typeClass? E.snapshot.toStorage s.cache v = some ⟨i, T⟩) ∧
    args.Completed E H ∧ placeable E s.toWorld H T args.coordinates = true

def UnitOrder.Served (E : Env EventType κ) [DecidableEq EventType] (o : UnitOrder)
    (s t : State EventType κ) (r : Except CommandError (Reply EventType)) : Prop :=
  if o.action = .sellCell then
    match r with
    | .ok _ => ∃ entry, Added E (sellCellEvent E o) 0 false true s t entry
    | .error _ => Untouched s t
  else Called (o.Allows E) s t

/-- What a command does, from its result. -/
def Served (E : Env EventType κ) [DecidableEq EventType] (s t : State EventType κ)
    (r : Except CommandError (Reply EventType)) : Command → Prop
  | .unitOrder o => o.Served E s t r
  | .produceOrder args =>
    match r with
    | .ok _ => args.Allowed E s ∧ ∃ entry, Added E (produceEvent E args) 0 false true s t entry
    | .error _ => Untouched s t
  | .placeBuilding args =>
    match r with
    | .ok _ => ∃ H T, args.Allowed E s H T ∧
        ∃ entry, Added E (placeEvent E H T args.coordinates) 0 false true s t entry
    | .error _ => Untouched s t
  | .clickEvent args =>
    Called (fun c => ∃ k ∈ args.objectAddresses, Present E k ∧
      c = .clickEvent k args.event.toUInt32.toUInt8) s t
  | .unitCommand args =>
    Called (fun c => ∃ k ∈ args.objectAddresses, Present E k ∧ c.object = some k ∧
      (args.action = .select ∨ isLocal E.snapshot.houses = true)) s t
  | .missionClicked args =>
    Called (fun c => ∃ k ∈ args.objectAddresses, Present E k ∧
      c = .clickMission k args.event args.targetObject (getMapCell E args.coordinates)) s t
  | .addEvent args =>
    match r with
    | .ok _ => ∃ entry, r = .ok (.event entry) ∧
        Added E args.event args.frameDelay args.spoof false s t entry
    | .error _ => Untouched s t
  | .placeQuery _ => Untouched s t
  | .sendMessage args =>
    Called (fun c => c = .addMessage args.message args.color args.durationFrames) s t

/-- The commands were served one after the other. -/
inductive AllServed (E : Env EventType κ) [DecidableEq EventType] :
    List Command → List (Except CommandError (Reply EventType)) → State EventType κ →
      State EventType κ → Prop
  | nil (s : State EventType κ) : AllServed E [] [] s s
  | cons (cmd : Command) (items : List Command) (r : Except CommandError (Reply EventType))
      (results : List (Except CommandError (Reply EventType))) (s u t : State EventType κ)
      (hcmd : Served E s u r cmd) (hitems : AllServed E items results u t) :
      AllServed E (cmd :: items) (r :: results) s t

/-! ## Calls -/

theorem Called.refl (P : Call κ → Prop) (s : State EventType κ) : Called P s s :=
  ⟨[], (List.append_nil _).symm, rfl, nofun⟩

theorem Called.trans {P : Call κ → Prop} (s t u : State EventType κ) (hst : Called P s t)
    (htu : Called P t u) : Called P s u := by
  obtain ⟨cs, hcs, hlists, hP⟩ := hst
  obtain ⟨ds, hds, hlists', hP'⟩ := htu
  refine ⟨cs ++ ds, ?_, hlists'.trans hlists, fun c hc => ?_⟩
  · rw [hds, hcs, List.map_append, List.append_assoc]
  · rcases List.mem_append.mp hc with hc | hc
    · exact hP c hc
    · exact hP' c hc

/-- Whether it returns or leaves with an exception, the program makes only calls that satisfy
`P`. -/
abbrev CallsOnly (P : Call κ → Prop) {α : Type} (p : Work EventType κ α) : Prop :=
  Prog.Keeps (Called P) (fun e => ∃ x, e = Stop.exception x) p

theorem callsOnly_pure {P : Call κ → Prop} {α : Type} (a : α) :
    CallsOnly P (pure a : Work EventType κ α) :=
  Prog.Keeps.pure (Called.refl P) a

theorem callsOnly_fail {P : Call κ → Prop} {α : Type} (e : CommandError) :
    CallsOnly P (fail e : Work EventType κ α) :=
  Prog.Keeps.throw (Called.refl P) ⟨e, rfl⟩

/-- A call and what follows it. -/
theorem callsOnly_call {α : Type} {P : Call κ → Prop} {c : Call κ} (hc : P c)
    {f : Bool → Work EventType κ α} (hf : ∀ b, CallsOnly P (f b)) :
    CallsOnly P (call E c >>= f) := by
  refine Prog.Keeps.bind Called.trans ⟨fun s => ?_, fun s e he => nomatch he⟩ hf
  refine ⟨[c], rfl, rfl, fun d hd => ?_⟩
  rw [List.mem_singleton.mp hd]
  exact hc

theorem present_of_getObjectNotInLimbo {k : UInt32} (h : (getObjectNotInLimbo E k).isSome = true) :
    Present E k := by
  obtain ⟨v, hv⟩ := Option.isSome_iff_exists.mp h
  have hk := List.find?_some hv
  rw [Bool.and_eq_true, beq_iff_eq, Bool.not_eq_true'] at hk
  exact ⟨v, List.mem_of_find?_eq_some hv, hk⟩

/-- The loop of the commands that skip the addresses without an object: `f` is what they do to the
others. -/
theorem callsOnly_present {P : Call κ → Prop} {ks : List UInt32}
    {f : UInt32 → Work EventType κ PUnit} (hf : ∀ k ∈ ks, Present E k → CallsOnly P (f k)) :
    CallsOnly P (ks.forM fun k =>
      if (getObjectNotInLimbo E k).isSome then f k else pure ⟨⟩) := by
  apply Prog.Keeps.forM (Called.refl P) Called.trans
  intro k hk
  split
  · next hpresent => exact hf k hk (present_of_getObjectNotInLimbo hpresent)
  · exact callsOnly_pure _

/-- A call that must be accepted. -/
theorem callsOnly_accepted {P : Call κ → Prop} {c : Call κ} (hc : P c) (e : CommandError) :
    CallsOnly P (do
      let accepted ← call E c
      if !accepted then fail e : Work EventType κ PUnit) := by
  refine callsOnly_call hc fun b => ?_
  cases b with
  | true => exact callsOnly_pure _
  | false => exact callsOnly_fail e

theorem clickEventCommand_called (args : ClickEvent) :
    CallsOnly (fun c => ∃ k ∈ args.objectAddresses, Present E k ∧
      c = .clickEvent k args.event.toUInt32.toUInt8) (clickEventCommand E args) :=
  callsOnly_present fun k hk hpresent => callsOnly_accepted ⟨k, hk, hpresent, rfl⟩ _

theorem missionClicked_called (args : MissionClicked) :
    CallsOnly (fun c => ∃ k ∈ args.objectAddresses, Present E k ∧
      c = .clickMission k args.event args.targetObject (getMapCell E args.coordinates))
      (missionClicked E args) :=
  callsOnly_present fun k hk hpresent => callsOnly_accepted ⟨k, hk, hpresent, rfl⟩ _

theorem yrUnitAction_called {P : Call κ → Prop} {k : UInt32} (a : UnitAction)
    (hP : ∀ c : Call κ, c.object = some k → P c) : CallsOnly P (yrUnitAction E k a) := by
  unfold yrUnitAction
  cases a with
  | deploy | sell | select => exact callsOnly_call (hP _ rfl) fun _ => callsOnly_pure _
  | _ => exact callsOnly_pure _

theorem unitCommand_called (args : UnitCommand) :
    CallsOnly (fun c => ∃ k ∈ args.objectAddresses, Present E k ∧ c.object = some k ∧
      (args.action = .select ∨ isLocal E.snapshot.houses = true)) (unitCommand E args) := by
  unfold unitCommand
  split
  · exact Prog.Keeps.throw_bind (Called.refl _) ⟨_, rfl⟩ _
  · next hlocal =>
    refine callsOnly_present fun k hk hpresent => yrUnitAction_called _ fun c hc => ?_
    refine ⟨k, hk, hpresent, hc, ?_⟩
    by_contra hnot
    rw [not_or, Bool.not_eq_true] at hnot
    exact hlocal ⟨hnot.1, by rw [hnot.2]; rfl⟩

theorem unitCall_object {tc : TcCache} {o : UnitOrder} {k : UInt32} {c : Call κ}
    (h : unitCall E tc o k = some c) : c.object = some k := by
  cases hres : resolved E tc (isUnit k) with
  | none =>
    unfold unitCall at h
    rw [hres] at h
    cases h
  | some v =>
    rw [unitCall_of_resolved hres] at h
    split at h
    · cases h
    · cases ha : o.action with
      | deploy | sell | select =>
        unfold actionCall at h
        rw [ha] at h
        rw [← Option.some.inj h]
        rfl
      | sellCell | other =>
        unfold actionCall at h
        rw [ha] at h
        cases h
      | move | capture | attack | attackMove | repair | stop =>
        rw [actionCall_of_mission (by rw [ha]; rfl)] at h
        obtain ⟨cell, -, rfl⟩ := Option.map_eq_some_iff.mp h
        rfl

/-! ## Events -/

section Events

variable [DecidableEq EventType]

theorem exec_addEvent (ev : Event) (frameDelay : UInt32) (spoof filterDuplicates : Bool)
    (s : State EventType κ) :
    (addEvent E ev frameDelay spoof filterDuplicates).exec s =
      match StateContext.addEvent E.types.toYRpp E.game
        (E.snapshot.objectTypes.map TypeClass.toObjectTypeClass) s.lists ev frameDelay spoof
        filterDuplicates with
      | .ok (lists, r) => (.ok r, { s with trace := s.trace ++ [.event ev], lists := lists })
      | .error e => (.error (.exception (.addEvent e)), s) := by
  unfold addEvent
  rw [Prog.exec_bind, Prog.exec_get]
  dsimp only
  rcases StateContext.addEvent E.types.toYRpp E.game
    (E.snapshot.objectTypes.map TypeClass.toObjectTypeClass) s.lists ev frameDelay spoof
    filterDuplicates with e | ⟨lists, r⟩
  · rfl
  · rfl

/-- The outcomes of an `add_event`: it adds the event, or does nothing and leaves with an
exception. -/
theorem addEvent_cases (ev : Event) (frameDelay : UInt32) (spoof filterDuplicates : Bool)
    (s : State EventType κ) :
    (∃ entry t, (addEvent E ev frameDelay spoof filterDuplicates).exec s = (.ok entry, t) ∧
        Added E ev frameDelay spoof filterDuplicates s t entry) ∨
      ∃ e, (addEvent E ev frameDelay spoof filterDuplicates).exec s =
        (.error (.exception (.addEvent e)), s) := by
  have hexec := exec_addEvent (E := E) ev frameDelay spoof filterDuplicates s
  rcases hadd : StateContext.addEvent E.types.toYRpp E.game
    (E.snapshot.objectTypes.map TypeClass.toObjectTypeClass) s.lists ev frameDelay spoof
    filterDuplicates with e | ⟨lists, r⟩
  · rw [hadd] at hexec
    exact .inr ⟨_, hexec⟩
  · rw [hadd] at hexec
    exact .inl ⟨r, _, hexec, rfl, hadd⟩

/-- What the command has done, from what its work returned or threw: there is no null pointer as
long as there is a current player. -/
def ServedAs (E : Env EventType κ) (cmd : Command) (s t : State EventType κ) :
    Except Stop (Reply EventType) → Prop
  | .ok reply => Served E s t (.ok reply) cmd
  | .error (.exception e) => Served E s t (.error e) cmd
  | .error .nullPointer => currentPlayer E = none

def Serves (E : Env EventType κ) (cmd : Command) (s : State EventType κ) : Prop :=
  ServedAs E cmd s ((work E cmd).exec s).2 ((work E cmd).exec s).1

/-- A command without anything in its result. -/
theorem serves_of_exec {cmd : Command} {p : Work EventType κ PUnit}
    (hwork : work E cmd = do p; return .empty) {s t : State EventType κ} {r : Except Stop PUnit}
    (hexec : p.exec s = (r, t)) (h : ServedAs E cmd s t (r.map fun _ => .empty)) :
    Serves E cmd s := by
  unfold Serves
  rw [hwork]
  cases r with
  | ok u =>
    rw [Prog.exec_bind_ok hexec]
    exact h
  | error e =>
    rw [Prog.exec_bind_error hexec]
    exact h

theorem serves_of_callsOnly {P : Call κ → Prop} {cmd : Command} {p : Work EventType κ PUnit}
    (hwork : work E cmd = do p; return .empty) (hp : CallsOnly P p)
    (hserved : ∀ s t r, Called P s t → Served E s t r cmd) (s : State EventType κ) :
    Serves E cmd s := by
  have hcalled := hp.state s
  have hraises := hp.error s
  rcases hexec : p.exec s with ⟨r, t⟩
  rw [hexec] at hcalled hraises
  apply serves_of_exec hwork hexec
  cases r with
  | ok u => exact hserved s t _ hcalled
  | error e =>
    obtain ⟨x, rfl⟩ := hraises e rfl
    exact hserved s t _ hcalled

theorem clickEvent_serves (args : ClickEvent) (s : State EventType κ) :
    Serves E (.clickEvent args) s := by
  apply serves_of_callsOnly rfl (clickEventCommand_called args)
  exact fun _ _ _ hcalled => hcalled

theorem unitCommand_serves (args : UnitCommand) (s : State EventType κ) :
    Serves E (.unitCommand args) s := by
  apply serves_of_callsOnly rfl (unitCommand_called args)
  exact fun _ _ _ hcalled => hcalled

theorem missionClicked_serves (args : MissionClicked) (s : State EventType κ) :
    Serves E (.missionClicked args) s := by
  apply serves_of_callsOnly rfl (missionClicked_called args)
  exact fun _ _ _ hcalled => hcalled

theorem sendMessage_serves (args : AddMessage) (s : State EventType κ) :
    Serves E (.sendMessage args) s := by
  have hcalls : CallsOnly (fun c => c = .addMessage args.message args.color args.durationFrames)
      (do let _ ← call E (.addMessage args.message args.color args.durationFrames)) :=
    callsOnly_call (P := fun c => c = .addMessage args.message args.color args.durationFrames) rfl
      fun _ => callsOnly_pure _
  apply serves_of_callsOnly rfl hcalls
  exact fun _ _ _ hcalled => hcalled

theorem addEvent_serves (args : AddEvent) (s : State EventType κ) :
    Serves E (.addEvent args) s := by
  unfold Serves work
  rcases addEvent_cases (E := E) args.event args.frameDelay args.spoof false s with
    ⟨entry, t, hexec, hadded⟩ | ⟨e, hexec⟩
  · rw [Prog.exec_bind_ok hexec]
    exact ⟨entry, rfl, hadded⟩
  · rw [Prog.exec_bind_error hexec]
    rfl

theorem perform_sellCell {o : UnitOrder} (ha : o.action = .sellCell) :
    (perform E o : Work EventType κ PUnit) = (do let _ ← addEvent E (sellCellEvent E o)) := by
  unfold perform unitAction applyAction
  rw [if_pos ha, ha]
  rfl

theorem unitOrder_serves (o : UnitOrder) (s : State EventType κ) :
    Serves E (.unitOrder o) s := by
  by_cases ha : o.action = .sellCell
  · have hperform := perform_sellCell (E := E) ha
    rcases addEvent_cases (E := E) (sellCellEvent E o) 0 false true s with
      ⟨entry, t, hexec, hadded⟩ | ⟨e, hexec⟩
    · apply serves_of_exec rfl (hperform ▸ Prog.exec_bind_ok hexec _)
      show o.Served E s t (.ok .empty)
      unfold UnitOrder.Served
      rw [if_pos ha]
      exact ⟨entry, hadded⟩
    · apply serves_of_exec rfl (hperform ▸ Prog.exec_bind_error hexec _)
      show o.Served E s s (.error (.addEvent e))
      unfold UnitOrder.Served
      rw [if_pos ha]
      rfl
  · obtain ⟨r, t, hexec, hworld, -, hraises⟩ := perform_exec (E := E) ha s
    have hcalled : Called (o.Allows E) s t := by
      have htrace := congrArg World.trace hworld
      have hlists := congrArg World.lists hworld
      refine ⟨_, htrace, hlists, fun c hc => ?_⟩
      obtain ⟨k, hk, hcall⟩ := List.mem_filterMap.mp hc
      have hmem := List.takeWhile_subset _ hk
      obtain ⟨v, hfind, hlegal⟩ := unit_of_unitCall (Option.isSome_iff_exists.mpr ⟨c, hcall⟩)
      have hunit := List.find?_some hfind
      unfold isUnit at hunit
      rw [Bool.and_eq_true, beq_iff_eq, Bool.not_eq_true'] at hunit
      exact ⟨k, hmem, unitCall_object hcall, v, List.mem_of_find?_eq_some hfind, hunit.1, hunit.2,
        hlegal⟩
    have hserved : ∀ r, o.Served E s t r := by
      intro r
      unfold UnitOrder.Served
      rw [if_neg ha]
      exact hcalled
    apply serves_of_exec rfl hexec
    cases r with
    | ok u => exact hserved (.ok .empty)
    | error e =>
      obtain ⟨x, rfl⟩ := hraises e rfl
      exact hserved (.error x)

/-! ## Buildings -/

omit [DecidableEq EventType] in
theorem findFactory_ok {object : UInt32} {factories : List FactoryMessage} {F : FactoryMessage}
    (h : findFactory E object factories = .ok (some F)) :
    ∃ H, currentPlayer E = some H ∧ F ∈ factories ∧ F.completed = true ∧ F.object = object ∧
      F.owner = H.self := by
  induction factories with
  | nil => cases h
  | cons v factories ih =>
    unfold findFactory at h
    split at h
    · next hcompleted =>
      rw [Bool.and_eq_true, beq_iff_eq] at hcompleted
      split at h
      · cases h
      · next H hplayer =>
        split at h
        · next howner =>
          cases h
          exact ⟨H, hplayer, List.mem_cons_self, hcompleted.1, hcompleted.2, beq_iff_eq.mp howner⟩
        · obtain ⟨H', hH', hF, hrest⟩ := ih h
          exact ⟨H', hH', List.mem_cons_of_mem v hF, hrest⟩
    · obtain ⟨H, hH, hF, hrest⟩ := ih h
      exact ⟨H, hH, List.mem_cons_of_mem v hF, hrest⟩

omit [DecidableEq EventType] in
theorem findFactory_error {object : UInt32} {factories : List FactoryMessage} {e : Stop}
    (h : findFactory E object factories = .error e) :
    e = .nullPointer ∧ currentPlayer E = none := by
  induction factories with
  | nil => cases h
  | cons v factories ih =>
    unfold findFactory at h
    split at h
    · split at h
      · next hplayer =>
        cases h
        exact ⟨rfl, hplayer⟩
      · split at h
        · cases h
        · exact ih h
    · exact ih h

omit [DecidableEq EventType] in
theorem exec_getTypeClass (address : UInt32) (s : State EventType κ) :
    (lookup (getTypeClass E.snapshot.toStorage address)).exec s =
      match (tcCache E.snapshot.toStorage s.cache).lookup address with
      | some T => (.ok T, { s with cache := tcCache E.snapshot.toStorage s.cache })
      | none => (.error (.exception (.lookup (.invalidTypeClass address))),
          { s with cache := tcCache E.snapshot.toStorage s.cache }) := by
  rw [exec_lookup]
  unfold getTypeClass
  dsimp only
  cases (tcCache E.snapshot.toStorage s.cache).lookup address <;> rfl

theorem produceOrder_serves (args : ProduceOrder) (s : State EventType κ) :
    Serves E (.produceOrder args) s := by
  have hlookup := exec_getTypeClass (E := E) args.objectType.pointerSelf s
  cases htc : (tcCache E.snapshot.toStorage s.cache).lookup args.objectType.pointerSelf with
  | none =>
    rw [htc] at hlookup
    exact serves_of_exec rfl (Prog.exec_bind_error hlookup _) rfl
  | some T =>
    rw [htc] at hlookup
    have hexec : (produceOrder E args).exec s = (produce E args T.value).exec _ :=
      Prog.exec_bind_ok hlookup _
    -- behind the type class come the player, the check of the game and the event
    unfold produce at hexec
    cases hplayer : currentPlayer E with
    | none =>
      rw [hplayer] at hexec
      exact serves_of_exec rfl hexec hplayer
    | some H =>
      rw [hplayer] at hexec
      dsimp only at hexec
      rw [Prog.exec_bind, Prog.exec_get] at hexec
      dsimp only at hexec
      split at hexec
      · next hbuildable =>
        rcases addEvent_cases (E := E) (produceEvent E args) 0 false true
          { s with cache := tcCache E.snapshot.toStorage s.cache } with
          ⟨entry, t, hadd, hadded⟩ | ⟨e, hadd⟩
        · rw [Prog.exec_bind_ok hadd] at hexec
          exact serves_of_exec rfl hexec ⟨⟨H, T, hplayer, htc, hbuildable⟩, entry, hadded⟩
        · rw [Prog.exec_bind_error hadd] at hexec
          exact serves_of_exec rfl hexec rfl
      · exact serves_of_exec rfl hexec rfl

/-- `place_building` of the state context, once there is a factory. -/
theorem placeBuildingAt_cases (H : HouseMessage) (T : TypeClass) (C : Coordinates)
    (s : State EventType κ) :
    (∃ entry t, (placeBuildingAt E H T C).exec s = (.ok (), t) ∧
        placeable E s.toWorld H T C = true ∧ Added E (placeEvent E H T C) 0 false true s t entry) ∨
      (∃ e, (placeBuildingAt E H T C).exec s = (.error (.exception (.addEvent e)), s) ∧
        placeable E s.toWorld H T C = true) ∨
      ∃ e, (placeBuildingAt E H T C).exec s = (.error (.exception e), s) ∧
        placeable E s.toWorld H T C = false ∧ (e = .proximityCheck ∨ e = .canPlaceHereCheck) := by
  unfold placeBuildingAt placeable
  rw [Prog.exec_bind, Prog.exec_get]
  dsimp only
  -- the second check is made only where the first one passes
  cases hproximity : passesProximityCheck E s.toWorld T.pointerSelf H.arrayIndex.toUInt32
    (E.types.coord2Cell C) with
  | false => exact .inr (.inr ⟨.proximityCheck, rfl, rfl, .inl rfl⟩)
  | true =>
    cases hplace : E.abi.canPlaceHere s.toWorld T.pointerSelf (E.types.coord2Cell C) H.self with
    | false => exact .inr (.inr ⟨.canPlaceHereCheck, rfl, rfl, .inr rfl⟩)
    | true =>
      rcases addEvent_cases (E := E) (placeEvent E H T C) 0 false true s with
        ⟨entry, t, hadd, hadded⟩ | ⟨e, hadd⟩
      · exact .inl ⟨entry, t, Prog.exec_bind_ok hadd _, rfl, hadded⟩
      · exact .inr (.inl ⟨e, Prog.exec_bind_error hadd _, rfl⟩)

/-- The command for the building that was found. -/
theorem placeObject_cases (args : PlaceBuilding) (o : ObjectMessage) (T : TypeClass)
    (haddress : o.pointerSelf = args.building) (s : State EventType κ) :
    (∃ H, currentPlayer E = some H ∧ args.Completed E H ∧
        (placeObject E args o T).exec s = (placeBuildingAt E H T args.coordinates).exec s) ∨
      (∃ e, (placeObject E args o T).exec s = (.error (.exception e), s)) ∨
      (placeObject E args o T).exec s = (.error .nullPointer, s) ∧ currentPlayer E = none := by
  unfold placeObject
  rcases hfactory : findFactory E o.pointerSelf E.snapshot.factories with e | _ | F
  · obtain ⟨rfl, hplayer⟩ := findFactory_error hfactory
    exact .inr (.inr ⟨rfl, hplayer⟩)
  · exact .inr (.inl ⟨.noFactory args.building, rfl⟩)
  · obtain ⟨H, hplayer, hF, hcompleted, hobject, howner⟩ := findFactory_ok hfactory
    refine .inl ⟨H, hplayer, ⟨F, hF, hcompleted, hobject.trans haddress, howner⟩, ?_⟩
    dsimp only
    rw [hplayer]

/-- The lookup of the command. -/
theorem placeBuilding_exec (args : PlaceBuilding) (s : State EventType κ) :
    (∃ o T, E.snapshot.objects.find? (fun v => v.pointerSelf == args.building) = some o ∧
        typeClass? E.snapshot.toStorage s.cache o = some T ∧
        (placeBuilding E args).exec s = (placeObject E args o T.value).exec
          { s with cache := (getObjectEntry E.snapshot.toStorage args.building s.cache).1 }) ∨
      ∃ e, (placeBuilding E args).exec s = (.error (.exception e),
        { s with cache := (getObjectEntry E.snapshot.toStorage args.building s.cache).1 }) := by
  have hlookup := exec_lookup (getObjectEntry E.snapshot.toStorage args.building) s
  have hentry := getObjectEntry_ok_iff E.snapshot.toStorage args.building s.cache
  cases hr : (getObjectEntry E.snapshot.toStorage args.building s.cache).2 with
  | error e =>
    rw [hr] at hlookup
    exact .inr ⟨_, Prog.exec_bind_error hlookup _⟩
  | ok OE =>
    rw [hr] at hlookup
    obtain ⟨o, T, hfirst, htc, rfl⟩ := (hentry OE).mp hr
    refine .inl ⟨o.value, T, ?_, htc, Prog.exec_bind_ok hlookup _⟩
    rw [← firstFrom_value _ E.snapshot.objects 0, hfirst]
    rfl

theorem placeBuilding_serves (args : PlaceBuilding) (s : State EventType κ) :
    Serves E (.placeBuilding args) s := by
  rcases placeBuilding_exec (E := E) args s with ⟨o, T, hfind, htc, hexec⟩ | ⟨e, hexec⟩
  · have haddress := List.find?_some hfind
    rw [beq_iff_eq] at haddress
    rcases placeObject_cases (E := E) args o T.value haddress
      { s with cache := (getObjectEntry E.snapshot.toStorage args.building s.cache).1 } with
      ⟨H, hplayer, hcompleted, hplace⟩ | ⟨e, hplace⟩ | ⟨hplace, hplayer⟩
    · rw [hplace] at hexec
      rcases placeBuildingAt_cases (E := E) H T.value args.coordinates
        { s with cache := (getObjectEntry E.snapshot.toStorage args.building s.cache).1 } with
        ⟨entry, t, hat, hplaceable, hadded⟩ | ⟨e, hat, -⟩ | ⟨e, hat, -, -⟩
      · rw [hat] at hexec
        refine serves_of_exec rfl hexec ⟨H, T.value, ⟨hplayer, ?_, hcompleted, hplaceable⟩, entry,
          hadded⟩
        exact ⟨o, List.mem_of_find?_eq_some hfind, haddress, T.index, htc⟩
      · rw [hat] at hexec
        exact serves_of_exec rfl hexec rfl
      · rw [hat] at hexec
        exact serves_of_exec rfl hexec rfl
    · rw [hplace] at hexec
      exact serves_of_exec rfl hexec rfl
    · rw [hplace] at hexec
      exact serves_of_exec rfl hexec hplayer
  · exact serves_of_exec rfl hexec rfl

theorem placeQuery_serves (args : PlaceQuery) (s : State EventType κ) :
    Serves E (.placeQuery args) s := by
  have hlookup := exec_getTypeClass (E := E) args.typeClass s
  unfold Serves work
  cases htc : (tcCache E.snapshot.toStorage s.cache).lookup args.typeClass with
  | none =>
    rw [htc] at hlookup
    have hexec : (placeQuery E args).exec s = _ := Prog.exec_bind_error hlookup _
    rw [Prog.exec_bind_error hexec]
    rfl
  | some B =>
    rw [htc] at hlookup
    have hexec : (placeQuery E args).exec s = _ := Prog.exec_bind_ok hlookup _
    cases hhouse : getHouse E args.houseClass with
    | none =>
      rw [hhouse] at hexec
      rw [Prog.exec_bind_error hexec]
      rfl
    | some house =>
      rw [hhouse] at hexec
      rw [Prog.exec_bind_ok hexec]
      rfl

/-! ## The commands of a frame -/

theorem serves (cmd : Command) (s : State EventType κ) : Serves E cmd s := by
  cases cmd with
  | unitOrder o => exact unitOrder_serves o s
  | produceOrder args => exact produceOrder_serves args s
  | placeBuilding args => exact placeBuilding_serves args s
  | clickEvent args => exact clickEvent_serves args s
  | unitCommand args => exact unitCommand_serves args s
  | missionClicked args => exact missionClicked_serves args s
  | addEvent args => exact addEvent_serves args s
  | placeQuery args => exact placeQuery_serves args s
  | sendMessage args => exact sendMessage_serves args s

/-- The handler turns exceptions into errors, and lets a null pointer through. -/
theorem exec_runAsyncHandler (cmd : Command) (s : State EventType κ) :
    (runAsyncHandler E cmd).exec s = match (work E cmd).exec s with
      | (.ok reply, t) => (.ok (.ok reply), t)
      | (.error (.exception e), t) => (.ok (.error e), t)
      | (.error .nullPointer, t) => (.error .nullPointer, t) := by
  unfold runAsyncHandler
  rw [Prog.exec_tryCatch, Prog.exec_bind]
  rcases (work E cmd).exec s with ⟨(e | _) | reply, t⟩ <;> rfl

theorem runAsyncHandler_served {H : HouseMessage} (hplayer : currentPlayer E = some H)
    (cmd : Command) (s : State EventType κ) :
    ∃ r t, (runAsyncHandler E cmd).exec s = (.ok r, t) ∧ Served E s t r cmd := by
  have hserves := serves (E := E) cmd s
  have hexec := exec_runAsyncHandler (E := E) cmd s
  unfold Serves at hserves
  rcases hwork : (work E cmd).exec s with ⟨(e | _) | reply, t⟩
  · rw [hwork] at hexec hserves
    exact ⟨.error e, t, hexec, hserves⟩
  · rw [hwork] at hserves
    exact absurd (hplayer.symm.trans hserves) nofun
  · rw [hwork] at hexec hserves
    exact ⟨.ok reply, t, hexec, hserves⟩

end Events

/-! ### A frame with a failing command -/

/-- The three tanks, and the player that they belong to. -/
def threeTanksPlayed : Env UInt8 UInt32 where
  types := yuriTypes
  abi := willing
  game := {}
  snapshot :=
    { threeTanks.snapshot with houses := [{ self := 80, currentPlayer := true }] }

end Ra2yrcpp.Commands
