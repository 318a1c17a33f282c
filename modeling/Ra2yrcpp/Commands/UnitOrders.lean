import Mathlib.Data.List.TakeWhile
import Ra2yrcpp.Commands.Model

/-!
# Unit orders

What `UnitOrderCtx::perform` does to the game: which of the addresses of an order get their call,
and what is left undone when one of them fails.
-/

open Ra2yrcpp.Reasoning

namespace Ra2yrcpp.Commands

open StateParser (Coordinates ObjectMessage)
open StateContext

variable {EventType κ : Type} (E : Env EventType κ)

/-! ## What an address gets -/

/-- The type class of the object is in the cache. -/
def resolves (tc : TcCache) (v : ObjectMessage) : Bool :=
  (typeClass? E.snapshot.toStorage tc v).isSome

/-- The first object that satisfies `p`, if it has its type class and all before it have theirs. -/
def resolved (tc : TcCache) (p : ObjectMessage → Bool) : Option ObjectMessage :=
  if (passed E.snapshot.toStorage p).all (resolves E tc) then
    (E.snapshot.objects.find? p).filter (resolves E tc)
  else none

def isUnit (k : UInt32) (v : ObjectMessage) : Bool := v.pointerSelf == k && !v.inLimbo

/-- The target of an order. -/
def target (o : UnitOrder) : UInt32 := if requiresTargetObject o.action then o.targetObject else 0

/-- Where an order goes: to its coordinates, or to those of its target. -/
def destination (tc : TcCache) (o : UnitOrder) : Option Coordinates :=
  if target o ≠ 0 ∧ o.coordinates.isNone then
    ((E.snapshot.objects.find? fun v => v.pointerSelf == target o).filter (resolves E tc)).map
      fun v => v.coordinates.getD ⟨0, 0, 0⟩
  else some (o.coordinates.getD ⟨0, 0, 0⟩)

/-- The cell that `ClickMission` gets, which is null for the actions that need none. -/
def cellOf (tc : TcCache) (o : UnitOrder) : Option (Option κ) :=
  if requiresTargetCell o.action then
    ((destination E tc o).bind (getMapCell E)).map some
  else some none

/-- The mission of the actions that go through `click_mission`. -/
def missionOf : UnitAction → Option Int32
  | .move => some E.types.missionMove
  | .capture | .repair => some E.types.missionCapture
  | .attack => some E.types.missionAttack
  | .attackMove => some E.types.missionAttackMove
  | .stop => some E.types.missionStop
  | _ => none

/-- The call that an action is for the object with the address `k`. -/
def actionCall (tc : TcCache) (o : UnitOrder) (k : UInt32) : Option (Call κ) :=
  match o.action with
  | .deploy => some (.clickEvent k E.types.networkEventDeploy.toUInt32.toUInt8)
  | .sell => some (.clickEvent k E.types.networkEventSell.toUInt32.toUInt8)
  | .select => some (.selectObject k)
  | a => do
    let m ← missionOf E a
    let cell ← cellOf E tc o
    return .clickMission k m (target o) cell

/-- The call that the address `k` of an order gets. -/
def unitCall (tc : TcCache) (o : UnitOrder) (k : UInt32) : Option (Call κ) := do
  let v ← resolved E tc (isUnit k)
  if isIllegalMission E v.currentMission then none else actionCall E tc o k

/-! ## The lookups -/

variable {E}

theorem exec_lookup {α : Type} (f : TcCache → TcCache × Except LookupError α)
    (s : State EventType κ) :
    (lookup f).exec s = match (f s.cache).2 with
      | .ok a => (.ok a, { s with cache := (f s.cache).1 })
      | .error e => (.error (.exception (.lookup e)), { s with cache := (f s.cache).1 }) := by
  unfold lookup
  rw [Prog.exec_bind, Prog.exec_get]
  dsimp only
  rw [Prog.exec_bind, Prog.exec_set]
  dsimp only
  cases (f s.cache).2 <;> rfl

/-- The search leaves a cache that is as good as the one before. -/
theorem tcCache_findEntryFrom (S : Storage) (pred : ObjectEntry → Bool) (l : List ObjectMessage)
    (i : Nat) (tc : TcCache) (res : ObjectEntry) :
    tcCache S (findEntryFrom (entryPred S pred) l i (tc, res)).1.1 = tcCache S tc := by
  induction l generalizing i tc res with
  | nil => rfl
  | cons v l ih =>
    rw [findEntryFrom]
    cases ht : typeClass? S tc v with
    | none =>
      rw [entryPred_none S (v := ⟨i, v⟩) res ht]
      exact tcCache_tcCache S tc
    | some t =>
      rw [entryPred_some S (v := ⟨i, v⟩) res ht]
      cases pred ⟨some ⟨i, v⟩, some t⟩ with
      | true => exact tcCache_tcCache S tc
      | false =>
        show tcCache S (findEntryFrom (entryPred S pred) l (i + 1) (tcCache S tc, _)).1.1 = _
        rw [ih, tcCache_tcCache]

theorem tcCache_getObjectEntryPred (S : Storage) (pred : ObjectEntry → Bool) (tc : TcCache) :
    tcCache S (getObjectEntryPred S pred tc).1 = tcCache S tc := by
  have h := tcCache_findEntryFrom S pred S.objects 0 tc {}
  unfold getObjectEntryPred getObject
  rcases hfind : findEntryFrom (entryPred S pred) S.objects 0 (tc, {}) with ⟨⟨tc', res⟩, r⟩
  rw [hfind] at h
  cases r with
  | error e => exact h
  | ok o =>
    cases o with
    | none => exact h
    | some o => exact h

theorem tcCache_getObjectEntry (S : Storage) (address : UInt32) (tc : TcCache) :
    tcCache S (getObjectEntry S address tc).1 = tcCache S tc := by
  unfold getObjectEntry getObjectByAddress getObject
  rw [findEntryFrom_address]
  cases firstFrom (fun v => v.pointerSelf == address) S.objects 0 with
  | none => rfl
  | some o =>
    simp only [getTypeClass_eq]
    cases typeClass? S tc o.value with
    | none => exact tcCache_tcCache S tc
    | some t => exact tcCache_tcCache S tc

theorem resolves_congr {tc tc' : TcCache}
    (h : tcCache E.snapshot.toStorage tc' = tcCache E.snapshot.toStorage tc) :
    resolves E tc' = resolves E tc := by
  funext v
  unfold resolves typeClass?
  rw [h]

theorem resolved_eq_some {tc : TcCache} {p : ObjectMessage → Bool} {v : ObjectMessage} :
    resolved E tc p = some v ↔ E.snapshot.objects.find? p = some v ∧ resolves E tc v = true ∧
      ∀ w ∈ passed E.snapshot.toStorage p, resolves E tc w = true := by
  unfold resolved
  by_cases hall : (passed E.snapshot.toStorage p).all (resolves E tc) = true
  · rw [if_pos hall, Option.filter_eq_some_iff]
    rw [List.all_eq_true] at hall
    exact ⟨fun h => ⟨h.1, h.2, hall⟩, fun h => ⟨h.1, h.2.1⟩⟩
  · rw [if_neg hall]
    rw [List.all_eq_true] at hall
    exact iff_of_false nofun fun h => hall h.2.2

/-- `perform` finds the unit, or throws. -/
theorem getObjectEntryPred_unit (k : UInt32) (tc : TcCache) :
    (∃ OE v, (getObjectEntryPred E.snapshot.toStorage (unitPred k) tc).2 = .ok OE ∧
        OE.o.map Ref.value = some v ∧ resolved E tc (isUnit k) = some v) ∨
      (∃ e, (getObjectEntryPred E.snapshot.toStorage (unitPred k) tc).2 = .error e) ∧
        resolved E tc (isUnit k) = none := by
  have hpred : ∀ v t, unitPred k ⟨some v, some t⟩ = isUnit k v.value := fun _ _ => rfl
  have hok := getObjectEntryPred_ok_iff E.snapshot.toStorage hpred tc
  have hvalue := firstFrom_value (isUnit k) E.snapshot.objects 0
  cases hr : (getObjectEntryPred E.snapshot.toStorage (unitPred k) tc).2 with
  | ok OE =>
    obtain ⟨r, t, hfirst, ht, rfl, hpassed⟩ := (hok OE).mp hr
    refine .inl ⟨_, r.value, rfl, rfl, resolved_eq_some.mpr ⟨?_, ?_, hpassed⟩⟩
    · rw [← hvalue, hfirst]
      rfl
    · unfold resolves
      rw [ht]
      rfl
  | error e =>
    refine .inr ⟨⟨e, rfl⟩, ?_⟩
    by_contra hne
    obtain ⟨v, hv⟩ := Option.ne_none_iff_exists'.mp hne
    obtain ⟨hfind, hres, hpassed⟩ := resolved_eq_some.mp hv
    rw [← hvalue, Option.map_eq_some_iff] at hfind
    obtain ⟨r, hfirst, rfl⟩ := hfind
    obtain ⟨t, ht⟩ := Option.isSome_iff_exists.mp hres
    rw [(hok _).mpr ⟨r, t, hfirst, ht, rfl, hpassed⟩] at hr
    cases hr

/-- So does the lookup by address. -/
theorem getObjectEntry_target (k : UInt32) (tc : TcCache) :
    (∃ OE r, (getObjectEntry E.snapshot.toStorage k tc).2 = .ok OE ∧ OE.o = some r ∧
        (E.snapshot.objects.find? fun v => v.pointerSelf == k).filter (resolves E tc) =
          some r.value) ∨
      (∃ e, (getObjectEntry E.snapshot.toStorage k tc).2 = .error e) ∧
        (E.snapshot.objects.find? fun v => v.pointerSelf == k).filter (resolves E tc) = none := by
  have hok := getObjectEntry_ok_iff E.snapshot.toStorage k tc
  have hvalue := firstFrom_value (fun v => v.pointerSelf == k) E.snapshot.objects 0
  cases hr : (getObjectEntry E.snapshot.toStorage k tc).2 with
  | ok OE =>
    obtain ⟨r, t, hfirst, ht, rfl⟩ := (hok OE).mp hr
    refine .inl ⟨_, r, rfl, rfl, Option.filter_eq_some_iff.mpr ⟨?_, ?_⟩⟩
    · rw [← hvalue, hfirst]
      rfl
    · unfold resolves
      rw [ht]
      rfl
  | error e =>
    refine .inr ⟨⟨e, rfl⟩, ?_⟩
    by_contra hne
    obtain ⟨v, hv⟩ := Option.ne_none_iff_exists'.mp hne
    obtain ⟨hfind, hres⟩ := Option.filter_eq_some_iff.mp hv
    rw [← hvalue, Option.map_eq_some_iff] at hfind
    obtain ⟨r, hfirst, rfl⟩ := hfind
    obtain ⟨t, ht⟩ := Option.isSome_iff_exists.mp hres
    rw [(hok _).mpr ⟨r, t, hfirst, ht, rfl⟩] at hr
    cases hr

/-! ## Programs that only look things up -/

variable (E) in
/-- Nothing was done to the game, and the cache is as good as before. -/
structure Same (s t : State EventType κ) : Prop where
  toWorld : t.toWorld = s.toWorld
  cache : tcCache E.snapshot.toStorage t.cache = tcCache E.snapshot.toStorage s.cache

theorem Same.refl (s : State EventType κ) : Same E s s := ⟨rfl, rfl⟩

/-- The program returns what the specification has, or throws an exception where it has nothing. -/
def Finds {α : Type} (E : Env EventType κ) (p : Work EventType κ α) (s : State EventType κ)
    (a? : Option α) : Prop :=
  ∃ t, Same E s t ∧ match a? with
    | some a => p.exec s = (.ok a, t)
    | none => ∃ e, p.exec s = (.error (.exception e), t)

theorem targetCoordinates_finds (o : UnitOrder) (s : State EventType κ) :
    Finds E (targetCoordinates E o (target o)) s (destination E s.cache o) := by
  unfold targetCoordinates destination
  split
  · have hcache := tcCache_getObjectEntry E.snapshot.toStorage (target o) s.cache
    refine ⟨{ s with cache := (getObjectEntry E.snapshot.toStorage (target o) s.cache).1 },
      ⟨rfl, hcache⟩, ?_⟩
    have hexec := exec_lookup (getObjectEntry E.snapshot.toStorage (target o)) s
    rcases getObjectEntry_target (E := E) (target o) s.cache with
      ⟨OE, v, hok, hv, hfind⟩ | ⟨⟨e, herror⟩, hnone⟩
    · rw [hok] at hexec
      rw [hfind]
      show Prog.exec _ s = _
      rw [Prog.exec_bind_ok hexec, hv]
      rfl
    · rw [herror] at hexec
      rw [hnone]
      exact ⟨_, Prog.exec_bind_error hexec _⟩
  · exact ⟨s, Same.refl s, rfl⟩

theorem targetCell_finds (o : UnitOrder) (s : State EventType κ) :
    Finds E (targetCell E o (target o)) s (cellOf E s.cache o) := by
  unfold targetCell cellOf
  split
  · obtain ⟨t, hsame, hexec⟩ := targetCoordinates_finds (E := E) o s
    refine ⟨t, hsame, ?_⟩
    cases hdest : destination E s.cache o with
    | none =>
      rw [hdest] at hexec
      obtain ⟨e, hexec⟩ := hexec
      exact ⟨e, Prog.exec_bind_error hexec _⟩
    | some c =>
      rw [hdest] at hexec
      rw [Option.bind_some]
      cases hcell : getMapCell E c with
      | none =>
        refine ⟨.invalidCell, ?_⟩
        rw [Prog.exec_bind_ok hexec, hcell]
        rfl
      | some cell =>
        show Prog.exec _ s = _
        rw [Prog.exec_bind_ok hexec, hcell]
        rfl
  · exact ⟨s, Same.refl s, rfl⟩

/-! ## One object -/

/-- What the call of an object leaves. -/
def State.after (s : State EventType κ) (c : Call κ) : State EventType κ :=
  { s with trace := s.trace ++ [.call c] }

/-- A program that makes one call, or throws an exception before it. -/
def Makes (E : Env EventType κ) (p : Work EventType κ Unit) (s : State EventType κ)
    (c? : Option (Call κ)) : Prop :=
  ∃ t, Same E s t ∧ match c? with
    | some c => p.exec s = (.ok (), t.after c)
    | none => ∃ e, p.exec s = (.error (.exception e), t)

theorem call_makes (s : State EventType κ) (c : Call κ) :
    Makes E (do let _ ← call E c) s (some c) :=
  ⟨s, Same.refl s, rfl⟩

theorem clickMission_makes (o : UnitOrder) (k : UInt32) (m : Int32) (s : State EventType κ) :
    Makes E (clickMission E o k m) s
      ((cellOf E s.cache o).map fun cell => .clickMission k m (target o) cell) := by
  obtain ⟨t, hsame, hexec⟩ := targetCell_finds (E := E) o s
  refine ⟨t, hsame, ?_⟩
  unfold clickMission
  cases hcell : cellOf E s.cache o with
  | none =>
    rw [hcell] at hexec
    obtain ⟨e, hexec⟩ := hexec
    exact ⟨e, Prog.exec_bind_error hexec _⟩
  | some cell =>
    rw [hcell] at hexec
    show Prog.exec _ s = _
    dsimp only
    exact Prog.exec_bind_ok hexec _

theorem actionCall_of_mission {o : UnitOrder} {m : Int32} (hm : missionOf E o.action = some m)
    (tc : TcCache) (k : UInt32) :
    actionCall E tc o k =
      (cellOf E tc o).map fun cell => .clickMission k m (target o) cell := by
  unfold actionCall
  cases ha : o.action with
  | deploy | sell | sellCell | select | other =>
    rw [ha] at hm
    cases hm
  | _ =>
    rw [ha] at hm
    dsimp only
    rw [hm]
    cases cellOf E tc o <;> rfl

/-- The switch makes the call that the action is. -/
theorem applyAction_makes [DecidableEq EventType] (o : UnitOrder) (ha : o.action ≠ .sellCell)
    (k : UInt32) (s : State EventType κ) :
    Makes E (applyAction E o k) s (actionCall E s.cache o k) := by
  unfold applyAction
  cases haction : o.action with
  | deploy | sell | select =>
    unfold actionCall
    rw [haction]
    exact call_makes s _
  | sellCell => exact absurd haction ha
  | other n =>
    unfold actionCall
    rw [haction]
    exact ⟨s, Same.refl s, .invalidUnitAction, rfl⟩
  | move | capture | attack | attackMove | repair | stop =>
    rw [actionCall_of_mission (by rw [haction]; rfl)]
    exact clickMission_makes o _ _ s

/-- The action on one object, which is not null. -/
theorem unitAction_makes [DecidableEq EventType] (o : UnitOrder) (ha : o.action ≠ .sellCell)
    (v : ObjectMessage) (s : State EventType κ) :
    Makes E (unitAction E o (some v)) s
      (if isIllegalMission E v.currentMission then none
        else actionCall E s.cache o v.pointerSelf) := by
  unfold unitAction
  have hsource : requiresSourceObject o.action = true := by
    unfold requiresSourceObject
    rw [decide_eq_false ha]
    rfl
  rw [if_pos hsource]
  dsimp only
  by_cases hmission : isIllegalMission E v.currentMission = true
  · rw [if_pos hmission, if_pos hmission]
    exact ⟨s, Same.refl s, _, rfl⟩
  · rw [if_neg hmission, if_neg hmission]
    exact applyAction_makes o ha _ s

theorem actionCall_congr {tc tc' : TcCache}
    (h : tcCache E.snapshot.toStorage tc' = tcCache E.snapshot.toStorage tc) :
    actionCall E tc' = actionCall E tc := by
  funext o k
  unfold actionCall cellOf destination
  rw [resolves_congr h]

theorem unitCall_congr {tc tc' : TcCache}
    (h : tcCache E.snapshot.toStorage tc' = tcCache E.snapshot.toStorage tc) :
    unitCall E tc' = unitCall E tc := by
  funext o k
  unfold unitCall resolved
  rw [resolves_congr h, actionCall_congr h]

theorem unitCall_of_resolved {tc : TcCache} {o : UnitOrder} {k : UInt32} {v : ObjectMessage}
    (h : resolved E tc (isUnit k) = some v) :
    unitCall E tc o k =
      if isIllegalMission E v.currentMission then none else actionCall E tc o k := by
  unfold unitCall
  rw [h]
  rfl

theorem pointerSelf_of_resolved {tc : TcCache} {k : UInt32} {v : ObjectMessage}
    (h : resolved E tc (isUnit k) = some v) : v.pointerSelf = k := by
  have hfind := List.find?_some (resolved_eq_some.mp h).1
  unfold isUnit at hfind
  rw [Bool.and_eq_true, beq_iff_eq] at hfind
  exact hfind.1

/-- One address of the order. -/
theorem performOn_makes [DecidableEq EventType] (o : UnitOrder) (ha : o.action ≠ .sellCell)
    (k : UInt32) (s : State EventType κ) :
    Makes E (performOn E o k) s (unitCall E s.cache o k) := by
  have hcache := tcCache_getObjectEntryPred E.snapshot.toStorage (unitPred k) s.cache
  have hexec := exec_lookup (getObjectEntryPred E.snapshot.toStorage (unitPred k)) s
  generalize hu : ({ s with cache :=
    (getObjectEntryPred E.snapshot.toStorage (unitPred k) s.cache).1 } : State EventType κ) = u
    at hexec
  have hsame : Same E s u := by
    subst hu
    exact ⟨rfl, hcache⟩
  rcases getObjectEntryPred_unit (E := E) k s.cache with
    ⟨OE, v, hok, hv, hres⟩ | ⟨⟨e, herror⟩, hnone⟩
  · rw [hok] at hexec
    obtain ⟨t, hsame', hmakes⟩ := unitAction_makes (E := E) o ha v u
    rw [pointerSelf_of_resolved hres, actionCall_congr hsame.cache,
      ← unitCall_of_resolved hres] at hmakes
    refine ⟨t, ⟨hsame'.toWorld.trans hsame.toWorld, hsame'.cache.trans hsame.cache⟩, ?_⟩
    have hbody : (performOn E o k).exec s = (unitAction E o (some v)).exec u := by
      rw [← hv]
      exact Prog.exec_bind_ok hexec _
    rw [hbody]
    exact hmakes
  · rw [herror] at hexec
    have hcall : unitCall E s.cache o k = none := by
      unfold unitCall
      rw [hnone]
      rfl
    rw [hcall]
    exact ⟨u, hsame, _, Prog.exec_bind_error hexec _⟩

/-! ## The whole order -/

/-- The addresses up to the first one that gets no call. -/
def performed (E : Env EventType κ) (tc : TcCache) (o : UnitOrder) : List UInt32 :=
  o.objectAddresses.takeWhile fun k => (unitCall E tc o k).isSome

theorem foldl_calls (f : UInt32 → Option (Call κ)) (ks : List UInt32) (w : World EventType κ) :
    ks.foldl (fun w k => { w with trace := w.trace ++ (f k).toList.map .call }) w =
      { w with trace := w.trace ++ (ks.filterMap f).map .call } := by
  induction ks generalizing w with
  | nil => simp
  | cons k ks ih =>
    rw [List.foldl_cons, ih]
    cases hk : f k with
    | none => simp [hk]
    | some c => simp [hk]

theorem performOn_stops [DecidableEq EventType] (o : UnitOrder) (ha : o.action ≠ .sellCell)
    (tc : TcCache) :
    Prog.Stops (performOn E o)
      (fun s : State EventType κ =>
        tcCache E.snapshot.toStorage s.cache = tcCache E.snapshot.toStorage tc)
      State.toWorld (fun k => (unitCall E tc o k).isSome)
      (fun w k => { w with trace := w.trace ++ (unitCall E tc o k).toList.map .call })
      (fun e => ∃ x, e = .exception x) where
  returns k s hs hk := by
    obtain ⟨c, hc⟩ := Option.isSome_iff_exists.mp hk
    obtain ⟨t, hsame, hmakes⟩ := performOn_makes (E := E) o ha k s
    rw [unitCall_congr hs, hc] at hmakes
    refine ⟨t.after c, hmakes, hsame.cache.trans hs, ?_⟩
    show World.mk (t.toWorld.trace ++ [.call c]) t.toWorld.lists = _
    rw [hsame.toWorld, hc]
    rfl
  throws k s hs hk := by
    have hnone := Option.isNone_iff_eq_none.mp (Option.isSome_eq_false_iff.mp hk)
    obtain ⟨t, hsame, hmakes⟩ := performOn_makes (E := E) o ha k s
    rw [unitCall_congr hs, hnone] at hmakes
    obtain ⟨e, hexec⟩ := hmakes
    exact ⟨_, t, hexec, ⟨e, rfl⟩, hsame.cache.trans hs, hsame.toWorld⟩

/-- What an order that is no `SELL_CELL` does. -/
theorem perform_exec [DecidableEq EventType] {o : UnitOrder} (ha : o.action ≠ .sellCell)
    (s : State EventType κ) :
    ∃ r t, (perform E o).exec s = (r, t) ∧
      t.toWorld = { s.toWorld with
        trace := s.trace ++ ((performed E s.cache o).filterMap (unitCall E s.cache o)).map .call } ∧
      (r = .ok ⟨⟩ ↔ ∀ k ∈ o.objectAddresses, (unitCall E s.cache o k).isSome = true) ∧
      ∀ e, r = .error e → ∃ x, e = .exception x := by
  obtain ⟨r, t, hexec, -, hworld, hr, hraises⟩ :=
    (performOn_stops (E := E) o ha s.cache).forM o.objectAddresses (s := s) rfl
  rw [foldl_calls] at hworld
  have hperform : (perform E o).exec s = (r, t) := by
    unfold perform
    rw [if_neg ha]
    exact hexec
  exact ⟨r, t, hperform, hworld, hr, hraises⟩

/-- The object that an address gets its call for. -/
theorem unit_of_unitCall {tc : TcCache} {o : UnitOrder} {k : UInt32}
    (h : (unitCall E tc o k).isSome = true) :
    ∃ v, E.snapshot.objects.find? (isUnit k) = some v ∧
      isIllegalMission E v.currentMission = false := by
  cases hres : resolved E tc (isUnit k) with
  | none =>
    unfold unitCall at h
    rw [hres] at h
    cases h
  | some v =>
    refine ⟨v, (resolved_eq_some.mp hres).1, ?_⟩
    rw [unitCall_of_resolved hres] at h
    by_contra hillegal
    rw [if_pos (by rwa [Bool.not_eq_false] at hillegal)] at h
    cases h

/-- An order calls the game for its addresses one after the other, up to the first one that gets no
call, and then leaves with an exception: what it did stays done, and nothing is done for the
addresses behind.  Each call is for the first object with its address that is not in limbo, which
has a mission and is not under construction.  The event lists are left alone. -/
theorem unitOrder_performed [DecidableEq EventType] (E : Env EventType κ) (o : UnitOrder)
    (ha : o.action ≠ .sellCell) (s : State EventType κ) :
    ∃ r t, (perform E o).exec s = (r, t) ∧
      t.trace = s.trace ++
        ((performed E s.cache o).filterMap (unitCall E s.cache o)).map .call ∧
      t.lists = s.lists ∧
      (r = .ok ⟨⟩ ↔ performed E s.cache o = o.objectAddresses) ∧
      (∀ e, r = .error e → ∃ x, e = .exception x) ∧
      ∀ k ∈ performed E s.cache o, ∃ v, E.snapshot.objects.find? (isUnit k) = some v ∧
        isIllegalMission E v.currentMission = false := by
  obtain ⟨r, t, hexec, hworld, hr, hraises⟩ := perform_exec (E := E) ha s
  have hlists := congrArg World.lists hworld
  refine ⟨r, t, hexec, congrArg World.trace hworld, hlists, ?_, hraises, fun k hk => ?_⟩
  · unfold performed
    rw [hr, List.takeWhile_eq_self_iff]
  · exact unit_of_unitCall
      (List.mem_takeWhile_imp (p := fun k => (unitCall E s.cache o k).isSome) hk)

/-! ### An order that is half done -/

/-- Enumerators, on a map where every cell is there. -/
def yuriTypes : GameTypes UInt8 UInt32 where
  toYRpp := yuri
  networkEventDeploy := 0x09
  networkEventSell := 0x0c
  networkEventProduce := 0x0e
  networkEventPlace := 0x0b
  missionNone := -1
  missionConstruction := 0x12
  missionMove := 2
  missionCapture := 4
  missionAttack := 1
  missionAttackMove := 0x1d
  missionStop := 0x0a
  tryGetCellAt c := some c

/-- A game that does whatever it is told. -/
def willing : Abi UInt8 UInt32 where
  accepts _ _ := true
  buildable _ _ _ := true
  getFoundationData _ _ := 0
  passesProximityCheck _ _ _ _ _ _ := true
  someCheck _ _ _ _ _ _ := true
  canPlaceHere _ _ _ _ := true

/-- Three tanks; the second is inside a transport. -/
def threeTanks : Env UInt8 UInt32 where
  types := yuriTypes
  abi := willing
  game := {}
  snapshot :=
    { objects :=
        [{ pointerSelf := 16, pointerTechnotypeclass := 64 },
          { pointerSelf := 32, pointerTechnotypeclass := 64, inLimbo := true },
          { pointerSelf := 48, pointerTechnotypeclass := 64 }]
      objectTypes := [⟨⟨3, 0x28⟩, 64⟩]
      houses := []
      factories := [] }

def noEvents : EventLists UInt8 :=
  ⟨.empty ⟨0, false, 0, 0, {}⟩, .empty ⟨0, false, 0, 0, {}⟩, .empty ⟨0, false, 0, 0, {}⟩⟩

/-- The first tank stops, the third does not. -/
theorem threeTanks_performed :
    ∃ r t, (perform threeTanks { objectAddresses := [16, 32, 48], action := .stop }).exec
        ⟨⟨[], noEvents⟩, []⟩ = (r, t) ∧
      t.trace = [.call (.clickMission 16 0x0a 0 none)] ∧ r ≠ .ok ⟨⟩ := by
  obtain ⟨r, t, hexec, htrace, -, hr, -, -⟩ := unitOrder_performed threeTanks
    { objectAddresses := [16, 32, 48], action := .stop } (by decide) ⟨⟨[], noEvents⟩, []⟩
  refine ⟨r, t, hexec, ?_, fun hok => ?_⟩
  · rw [htrace]
    decide
  · exact absurd (hr.mp hok) (by decide)

end Ra2yrcpp.Commands
