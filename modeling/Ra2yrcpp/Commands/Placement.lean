import Ra2yrcpp.Commands.GameLoop

/-!
# Where a building can be placed

`place_query` reports the places of a building, `place_building` puts it there.  Both ask the game,
each in its own code; the query does nothing to the game, so the command finds what the query has
found.
-/

open Ra2yrcpp.Reasoning

namespace Ra2yrcpp.Commands

open StateParser (Coordinates ObjectMessage HouseMessage FactoryMessage)
open StateContext

variable {EventType κ : Type} {E : Env EventType κ} {s t : State EventType κ}

/-- The cell of the coordinates is not beyond the left or the upper edge of the map. -/
def onMap (E : Env EventType κ) (C : Coordinates) : Bool :=
  !(cellX (E.types.coord2Cell C) < 0 || cellY (E.types.coord2Cell C) < 0)

/-- The game is asked whether the building may stand there, and lets it: the event is added, as far
as the event lists let it. -/
def GoesThrough [DecidableEq EventType] (E : Env EventType κ) (H : HouseMessage) (T : TypeClass)
    (args : PlaceBuilding) (s : State EventType κ) : Prop :=
  (∃ t entry, (placeBuilding E args).exec s = (.ok ⟨⟩, t) ∧
      Added E (placeEvent E H T args.coordinates) 0 false true s t entry) ∨
    ∃ t e, (placeBuilding E args).exec s = (.error (.exception (.addEvent e)), t) ∧ Untouched s t

/-- The game is asked, and does not let it stand there. -/
def Rejected [DecidableEq EventType] (E : Env EventType κ) (args : PlaceBuilding)
    (s : State EventType κ) : Prop :=
  ∃ t e, (placeBuilding E args).exec s = (.error (.exception e), t) ∧ Untouched s t ∧
    (e = .proximityCheck ∨ e = .canPlaceHereCheck)

/-! ## The query -/

/-- What `place_query` returns. -/
theorem exec_placeQuery {q : PlaceQuery} {l : List Coordinates}
    (h : (placeQuery E q).exec s = (.ok l, t)) :
    ∃ B H, (tcCache E.snapshot.toStorage s.cache).lookup q.typeClass = some B ∧
      getHouse E q.houseClass = some H ∧
      t = { s with cache := tcCache E.snapshot.toStorage s.cache } ∧
      l = (q.coordinates.take placeQueryMaxLength).filter fun c =>
        onMap E c && placeable E s.toWorld H B.value c := by
  have hlookup := exec_getTypeClass (E := E) q.typeClass s
  unfold placeQuery at h
  cases hB : (tcCache E.snapshot.toStorage s.cache).lookup q.typeClass with
  | none =>
    rw [hB] at hlookup
    rw [Prog.exec_bind_error hlookup] at h
    cases h
  | some B =>
    rw [hB] at hlookup
    rw [Prog.exec_bind_ok hlookup] at h
    cases hH : getHouse E q.houseClass with
    | none =>
      rw [hH] at h
      cases h
    | some H =>
      rw [hH] at h
      have ht := (Prod.mk.inj h).2
      have hl := Except.ok.inj (Prod.mk.inj h).1
      refine ⟨B, H, rfl, rfl, ht.symm, ?_⟩
      rw [← hl]
      apply List.filter_congr
      intro c _
      exact Bool.and_assoc _ _ _

/-! ## The command -/

section Place

variable [DecidableEq EventType] {H : HouseMessage} {T : Ref TypeClass} {args : PlaceBuilding}
  {o : ObjectMessage}

omit [DecidableEq EventType] in
/-- A completed building is found. -/
theorem findFactory_completed (hplayer : currentPlayer E = some H) {object : UInt32}
    {factories : List FactoryMessage}
    (h : ∃ F ∈ factories, F.completed = true ∧ F.object = object ∧ F.owner = H.self) :
    ∃ F, findFactory E object factories = .ok (some F) := by
  induction factories with
  | nil =>
    obtain ⟨F, hF, -⟩ := h
    cases hF
  | cons v factories ih =>
    unfold findFactory
    rw [hplayer]
    by_cases hv : v.completed = true ∧ v.object = object ∧ v.owner = H.self
    · obtain ⟨hcompleted, rfl, howner⟩ := hv
      exact ⟨v, by simp [hcompleted, howner]⟩
    · have hrest : ∃ F ∈ factories, F.completed = true ∧ F.object = object ∧ F.owner = H.self := by
        obtain ⟨F, hF, hcompleted⟩ := h
        rcases List.mem_cons.mp hF with rfl | hF
        · exact absurd hcompleted hv
        · exact ⟨F, hF, hcompleted⟩
      obtain ⟨F, hF⟩ := ih hrest
      refine ⟨F, ?_⟩
      split
      · next hcompleted =>
        rw [Bool.and_eq_true, beq_iff_eq] at hcompleted
        dsimp only
        rw [if_neg fun howner => hv ⟨hcompleted.1, hcompleted.2, beq_iff_eq.mp howner⟩]
        exact hF
      · exact hF

/-- For a completed building of the current player, only the checks of the game decide. -/
theorem placeBuilding_completed (hplayer : currentPlayer E = some H)
    (hfind : E.snapshot.objects.find? (fun v => v.pointerSelf == args.building) = some o)
    (htc : typeClass? E.snapshot.toStorage s.cache o = some T) (hcompleted : args.Completed E H) :
    (placeBuilding E args).exec s =
      (placeBuildingAt E H T.value args.coordinates).exec
        { s with cache := (getObjectEntry E.snapshot.toStorage args.building s.cache).1 } := by
  have haddress := List.find?_some hfind
  rw [beq_iff_eq] at haddress
  have hvalue := firstFrom_value (fun v => v.pointerSelf == args.building) E.snapshot.objects 0
  rw [hfind, Option.map_eq_some_iff] at hvalue
  obtain ⟨r, hfirst, rfl⟩ := hvalue
  have hentry := (getObjectEntry_ok_iff E.snapshot.toStorage args.building s.cache _).mpr
    ⟨r, T, hfirst, htc, rfl⟩
  have hlookup := exec_lookup (getObjectEntry E.snapshot.toStorage args.building) s
  rw [hentry] at hlookup
  obtain ⟨F, hF⟩ := findFactory_completed hplayer hcompleted
  unfold placeBuilding
  rw [Prog.exec_bind_ok hlookup]
  unfold placeObject
  dsimp only
  rw [haddress, hF, hplayer]

/-- The command goes through where the building is placeable, and is rejected elsewhere. -/
theorem placeBuilding_decided (hplayer : currentPlayer E = some H)
    (hfind : E.snapshot.objects.find? (fun v => v.pointerSelf == args.building) = some o)
    (htc : typeClass? E.snapshot.toStorage s.cache o = some T) (hcompleted : args.Completed E H) :
    if placeable E s.toWorld H T.value args.coordinates then GoesThrough E H T.value args s
      else Rejected E args s := by
  have hexec := placeBuilding_completed hplayer hfind htc hcompleted
  rcases placeBuildingAt_cases (E := E) H T.value args.coordinates
    { s with cache := (getObjectEntry E.snapshot.toStorage args.building s.cache).1 } with
    ⟨entry, t, hat, hplaceable, hadded⟩ | ⟨e, hat, hplaceable⟩ | ⟨e, hat, hplaceable, he⟩
  · rw [if_pos hplaceable]
    rw [hat] at hexec
    exact .inl ⟨t, entry, hexec, hadded⟩
  · rw [if_pos hplaceable]
    rw [hat] at hexec
    exact .inr ⟨_, e, hexec, rfl⟩
  · rw [if_neg (by rw [hplaceable]; decide)]
    rw [hat] at hexec
    exact ⟨_, e, hexec, rfl, he⟩

end Place

/-! ### A building that only fits at one place -/

/-- A power plant that is completed, on a map where only the cell `5` is free. -/
def powerPlant : Env UInt8 UInt32 where
  types := yuriTypes
  abi := { willing with canPlaceHere := fun _ _ cell _ => cell == yuri.coord2Cell ⟨1280, 0, 0⟩ }
  game := {}
  snapshot :=
    { objects := [{ pointerSelf := 16, pointerTechnotypeclass := 64 }]
      objectTypes := [⟨⟨3, 7⟩, 64⟩]
      houses := [{ self := 80, currentPlayer := true }]
      factories := [{ object := 16, owner := 80, completed := true }] }

def powerPlantQuery : PlaceQuery := ⟨[⟨1280, 0, 0⟩, ⟨0, 0, 0⟩], 64, 80⟩

end Ra2yrcpp.Commands
