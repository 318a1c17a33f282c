import Ra2yrcpp.Reasoning.Refill

/-!
# Type classes of a snapshot

`TypeClassParser`, `parse_AbstractTypeClasses` and `parse_prerequisiteGroups` of `state_parser.cpp`.
Both are called only while the list of type classes is empty.
-/

namespace Ra2yrcpp.StateParser

open Reasoning

/-! ## The game -/

/-- What `WhatAmI` answers about a type class, as far as the parser tells the answers apart. -/
inductive TypeClassKind
  | buildingType
  | aircraftType
  | infantryType
  | unitType
  | overlayType
  | other
  deriving DecidableEq, Repr

/-- An entry of `AbstractTypeClass::Array`, with the fields of all its subclasses that the parser
reads.  A call of `WhatAmI` that throws has no answer. -/
structure AbstractTypeClass where
  address : UInt32
  whatAmI : Option TypeClassKind
  name : String := ""
  armor : Int32 := 0
  cost : Int32 := 0
  soylent : Int32 := 0
  prerequisite : List Int32 := []
  requiredHouses : UInt32 := 0
  forbiddenHouses : UInt32 := 0
  ownerFlags : UInt32 := 0
  techLevel : Int32 := 0
  buildLimit : Int32 := 0
  naval : Bool := false
  requiresStolenAlliedTech : Bool := false
  requiresStolenSovietTech : Bool := false
  requiresStolenThirdTech : Bool := false
  strength : Int32 := 0
  arrayIndex : Int32 := 0
  powerDrain : Int32 := 0
  powerBonus : Int32 := 0
  isBaseDefense : Bool := false
  wall : Bool := false
  buildCat : Int32 := 0
  deriving DecidableEq, Repr

/-- The six lists of `RulesClass` that are the prerequisite groups. -/
structure PrerequisiteRules where
  prerequisiteProc : List Int32 := []
  prerequisiteTech : List Int32 := []
  prerequisiteRadar : List Int32 := []
  prerequisiteBarracks : List Int32 := []
  prerequisiteFactory : List Int32 := []
  prerequisitePower : List Int32 := []
  deriving DecidableEq, Repr

/-! ## Messages -/

/-- The values of `ra2yrproto::ra2yr::AbstractType` that the parser sets. -/
inductive TypeClassType
  | unspecified
  | aircraftType
  | buildingType
  | infantryType
  | overlayType
  | unitType
  deriving DecidableEq, Repr

/-- `ra2yrproto::ra2yr::ObjectTypeClass`. -/
structure TypeClassMessage where
  pointerSelf : UInt32 := 0
  name : String := ""
  armorType : Int32 := 0
  cost : Int32 := 0
  soylent : Int32 := 0
  prerequisites : List Int32 := []
  requiredHouses : UInt32 := 0
  forbiddenHouses : UInt32 := 0
  ownerFlags : UInt32 := 0
  techLevel : Int32 := 0
  buildLimit : Int32 := 0
  naval : Bool := false
  requiresStolenAlliedTech : Bool := false
  requiresStolenSovietTech : Bool := false
  requiresStolenThirdTech : Bool := false
  strength : Int32 := 0
  arrayIndex : Int32 := 0
  powerDrain : Int32 := 0
  powerBonus : Int32 := 0
  type : TypeClassType := .unspecified
  isBaseDefense : Bool := false
  wall : Bool := false
  buildCategory : Int32 := 0
  deriving DecidableEq, Repr

/-- `ra2yrproto::ra2yr::PrerequisiteGroups`. -/
structure PrerequisiteGroups where
  proc : List Int32 := []
  tech : List Int32 := []
  radar : List Int32 := []
  barracks : List Int32 := []
  factory : List Int32 := []
  power : List Int32 := []
  deriving DecidableEq, Repr

/-! ## `TypeClassParser` -/

namespace TypeClassParser

def abstractType (P : AbstractTypeClass) (T : TypeClassMessage) : TypeClassMessage :=
  { T with name := P.name }

def objectType (P : AbstractTypeClass) (T : TypeClassMessage) : TypeClassMessage :=
  { abstractType P T with armorType := P.armor }

def technoType (P : AbstractTypeClass) (T : TypeClassMessage) : TypeClassMessage :=
  { objectType P T with
    cost := P.cost
    soylent := P.soylent
    prerequisites := P.prerequisite
    requiredHouses := P.requiredHouses
    forbiddenHouses := P.forbiddenHouses
    ownerFlags := P.ownerFlags
    techLevel := P.techLevel
    buildLimit := P.buildLimit
    naval := P.naval
    requiresStolenAlliedTech := P.requiresStolenAlliedTech
    requiresStolenSovietTech := P.requiresStolenSovietTech
    requiresStolenThirdTech := P.requiresStolenThirdTech
    strength := P.strength }

def aircraftType (P : AbstractTypeClass) (T : TypeClassMessage) : TypeClassMessage :=
  { technoType P T with arrayIndex := P.arrayIndex, type := .aircraftType }

def unitType (P : AbstractTypeClass) (T : TypeClassMessage) : TypeClassMessage :=
  { technoType P T with arrayIndex := P.arrayIndex, type := .unitType }

def infantryType (P : AbstractTypeClass) (T : TypeClassMessage) : TypeClassMessage :=
  { technoType P T with arrayIndex := P.arrayIndex, type := .infantryType }

def buildingType (P : AbstractTypeClass) (T : TypeClassMessage) : TypeClassMessage :=
  { technoType P T with
    arrayIndex := P.arrayIndex
    powerDrain := P.powerDrain
    powerBonus := P.powerBonus
    type := .buildingType
    isBaseDefense := P.isBaseDefense
    wall := P.wall
    buildCategory := P.buildCat }

def overlayType (P : AbstractTypeClass) (T : TypeClassMessage) : TypeClassMessage :=
  { objectType P T with
    arrayIndex := P.arrayIndex
    wall := P.wall
    strength := P.strength
    type := .overlayType }

/-- The message, and whether the parser returned. -/
def parse (P : AbstractTypeClass) (T : TypeClassMessage) : TypeClassMessage × Bool :=
  let T := { T with pointerSelf := P.address }
  match P.whatAmI with
  | none => (T, false)
  | some .buildingType => (buildingType P T, true)
  | some .aircraftType => (aircraftType P T, true)
  | some .infantryType => (infantryType P T, true)
  | some .unitType => (unitType P T, true)
  | some .overlayType => (overlayType P T, true)
  -- logged as `unknown TypeClass`
  | some .other => (T, true)

end TypeClassParser

/-- `parse_AbstractTypeClasses` with its `init_arrays`.  Nothing catches what the parser of an entry
throws. -/
def parseAbstractTypeClasses (T : List TypeClassMessage) (D : List AbstractTypeClass) :
    Option (List TypeClassMessage × Bool) :=
  refillFrom TypeClassParser.parse D 0 (resizeEmpty {} D.length T)

/-- `parse_prerequisiteGroups` appends to the groups that are there. -/
def parsePrerequisiteGroups (T : PrerequisiteGroups) (R : PrerequisiteRules) :
    PrerequisiteGroups where
  proc := T.proc ++ R.prerequisiteProc
  tech := T.tech ++ R.prerequisiteTech
  radar := T.radar ++ R.prerequisiteRadar
  barracks := T.barracks ++ R.prerequisiteBarracks
  factory := T.factory ++ R.prerequisiteFactory
  power := T.power ++ R.prerequisitePower

/-! ## What is parsed -/

/-- The message of a type class that is parsed into a new one. -/
def typeClassMessage (P : AbstractTypeClass) : TypeClassMessage := (TypeClassParser.parse P {}).1

def AbstractTypeClass.parses (P : AbstractTypeClass) : Bool := P.whatAmI.isSome

theorem typeClassParser_parse_snd (P : AbstractTypeClass) (T : TypeClassMessage) :
    (TypeClassParser.parse P T).2 = P.parses := by
  unfold TypeClassParser.parse AbstractTypeClass.parses
  cases P.whatAmI with
  | none => rfl
  | some k => cases k <;> rfl

/-- The first parse of the type classes, up to the first entry that throws. -/
def firstTypeClasses (D : List AbstractTypeClass) : List TypeClassMessage :=
  (refilled TypeClassParser.parse D (List.replicate D.length {})).1

/-- An empty list is filled, up to the first entry whose parser throws. -/
theorem parseAbstractTypeClasses_nil (D : List AbstractTypeClass) :
    parseAbstractTypeClasses [] D =
      some (firstTypeClasses D, D.all AbstractTypeClass.parses) := by
  have hnew : resizeEmpty ({} : TypeClassMessage) D.length [] = List.replicate D.length {} := by
    unfold resizeEmpty
    cases D with
    | nil => rfl
    | cons P D => rfl
  have hsame : ∀ (P : AbstractTypeClass) (T : TypeClassMessage),
      (TypeClassParser.parse P T).2 = (TypeClassParser.parse P {}).2 := by
    intro P T
    rw [typeClassParser_parse_snd, typeClassParser_parse_snd]
  unfold parseAbstractTypeClasses
  rw [hnew, refillFrom_eq D 0 _ (by rw [List.length_replicate, Nat.zero_add]), List.drop_zero,
    refilled_snd {} List.length_replicate hsame]
  simp only [typeClassParser_parse_snd]
  rfl

/-- Where no parser throws, every type class has its message. -/
theorem firstTypeClasses_eq {D : List AbstractTypeClass}
    (h : D.all AbstractTypeClass.parses = true) :
    firstTypeClasses D = D.map typeClassMessage := by
  unfold firstTypeClasses
  rw [refilled_of_returns List.length_replicate]
  · induction D with
    | nil => rfl
    | cons P D ih =>
      rw [List.all_cons, Bool.and_eq_true] at h
      rw [List.length_cons, List.replicate_succ, List.zipWith_cons_cons, List.map_cons, ← ih h.2]
      rfl
  · intro P hP T
    rw [typeClassParser_parse_snd]
    exact List.all_eq_true.mp h P hP

end Ra2yrcpp.StateParser
