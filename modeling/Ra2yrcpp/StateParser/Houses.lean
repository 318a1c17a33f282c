import Ra2yrcpp.Reasoning.Refill

/-!
# Houses and factories of a snapshot

`parse_HouseClasses`, `parse_Factories` and `is_local` of `state_parser.cpp`.  The messages are
refilled in place, and every field that is ever set is set anew.
-/

namespace Ra2yrcpp.StateParser

open Reasoning

/-! ## The game -/

/-- What the parser reads of a `HouseClass`, with `Type->ArrayIndex`. -/
structure HouseClass where
  address : UInt32
  arrayIndex : Int32
  isInPlayerControl : Bool
  defeated : Bool
  isGameOver : Bool
  isLoser : Bool
  isWinner : Bool
  balance : Int32
  powerDrain : Int32
  powerOutput : Int32
  startingCredits : Int32
  plainName : String
  typeArrayIndex : Int32
  side0TechInfiltrated : Bool
  side1TechInfiltrated : Bool
  side2TechInfiltrated : Bool
  isHumanPlayer : Bool
  deriving DecidableEq, Repr

/-- What the parser reads of a `FactoryClass`. -/
structure FactoryClass where
  object : UInt32
  owner : UInt32
  productionValue : Int32
  onHold : Bool
  queuedObjects : List UInt32
  deriving DecidableEq, Repr

/-! ## Messages -/

/-- `ra2yrproto::ra2yr::House`. -/
structure HouseMessage where
  arrayIndex : Int32 := 0
  currentPlayer : Bool := false
  defeated : Bool := false
  isGameOver : Bool := false
  isLoser : Bool := false
  isWinner : Bool := false
  money : Int32 := 0
  powerDrain : Int32 := 0
  powerOutput : Int32 := 0
  startCredits : Int32 := 0
  self : UInt32 := 0
  name : String := ""
  typeArrayIndex : Int32 := 0
  alliedInfiltrated : Bool := false
  sovietInfiltrated : Bool := false
  thirdInfiltrated : Bool := false
  isHumanPlayer : Bool := false
  deriving DecidableEq, Repr

/-- `ra2yrproto::ra2yr::Factory`. -/
structure FactoryMessage where
  object : UInt32 := 0
  owner : UInt32 := 0
  progressTimer : Int32 := 0
  onHold : Bool := false
  completed : Bool := false
  queuedObjects : List UInt32 := []
  deriving DecidableEq, Repr

/-! ## The parsers -/

def parseHouseClass (dst : HouseMessage) (src : HouseClass) : HouseMessage :=
  { dst with
    arrayIndex := src.arrayIndex
    currentPlayer := src.isInPlayerControl
    defeated := src.defeated
    isGameOver := src.isGameOver
    isLoser := src.isLoser
    isWinner := src.isWinner
    money := src.balance
    powerDrain := src.powerDrain
    powerOutput := src.powerOutput
    startCredits := src.startingCredits
    self := src.address
    name := src.plainName
    typeArrayIndex := src.typeArrayIndex
    alliedInfiltrated := src.side0TechInfiltrated
    sovietInfiltrated := src.side1TechInfiltrated
    thirdInfiltrated := src.side2TechInfiltrated
    isHumanPlayer := src.isHumanPlayer }

/-- `parse_HouseClasses` with its `init_arrays`. -/
def parseHouseClasses (H : List HouseMessage) (D : List HouseClass) : Option (List HouseMessage) :=
  refillAll (fun src dst => parseHouseClass dst src) {} D H

/-- `cfg::PRODUCTION_STEPS`. -/
def productionSteps : Int32 := 54

/-- The body of the loop of `parse_Factories`. -/
def parseFactory (I : FactoryClass) (O : FactoryMessage) : FactoryMessage :=
  let O := { O with
    object := I.object
    owner := I.owner
    progressTimer := I.productionValue
    onHold := I.onHold }
  let O := { O with completed := O.progressTimer == productionSteps }
  { O with queuedObjects := [] ++ I.queuedObjects }

def parseFactories (dst : List FactoryMessage) (D : List FactoryClass) :
    Option (List FactoryMessage) :=
  refillAll parseFactory {} D dst

def isLocal (H : List HouseMessage) : Bool := H.countP HouseMessage.isHumanPlayer == 1

/-! ## Nothing is left of the messages before -/

theorem parseHouseClasses_eq (H : List HouseMessage) (D : List HouseClass) :
    parseHouseClasses H D = some (D.map (parseHouseClass {})) :=
  refillAll_eq (fun _ _ => rfl) D H

theorem parseFactories_eq (dst : List FactoryMessage) (D : List FactoryClass) :
    parseFactories dst D = some (D.map fun I => parseFactory I {}) :=
  refillAll_eq (fun _ _ => rfl) D dst

end Ra2yrcpp.StateParser
