import Mathlib.Data.List.Basic
import Mathlib.Data.List.Induction

/-!
# Objects of a snapshot

`ClassParser` and `parse_Objects` of `state_parser.cpp`.  The messages of `GameState.objects` are
refilled in place, frame after frame, and not cleared before.
-/

namespace Ra2yrcpp.StateParser

/-! ## The game -/

/-- What `WhatAmI` answers, as far as the parser tells the answers apart. -/
inductive AbstractType
  | unit
  | building
  | infantry
  | aircraft
  | cell
  | other
  deriving DecidableEq, Repr

structure Coordinates where
  x : Int32
  y : Int32
  z : Int32
  deriving DecidableEq, Repr

/-- The destination of a `FootClass`; `coord` is `Cell2Coord` of its `MapCoords`, if it is a cell.
A call of `WhatAmI` that throws has no answer. -/
structure Destination where
  whatAmI : Option AbstractType
  coord : Coordinates
  deriving DecidableEq, Repr

/-- An entry of `TechnoClass::Array`, with the fields of all its subclasses that the parser reads. -/
structure TechnoClass where
  address : UInt32
  whatAmI : Option AbstractType
  health : Int32
  isSelected : Bool
  inLimbo : Bool
  isOnMap : Bool
  location : Coordinates
  currentMission : Int32
  owner : UInt32
  initialOwner : UInt32
  destination : Option Destination
  type : UInt32
  deployed : Bool
  isDeploying : Bool
  deriving DecidableEq, Repr

/-! ## Messages -/

/-- `ra2yrproto::ra2yr::AbstractType`. -/
inductive ObjectType
  | unspecified
  | aircraft
  | building
  | infantry
  | overlay
  | unit
  | other (n : Int32)
  deriving DecidableEq, Repr

/-- The fields of an object message that `Techno` sets, whatever the object. -/
structure TechnoFields where
  health : Int32 := 0
  selected : Bool := false
  inLimbo : Bool := false
  onMap : Bool := false
  currentMission : Int32 := 0
  pointerHouse : UInt32 := 0
  pointerInitialOwner : UInt32 := 0
  deriving DecidableEq, Repr

/-- `ra2yrproto::ra2yr::Object`. -/
structure ObjectMessage extends TechnoFields where
  pointerSelf : UInt32 := 0
  coordinates : Option Coordinates := none
  destination : Option Coordinates := none
  objectType : ObjectType := .unspecified
  pointerTechnotypeclass : UInt32 := 0
  deployed : Bool := false
  deploying : Bool := false
  deriving DecidableEq, Repr

/-! ## `ClassParser` -/

namespace ClassParser

def object (P : TechnoClass) (T : ObjectMessage) : ObjectMessage :=
  { T with
    health := P.health
    selected := P.isSelected
    inLimbo := P.inLimbo
    onMap := P.isOnMap
    coordinates :=
      if P.isOnMap ∨ T.objectType = .overlay then some P.location else T.coordinates }

def mission (P : TechnoClass) (T : ObjectMessage) : ObjectMessage :=
  { object P T with currentMission := P.currentMission }

def radio (P : TechnoClass) (T : ObjectMessage) : ObjectMessage := mission P T

def techno (P : TechnoClass) (T : ObjectMessage) : ObjectMessage :=
  { radio P T with
    pointerHouse := P.owner
    pointerInitialOwner := P.initialOwner }

/-- The message and whether the parser returned; what it wrote before an exception stays. -/
def foot (P : TechnoClass) (T : ObjectMessage) : ObjectMessage × Bool :=
  let T := techno P T
  match P.destination with
  | none => (T, true)
  | some d =>
    match d.whatAmI with
    | none => (T, false)
    | some t => if t = .cell then ({ T with destination := some d.coord }, true) else (T, true)

def setTypeClass (ttc : UInt32) (t : ObjectType) (T : ObjectMessage) : ObjectMessage :=
  { T with objectType := t, pointerTechnotypeclass := ttc }

/-- Go on after `foot`, unless it threw. -/
def afterFoot (P : TechnoClass) (T : ObjectMessage) (f : ObjectMessage → ObjectMessage) :
    ObjectMessage × Bool :=
  let (T, ok) := foot P T
  if ok then (f T, true) else (T, false)

def aircraft (P : TechnoClass) (T : ObjectMessage) : ObjectMessage × Bool :=
  afterFoot P T (setTypeClass P.type .aircraft)

def unit (P : TechnoClass) (T : ObjectMessage) : ObjectMessage × Bool :=
  afterFoot P T fun T =>
    { setTypeClass P.type .unit T with deployed := P.deployed, deploying := P.isDeploying }

def building (P : TechnoClass) (T : ObjectMessage) : ObjectMessage × Bool :=
  (setTypeClass P.type .building (techno P T), true)

def infantry (P : TechnoClass) (T : ObjectMessage) : ObjectMessage × Bool :=
  afterFoot P T (setTypeClass P.type .infantry)

def parse (P : TechnoClass) (T : ObjectMessage) : ObjectMessage × Bool :=
  let T := { T with pointerSelf := P.address }
  match P.whatAmI with
  | none => (T, false)
  | some .unit => unit P T
  | some .building => building P T
  | some .infantry => infantry P T
  | some .aircraft => aircraft P T
  | some .cell => (T, true)
  | some .other => (T, true)

end ClassParser

/-! ## Refilling the list -/

/-- `try_get_message` up to its `at`: the list grows by `capacity_increment` when it is too short. -/
def tryGetMessage (f : List ObjectMessage) (index : Nat) : List ObjectMessage :=
  if f.length < index + 1 then f ++ List.replicate 10 ({} : ObjectMessage) else f

/-- `parse_object_array` from some object on.  `held` says that `O` still points to entry `j`, whose
last parse threw.  An `at` out of range has no result. -/
def parseObjectArray : List TechnoClass → List ObjectMessage → Nat → Bool →
    Option (List ObjectMessage × Nat)
  | [], dst, j, _ => some (dst, j)
  | P :: src, dst, j, held =>
    let dst := if held then dst else tryGetMessage dst j
    match dst[j]? with
    | none => none
    | some T =>
      let (T, ok) := ClassParser.parse P T
      if ok then parseObjectArray src (dst.set j T) (j + 1) false
      else parseObjectArray src (dst.set j T) j true

/-- `truncate`. -/
def truncate (dst : List ObjectMessage) (n : Nat) : List ObjectMessage :=
  if n < dst.length then dst.take n else dst

def parseObjects (objects : List ObjectMessage) (src : List TechnoClass) :
    Option (List ObjectMessage) :=
  (parseObjectArray src objects 0 false).map fun (dst, n) => truncate dst n

/-! ## A unit enters a transport -/

def rhino : TechnoClass where
  address := 16
  whatAmI := some .unit
  health := 400
  isSelected := false
  inLimbo := false
  isOnMap := true
  location := ⟨2560, 5120, 0⟩
  currentMission := 5
  owner := 32
  initialOwner := 32
  destination := some ⟨some .cell, ⟨2816, 5120, 0⟩⟩
  type := 64
  deployed := false
  isDeploying := false

/-- The same unit, off the map and without a destination. -/
def boarded : TechnoClass := { rhino with inLimbo := true, isOnMap := false, destination := none }

/-- The entry keeps coordinates and destination of the frame before. -/
theorem stale_fields_survive :
    ∃ first second, parseObjects [] [rhino] = some first ∧
      parseObjects first [boarded] = some second ∧
      second.map (fun T => (T.inLimbo, T.coordinates, T.destination)) =
        [(true, some ⟨2560, 5120, 0⟩, some ⟨2816, 5120, 0⟩)] ∧
      parseObjects first [boarded] ≠ parseObjects [] [boarded] :=
  ⟨(parseObjects [] [rhino]).get (by decide),
    (parseObjects ((parseObjects [] [rhino]).get (by decide)) [boarded]).get (by decide),
    by simp, by simp, by decide, by decide⟩

/-! ## What a parse writes -/

variable {P : TechnoClass} {T : ObjectMessage}

def AbstractType.isFoot : AbstractType → Bool
  | .unit => true
  | .infantry => true
  | .aircraft => true
  | _ => false

/-- `Techno` is called for the object. -/
def TechnoClass.known (P : TechnoClass) : Bool :=
  P.whatAmI.any fun t => t.isFoot || decide (t = .building)

/-- No call of `WhatAmI` throws. -/
def TechnoClass.parses (P : TechnoClass) : Bool :=
  P.whatAmI.any fun t => !t.isFoot || P.destination.all fun d => d.whatAmI.isSome

/-- The cell that the object is on its way to. -/
def TechnoClass.headsFor (P : TechnoClass) : Option Coordinates :=
  if P.whatAmI.any AbstractType.isFoot then
    P.destination.bind fun d => if d.whatAmI = some .cell then some d.coord else none
  else none

def TechnoClass.fields (P : TechnoClass) : TechnoFields :=
  ⟨P.health, P.isSelected, P.inLimbo, P.isOnMap, P.currentMission, P.owner, P.initialOwner⟩

/-- What a parse has written when it throws. -/
def begun (T : ObjectMessage) (P : TechnoClass) : ObjectMessage :=
  if P.known then ClassParser.techno P { T with pointerSelf := P.address }
  else { T with pointerSelf := P.address }

/-- What the rest of the parse writes. -/
def typed (P : TechnoClass) (T : ObjectMessage) : ObjectMessage :=
  let T := { T with destination := P.headsFor.or T.destination }
  match P.whatAmI with
  | some .unit =>
    { ClassParser.setTypeClass P.type .unit T with
      deployed := P.deployed
      deploying := P.isDeploying }
  | some .building => ClassParser.setTypeClass P.type .building T
  | some .infantry => ClassParser.setTypeClass P.type .infantry T
  | some .aircraft => ClassParser.setTypeClass P.type .aircraft T
  | _ => T

theorem parse_eq (P : TechnoClass) (T : ObjectMessage) :
    ClassParser.parse P T =
      if P.parses then (typed P (begun T P), true) else (begun T P, false) := by
  obtain ⟨address, what, health, selected, limbo, onMap, location, mission, owner, initialOwner,
    destination, type, deployed, deploying⟩ := P
  -- the kinds that are no `FootClass` do not look at the destination
  cases what with
  | none => rfl
  | some t =>
    cases t with
    | building => rfl
    | cell => rfl
    | other => rfl
    | _ =>
      cases destination with
      | none => rfl
      | some d =>
        obtain ⟨what, coord⟩ := d
        cases what with
        | none => rfl
        | some t => cases t <;> rfl

/-! ## Slots -/

/-- The objects parsed into one entry: some parses threw, the last one returned. -/
structure Slot where
  failed : List TechnoClass
  parsed : TechnoClass

/-- The objects by entry, after some have failed already; the entry of objects that fail at the end
is cut off. -/
def slots (failed : List TechnoClass) : List TechnoClass → List Slot
  | [] => []
  | P :: src => if P.parses then ⟨failed, P⟩ :: slots [] src else slots (failed ++ [P]) src

def Slot.attempts (s : Slot) : List TechnoClass := s.failed ++ [s.parsed]

def Slot.fill (s : Slot) (T : ObjectMessage) : ObjectMessage :=
  typed s.parsed (s.attempts.foldl begun T)

/-- The entries of a refilled list; new ones are default messages before. -/
def refill : List Slot → List ObjectMessage → List ObjectMessage
  | [], _ => []
  | s :: ss, old => s.fill (old.headD {}) :: refill ss old.tail

theorem refill_headD (ss : List Slot) (old : List ObjectMessage) :
    refill ss (old.headD {} :: old.tail) = refill ss old := by
  cases ss with
  | nil => rfl
  | cons s ss => rfl

theorem refill_append_default (ss : List Slot) (old : List ObjectMessage) (n : Nat) :
    refill ss (old ++ List.replicate n ({} : ObjectMessage)) = refill ss old := by
  induction ss generalizing old n with
  | nil => rfl
  | cons s ss ih =>
    cases old with
    | nil =>
      cases n with
      | zero => rfl
      | succ n =>
        have htail := ih [] n
        rw [List.nil_append] at htail
        rw [List.nil_append, List.replicate_succ, refill, refill, List.tail_cons, htail]
        rfl
    | cons T old =>
      rw [List.cons_append, refill, refill, List.tail_cons, List.tail_cons, ih]
      rfl

/-! ### The loop fills the slots -/

/-- The entry that the loop works on, and the ones around it, after `try_get_message`. -/
theorem tryGetMessage_spec {dst : List ObjectMessage} {j : Nat} (hj : j ≤ dst.length) :
    (tryGetMessage dst j)[j]? = some (dst[j]?.getD {}) ∧
      (tryGetMessage dst j).take j = dst.take j ∧
      ∀ ss, refill ss ((tryGetMessage dst j).drop (j + 1)) = refill ss (dst.drop (j + 1)) := by
  unfold tryGetMessage
  split
  -- the list is one entry short, and grows by ten default messages
  · rename_i hlt
    have hlen : j = dst.length := by omega
    subst hlen
    refine ⟨?_, ?_, fun ss => ?_⟩
    · rw [List.getElem?_append_right (Nat.le_refl _), Nat.sub_self,
        List.getElem?_eq_none (Nat.le_refl _)]
      rfl
    · rw [List.take_append_of_le_length (Nat.le_refl _)]
    · rw [List.drop_append, List.drop_of_length_le (by omega : dst.length ≤ dst.length + 1),
        List.nil_append, List.drop_replicate]
      have hnil := refill_append_default ss [] (10 - (dst.length + 1 - dst.length))
      rw [List.nil_append] at hnil
      exact hnil
  · rename_i hlt
    refine ⟨?_, rfl, fun ss => rfl⟩
    rw [List.getElem?_eq_getElem (by omega)]
    rfl

theorem parseObjectArray_spec (src : List TechnoClass) :
    ∀ (failed : List TechnoClass) (dst : List ObjectMessage) (j : Nat) (held : Bool)
      (T : ObjectMessage), j ≤ dst.length → (held = true → j < dst.length) →
      dst[j]?.getD {} = failed.foldl begun T →
      ∃ dst', parseObjectArray src dst j held = some (dst', j + (slots failed src).length) ∧
        j + (slots failed src).length ≤ dst'.length ∧
        dst'.take (j + (slots failed src).length) =
          dst.take j ++ refill (slots failed src) (T :: dst.drop (j + 1)) := by
  induction src with
  | nil => exact fun failed dst j held T hj _ _ => ⟨dst, rfl, hj, (List.append_nil _).symm⟩
  | cons P src ih =>
    intro failed dst j held T hj hheld hT
    -- the list with room for the entry
    obtain ⟨dst₁, hdst₁, hentry, htake, hdrop⟩ : ∃ dst₁,
        (if held then dst else tryGetMessage dst j) = dst₁ ∧
        dst₁[j]? = some (failed.foldl begun T) ∧ dst₁.take j = dst.take j ∧
        ∀ ss, refill ss (dst₁.drop (j + 1)) = refill ss (dst.drop (j + 1)) := by
      cases held with
      | true =>
        refine ⟨dst, rfl, ?_, rfl, fun _ => rfl⟩
        rw [← hT, List.getElem?_eq_getElem (hheld rfl)]
        rfl
      | false =>
        obtain ⟨hentry, htake, hdrop⟩ := tryGetMessage_spec hj
        exact ⟨_, rfl, hentry.trans (congrArg some hT), htake, hdrop⟩
    have hlt : j < dst₁.length := (List.getElem?_eq_some_iff.mp hentry).1
    rw [parseObjectArray]
    dsimp only
    rw [hdst₁, hentry]
    dsimp only
    rw [parse_eq, slots]
    split
    · -- the entry is done
      have hfill : typed P (begun (failed.foldl begun T) P) = (Slot.mk failed P).fill T := by
        unfold Slot.fill Slot.attempts
        rw [List.foldl_append]
        rfl
      rw [hfill]
      set T' := (Slot.mk failed P).fill T with hT'
      have hlen : (dst₁.set j T').length = dst₁.length := List.length_set
      obtain ⟨dst', hloop, hle, htake'⟩ := ih [] (dst₁.set j T') (j + 1) false
        ((dst₁.set j T')[j + 1]?.getD {}) (by omega) (fun h => by cases h) rfl
      have hcount : j + 1 + (slots [] src).length = j + (Slot.mk failed P :: slots [] src).length := by
        rw [List.length_cons]
        omega
      rw [hcount] at hloop hle htake'
      refine ⟨dst', hloop, hle, htake'.trans ?_⟩
      have hfirst : (dst₁.set j T').take (j + 1) = dst.take j ++ [T'] := by
        rw [List.take_succ_eq_append_getElem (by omega), List.getElem_set_self, List.take_set,
          List.set_eq_of_length_le (by rw [List.length_take]; omega), htake]
      have hrest : ∀ ss, refill ss ((dst₁.set j T')[j + 1]?.getD {} ::
          (dst₁.set j T').drop (j + 1 + 1)) = refill ss (dst.drop (j + 1)) := by
        intro ss
        rw [List.getElem?_set_ne (by omega), List.drop_set_of_lt (by omega), ← hdrop ss,
          ← refill_headD ss (dst₁.drop (j + 1))]
        congr 2
        · rw [List.headD_eq_head?_getD, List.head?_drop]
        · rw [List.tail_drop]
      rw [hfirst, hrest, refill, List.append_assoc]
      rfl
    · -- the next object is parsed into the same entry
      set T' := begun (failed.foldl begun T) P with hT'
      have hlen : (dst₁.set j T').length = dst₁.length := List.length_set
      obtain ⟨dst', hloop, hle, htake'⟩ := ih (failed ++ [P]) (dst₁.set j T') j true T
        (by omega) (fun _ => by omega) (by
          rw [List.getElem?_set_self hlt, List.foldl_append]
          rfl)
      refine ⟨dst', hloop, hle, htake'.trans ?_⟩
      have hfirst : (dst₁.set j T').take j = dst.take j := by
        rw [List.take_set, List.set_eq_of_length_le (by rw [List.length_take]; omega), htake]
      rw [hfirst, List.drop_set_of_lt (by omega)]
      congr 1
      cases hslots : slots (failed ++ [P]) src with
      | nil => rfl
      | cons s ss =>
        rw [refill, refill, List.tail_cons, List.tail_cons, hdrop]
        rfl

/-- `parse_Objects` never fails, and fills one entry a slot. -/
theorem parseObjects_eq (objects : List ObjectMessage) (src : List TechnoClass) :
    parseObjects objects src = some (refill (slots [] src) objects) := by
  obtain ⟨dst', hloop, hle, htake⟩ := parseObjectArray_spec src [] objects 0 false
    (objects[0]?.getD {}) (Nat.zero_le _) (fun h => by cases h) rfl
  rw [Nat.zero_add] at hloop hle htake
  have htruncate : truncate dst' (slots [] src).length = dst'.take (slots [] src).length := by
    unfold truncate
    split
    · rfl
    · exact (List.take_of_length_le (by omega)).symm
  have hold : objects[0]?.getD {} :: objects.drop (0 + 1) = objects.headD {} :: objects.tail := by
    cases objects <;> rfl
  unfold parseObjects
  rw [hloop, Option.map_some]
  dsimp only
  rw [htruncate, htake, hold, refill_headD, List.take_zero, List.nil_append]

/-! ## Entries that do not show -/

/-- The last object for which `Techno` was called. -/
def lastKnown (attempts : List TechnoClass) : Option TechnoClass :=
  attempts.reverse.find? TechnoClass.known

/-- The last one of these that is on the map. -/
def lastOnMap (attempts : List TechnoClass) : Option TechnoClass :=
  attempts.reverse.find? fun P => P.known && P.isOnMap

/-- What no parse into the slot writes is not set in the entry, and the entry is not one of an
overlay, whose type would have the location written although the object is not on the map. -/
structure Slot.Clean (s : Slot) (T : ObjectMessage) : Prop where
  techno : lastKnown s.attempts = none → T.toTechnoFields = {}
  coordinates : T.objectType ≠ .overlay → lastOnMap s.attempts = none → T.coordinates = none
  overlay : T.objectType = .overlay →
    (lastOnMap s.attempts).map TechnoClass.location = some s.parsed.location
  destination : s.parsed.headsFor = none → T.destination = none
  type : s.parsed.known = false → T.objectType = .unspecified ∧ T.pointerTechnotypeclass = 0
  deployed : s.parsed.whatAmI ≠ some .unit → T.deployed = false ∧ T.deploying = false

theorem lastKnown_concat (l : List TechnoClass) (P : TechnoClass) :
    lastKnown (l ++ [P]) = if P.known then some P else lastKnown l := by
  unfold lastKnown
  rw [List.reverse_append, List.reverse_singleton, List.singleton_append, List.find?_cons]
  cases P.known <;> rfl

theorem lastOnMap_concat (l : List TechnoClass) (P : TechnoClass) :
    lastOnMap (l ++ [P]) = if P.known && P.isOnMap then some P else lastOnMap l := by
  unfold lastOnMap
  rw [List.reverse_append, List.reverse_singleton, List.singleton_append, List.find?_cons]
  cases P.known && P.isOnMap <;> rfl

/-- What the attempts have written, field by field. -/
structure Attempted (l : List TechnoClass) (T T' : ObjectMessage) : Prop where
  techno : T'.toTechnoFields = ((lastKnown l).map TechnoClass.fields).getD T.toTechnoFields
  coordinates : T'.coordinates =
    if T.objectType = .overlay then ((lastKnown l).map TechnoClass.location).or T.coordinates
    else ((lastOnMap l).map TechnoClass.location).or T.coordinates
  destination : T'.destination = T.destination
  objectType : T'.objectType = T.objectType
  pointerTechnotypeclass : T'.pointerTechnotypeclass = T.pointerTechnotypeclass
  deployed : T'.deployed = T.deployed
  deploying : T'.deploying = T.deploying

theorem attempted_foldl (l : List TechnoClass) (T : ObjectMessage) :
    Attempted l T (l.foldl begun T) := by
  induction l using List.reverseRecOn with
  | nil => exact ⟨rfl, (ite_self _).symm, rfl, rfl, rfl, rfl, rfl⟩
  | append_singleton l P ih =>
    rw [List.foldl_append, List.foldl_cons, List.foldl_nil]
    generalize l.foldl begun T = T' at ih ⊢
    unfold begun
    cases hknown : P.known with
    | false =>
      rw [if_neg (by decide)]
      have hl := lastKnown_concat l P
      have hm := lastOnMap_concat l P
      rw [hknown] at hl hm
      exact ⟨by rw [hl]; exact ih.techno, by rw [hl, hm]; exact ih.coordinates, ih.destination,
        ih.objectType, ih.pointerTechnotypeclass, ih.deployed, ih.deploying⟩
    | true =>
      rw [if_pos rfl]
      have hl := lastKnown_concat l P
      have hm := lastOnMap_concat l P
      rw [hknown] at hl hm
      refine ⟨by rw [hl]; rfl, ?_, ih.destination, ih.objectType, ih.pointerTechnotypeclass,
        ih.deployed, ih.deploying⟩
      change (if P.isOnMap = true ∨ T'.objectType = .overlay then some P.location
        else T'.coordinates) = _
      rw [hl, hm, ih.objectType, ih.coordinates]
      -- on the map or not, in an entry of an overlay or not
      cases P.isOnMap <;> by_cases hover : T.objectType = .overlay <;> simp [hover]

theorem pointerSelf_begun (T : ObjectMessage) (P : TechnoClass) :
    (begun T P).pointerSelf = P.address := by
  unfold begun
  split <;> rfl

/-- An entry is the one of the object parsed into it last. -/
theorem pointerSelf_foldl_begun (s : Slot) (T : ObjectMessage) :
    (s.attempts.foldl begun T).pointerSelf = s.parsed.address := by
  unfold Slot.attempts
  rw [List.foldl_append]
  exact pointerSelf_begun ..

/-- Messages that differ only in what the rest of the parse overwrites become equal. -/
theorem typed_eq_iff {T₁ T₂ : ObjectMessage} :
    typed P T₁ = typed P T₂ ↔
      T₁.toTechnoFields = T₂.toTechnoFields ∧ T₁.pointerSelf = T₂.pointerSelf ∧
      T₁.coordinates = T₂.coordinates ∧ (P.headsFor = none → T₁.destination = T₂.destination) ∧
      (P.known = false → T₁.objectType = T₂.objectType ∧
        T₁.pointerTechnotypeclass = T₂.pointerTechnotypeclass) ∧
      (P.whatAmI ≠ some .unit → T₁.deployed = T₂.deployed ∧ T₁.deploying = T₂.deploying) := by
  have hdest : P.headsFor.or T₁.destination = P.headsFor.or T₂.destination ↔
      (P.headsFor = none → T₁.destination = T₂.destination) := by
    cases P.headsFor <;> simp
  unfold typed TechnoClass.known
  cases hwhat : P.whatAmI with
  | none => simp [hdest, and_assoc]
  | some t => cases t <;> simp [hdest, ClassParser.setTypeClass, AbstractType.isFoot, and_assoc]

/-- The type of an overlay is overwritten only by an object that has its location written. -/
theorem lastKnown_of_overlay {s : Slot} (hover : T.objectType = .overlay)
    (htype : s.parsed.known = false → T.objectType = .unspecified) :
    lastKnown s.attempts = some s.parsed := by
  have hknown : s.parsed.known = true := by
    by_contra hunknown
    have hdefault := htype (Bool.not_eq_true _ ▸ hunknown)
    rw [hover] at hdefault
    cases hdefault
  unfold Slot.attempts
  rw [lastKnown_concat, if_pos hknown]

/-- An entry leaves no trace exactly when it is clean for the objects parsed into it. -/
theorem fill_eq_iff_clean (s : Slot) (T : ObjectMessage) : s.fill T = s.fill {} ↔ s.Clean T := by
  have hT := attempted_foldl s.attempts T
  have hnew := attempted_foldl s.attempts {}
  -- a default message is no overlay
  have hcoordNew : (s.attempts.foldl begun {}).coordinates =
      (lastOnMap s.attempts).map TechnoClass.location := by
    rw [hnew.coordinates, if_neg (by decide)]
    exact Option.or_none
  unfold Slot.fill
  rw [typed_eq_iff, hT.techno, hnew.techno, pointerSelf_foldl_begun, pointerSelf_foldl_begun,
    hT.coordinates, hcoordNew, hT.destination, hnew.destination, hT.objectType, hnew.objectType, hT.pointerTechnotypeclass,
    hnew.pointerTechnotypeclass, hT.deployed, hnew.deployed, hT.deploying, hnew.deploying]
  constructor
  · rintro ⟨htechno, -, hcoord, hdest, htype, hdeployed⟩
    refine ⟨fun hnone => ?_, fun hover hnone => ?_, fun hover => ?_, hdest, htype, hdeployed⟩
    · rw [hnone] at htechno
      exact htechno
    · rw [if_neg hover, hnone] at hcoord
      exact hcoord
    · rw [if_pos hover, lastKnown_of_overlay hover fun h => (htype h).1] at hcoord
      exact hcoord.symm
  · intro hclean
    refine ⟨?_, rfl, ?_, hclean.destination, hclean.type, hclean.deployed⟩
    · cases hlast : lastKnown s.attempts with
      | none => exact hclean.techno hlast
      | some P => rfl
    · by_cases hover : T.objectType = .overlay
      · rw [if_pos hover, lastKnown_of_overlay hover fun h => (hclean.type h).1,
          hclean.overlay hover]
        rfl
      · rw [if_neg hover]
        cases hlast : lastOnMap s.attempts with
        | none => exact hclean.coordinates hover hlast
        | some P => rfl

theorem refill_eq_iff_clean (ss : List Slot) (old : List ObjectMessage) :
    refill ss old = refill ss [] ↔
      ∀ (i : Nat) (s : Slot), ss[i]? = some s → s.Clean (old[i]?.getD {}) := by
  induction ss generalizing old with
  | nil => exact ⟨fun _ i s h => (by cases h), fun _ => rfl⟩
  | cons s ss ih =>
    rw [refill, refill, List.cons.injEq, List.headD_nil, List.tail_nil, fill_eq_iff_clean, ih,
      List.headD_eq_head?_getD, List.head?_eq_getElem?]
    constructor
    · rintro ⟨hhead, htail⟩ i s' hs'
      cases i with
      | zero =>
        obtain rfl := Option.some.inj hs'
        exact hhead
      | succ i =>
        have hclean := htail i s' hs'
        rw [List.getElem?_tail] at hclean
        exact hclean
    · intro h
      refine ⟨h 0 s rfl, fun i s' hs' => ?_⟩
      rw [List.getElem?_tail]
      exact h (i + 1) s' hs'

/-- A snapshot is what it would be without the one before exactly when every entry of the one before
is clean for the objects that are now parsed into it. -/
theorem snapshot_independent_iff (objects : List ObjectMessage) (src : List TechnoClass) :
    parseObjects objects src = parseObjects [] src ↔
      ∀ (i : Nat) (s : Slot), (slots [] src)[i]? = some s → s.Clean (objects[i]?.getD {}) := by
  rw [parseObjects_eq, parseObjects_eq, Option.some.injEq]
  exact refill_eq_iff_clean _ _

/-! ## Entries and objects -/

theorem pointerSelf_typed (P : TechnoClass) (T : ObjectMessage) :
    (typed P T).pointerSelf = T.pointerSelf := by
  unfold typed
  cases P.whatAmI with
  | none => rfl
  | some t => cases t <;> rfl

theorem pointerSelf_fill (s : Slot) (T : ObjectMessage) :
    (s.fill T).pointerSelf = s.parsed.address := by
  unfold Slot.fill
  rw [pointerSelf_typed, pointerSelf_foldl_begun]

/-- Whatever failed before, each object that is parsed gets a slot. -/
theorem slots_map_parsed (failed src : List TechnoClass) :
    (slots failed src).map Slot.parsed = src.filter TechnoClass.parses := by
  induction src generalizing failed with
  | nil => rfl
  | cons P src ih =>
    rw [slots, List.filter_cons]
    split
    · rw [List.map_cons, ih]
    · exact ih _

theorem refill_map_pointerSelf (ss : List Slot) (old : List ObjectMessage) :
    (refill ss old).map ObjectMessage.pointerSelf =
      (ss.map Slot.parsed).map TechnoClass.address := by
  induction ss generalizing old with
  | nil => rfl
  | cons s ss ih =>
    rw [refill, List.map_cons, List.map_cons, List.map_cons, pointerSelf_fill, ih]

/-- No `at` is out of range, and the list has an entry for each object whose parse returns, in the
order of the array.  Whether it returns does not depend on the message it is parsed into. -/
theorem parseObjects_pointerSelf (objects : List ObjectMessage) (src : List TechnoClass) :
    (∀ P T, (ClassParser.parse P T).2 = P.parses) ∧
      ∃ dst, parseObjects objects src = some dst ∧
        dst.length = (src.filter TechnoClass.parses).length ∧
        dst.map ObjectMessage.pointerSelf =
          (src.filter TechnoClass.parses).map TechnoClass.address := by
  have hparse : ∀ P T, (ClassParser.parse P T).2 = P.parses := by
    intro P T
    rw [parse_eq]
    split
    · next h => exact h.symm
    · next h => exact (Bool.not_eq_true _ ▸ h).symm
  have hself : (refill (slots [] src) objects).map ObjectMessage.pointerSelf =
      (src.filter TechnoClass.parses).map TechnoClass.address := by
    rw [refill_map_pointerSelf, slots_map_parsed]
  refine ⟨hparse, _, parseObjects_eq objects src, ?_, hself⟩
  have hlength := congrArg List.length hself
  rw [List.length_map, List.length_map] at hlength
  exact hlength

end Ra2yrcpp.StateParser
