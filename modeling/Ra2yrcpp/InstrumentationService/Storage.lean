import Mathlib.Data.List.AList
import Ra2yrcpp.Reasoning.Transition

/-!
# The storage of the instrumentation service

`storage_` maps keys to pointers to `void`; who reads a value casts the pointer to the type he
expects.  Clients store and read vectors of bytes under keys of their choice, the commands and
callbacks of the game keep their `GameDataYR` under `"game_data"`.  The history of the state records
which type each key was last stored with, and each read.
-/

namespace Ra2yrcpp.InstrumentationService.Storage

open Reasoning

/-- What `store_value` allocates.  What is in a `GameDataYR` does not matter here. -/
inductive Value
  | vecu8 (bytes : List UInt8)
  | gameDataYR
  deriving DecidableEq, Repr

inductive ValueType
  | vecu8
  | gameDataYR
  deriving DecidableEq, Repr

def Value.type : Value → ValueType
  | .vecu8 _ => .vecu8
  | .gameDataYR => .gameDataYR

/-- A pointer from the storage is cast to `T *`; `last` is what was last stored under the key. -/
structure Read where
  key : String
  asType : ValueType
  last : Option ValueType
  deriving DecidableEq, Repr

structure State where
  storage : AList (fun _ : String => Value)
  -- history
  stores : List (String × ValueType)
  reads : List Read

def State.init : State := ⟨∅, [], []⟩

/-- The type of the last `store_value` under the key. -/
def State.lastStored (s : State) (key : String) : Option ValueType :=
  (s.stores.reverse.find? fun e => e.1 = key).map Prod.snd

/-- `store_value<T>`; the value that was there is deleted. -/
def storeValue (s : State) (key : String) (v : Value) : State :=
  { s with
    storage := s.storage.insert key v
    stores := s.stores ++ [(key, v.type)] }

/-- The value under the key is used as a `T`. -/
def readAs (s : State) (key : String) (T : ValueType) : State :=
  { s with reads := s.reads ++ [⟨key, T, s.lastStored key⟩] }

/-- `ensure_storage_value<T>`. -/
def ensureStorageValue (s : State) (key : String) (v : Value) : State :=
  let s := if key ∈ s.storage then s else storeValue s key v
  readAs s key v.type

def gameDataKey : String := "game_data"

/-- `get_data`. -/
def getData (s : State) : State := ensureStorageValue s gameDataKey .gameDataYR

/-- The handler of `GetValue`; `at` throws where there is no value. -/
def getValue (s : State) (key : String) : State :=
  if key ∈ s.storage then readAs s key .vecu8 else s

/-- `test_cb`. -/
def testCb (s : State) : State := storeValue s "test_key" (.vecu8 "0xbeefdead".toUTF8.toList)

/-- Who calls `get_data`: commands on the worker, `get_gameloop_command` for those of the game loop,
`data()` of a `CBYR`, whose `data_` is never set, and `CBExitGameLoop`. -/
inductive DataUser
  | createCallbacks
  | getGameState
  | inspectConfiguration
  | readValue
  | gameloopCommand
  | cbyr
  | exitGameLoop
  deriving DecidableEq, Repr

/-- An access to the storage; a command or callback is as many of them as it makes. -/
inductive Action
  | storeValue (key : String) (value : List UInt8)
  | getValue (key : String)
  | testCb
  | getData (user : DataUser)
  deriving DecidableEq, Repr

def step (s : State) : Action → Option State
  | .storeValue key value => some (storeValue s key (.vecu8 value))
  | .getValue key => some (getValue s key)
  | .testCb => some (testCb s)
  | .getData _ => some (getData s)

/-- Every value was read as the type it was last stored with. -/
def TypedReads (s : State) : Prop := ∀ r ∈ s.reads, r.last = some r.asType

instance (s : State) : Decidable (TypedReads s) := inferInstanceAs (Decidable (∀ r ∈ s.reads, _ = _))

/-- A client stores its bytes under the key of the game data, and the worker takes them for a
`GameDataYR`; or it reads a `GameDataYR` as bytes. -/
theorem gameData_confused :
    (∃ s, run step State.init [.storeValue "game_data" [1], .getData .getGameState] = some s ∧
      ¬TypedReads s) ∧
    ∃ s, run step State.init [.getData .createCallbacks, .getValue "game_data"] = some s ∧
      ¬TypedReads s := by
  constructor
  · exact ⟨_, rfl, by decide⟩
  · exact ⟨_, rfl, by decide⟩

/-! ## The condition -/

/-- No client stores under the key of the game data, or reads it once it is there. -/
def SparesGameData (s : State) : Action → Prop
  | .storeValue key _ => key ≠ gameDataKey
  | .getValue key => key = gameDataKey → gameDataKey ∉ s.storage
  | _ => True

instance (s : State) : (a : Action) → Decidable (SparesGameData s a)
  | .storeValue _ _ => inferInstanceAs (Decidable (_ ≠ _))
  | .getValue _ => inferInstanceAs (Decidable (_ = _ → _ ∉ _))
  | .testCb => isTrue trivial
  | .getData _ => isTrue trivial

/-- What a key holds is told by the key. -/
def typeOf (key : String) : ValueType := if key = gameDataKey then .gameDataYR else .vecu8

structure Wf (s : State) : Prop where
  last : ∀ key ∈ s.storage, s.lastStored key = some (typeOf key)
  reads : TypedReads s

theorem wf_init : Wf State.init where
  last _ h := by cases h
  reads _ h := by cases h

@[simp] theorem lastStored_storeValue (s : State) (key key' : String) (v : Value) :
    (storeValue s key v).lastStored key' = if key = key' then some v.type else s.lastStored key' := by
  unfold State.lastStored storeValue
  by_cases h : key = key'
  · simp [h]
  · simp [h]

theorem Wf.storeValue {s : State} (h : Wf s) {key : String} {v : Value} (hv : v.type = typeOf key) :
    Wf (storeValue s key v) where
  last := by
    intro key' hmem
    rw [lastStored_storeValue]
    split
    · next he => rw [← he, hv]
    · next hne =>
      apply h.last
      cases (AList.mem_insert _).mp hmem with
      | inl he => exact absurd he.symm hne
      | inr hold => exact hold
  reads := h.reads

theorem Wf.readAs {s : State} (h : Wf s) {key : String} {T : ValueType} (hmem : key ∈ s.storage)
    (hT : T = typeOf key) : Wf (readAs s key T) where
  last := h.last
  reads := by
    intro r hr
    cases List.mem_append.mp hr with
    | inl hold => exact h.reads r hold
    | inr hnew =>
      rw [List.mem_singleton.mp hnew, hT]
      exact h.last key hmem

theorem Wf.getData {s : State} (h : Wf s) : Wf (getData s) := by
  unfold Storage.getData ensureStorageValue
  split
  · next hmem => exact h.readAs hmem rfl
  · exact (h.storeValue rfl).readAs ((AList.mem_insert _).mpr (Or.inl rfl)) rfl

theorem wf_step {s t : State} {a : Action} (h : Wf s) (hok : SparesGameData s a)
    (hstep : step s a = some t) : Wf t := by
  cases a with
  | storeValue key value =>
    rw [← Option.some.inj hstep]
    apply h.storeValue
    show ValueType.vecu8 = typeOf key
    unfold typeOf
    rw [if_neg hok]
  | getValue key =>
    rw [← Option.some.inj hstep]
    unfold Storage.getValue
    split
    · next hmem =>
      apply h.readAs hmem
      unfold typeOf
      -- the key of the game data is not there to be read
      rw [if_neg]
      intro he
      exact hok he (he ▸ hmem)
    · exact h
  | testCb =>
    rw [← Option.some.inj hstep]
    exact h.storeValue rfl
  | getData user =>
    rw [← Option.some.inj hstep]
    exact h.getData

/-- In every run in which clients leave the key of the game data alone, every value is read as the
type it was last stored with. -/
theorem reads_typed {s : State} {acts : List Action}
    (hok : Conforms step SparesGameData State.init acts)
    (hrun : run step State.init acts = some s) : TypedReads s := by
  have hstep : ∀ s a t, Wf s → SparesGameData s a → step s a = some t → Wf t :=
    fun _ _ _ h hok hstep => wf_step h hok hstep
  exact (run_invariant_of_conforms hstep wf_init hok hrun).reads

/-- A client stores and reads a value while the game data is in use. -/
def storesOwnKey : List Action :=
  [.getData .createCallbacks, .storeValue "tdata" [7], .testCb, .getData .cbyr, .getValue "tdata",
    .getValue "test_key", .getData .exitGameLoop]

theorem reads_typed_client :
    ∃ s, run step State.init storesOwnKey = some s ∧ s.reads.length = 5 ∧ TypedReads s := by
  have hok : Conforms step SparesGameData State.init storesOwnKey := by decide
  exact ⟨_, rfl, by decide, reads_typed hok rfl⟩

end Ra2yrcpp.InstrumentationService.Storage
