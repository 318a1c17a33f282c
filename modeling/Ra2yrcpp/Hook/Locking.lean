import Mathlib.Data.List.Basic
import Mathlib.Data.Fintype.Basic
import Mathlib.Logic.Function.Basic
import Ra2yrcpp.Reasoning.Locks
import Ra2yrcpp.Reasoning.Transition

/-!
# The locks of hooks, storage and hook map

Game threads run `Hook::call`, which holds the mutex of the hook while its callbacks lock the storage
(and the hook map, at the end of the game loop); the command worker runs `create_callbacks`, which
locks the storage, the hook map and then the hooks.  A thread asks for a lock in one step and gets it
in another, so that waiting is a state.
-/

namespace Ra2yrcpp.Hook.Locking

open Reasoning

inductive Lock
  | storage
  | hookMap
  | hook (h : Nat)
  deriving DecidableEq, Repr

/-- `do_call` of a callback: `CBYR` with an `exec` that leaves the storage lock alone,
`CBGameCommand`, which drops it while the game is paused, and `CBExitGameLoop`. -/
inductive Kind
  | cbyr
  | gameCommand
  | exitGameLoop
  deriving DecidableEq, Repr

structure Callback where
  name : String
  target : String
  kind : Kind
  deriving DecidableEq, Repr

/-- A game thread in `Hook::call` of the hook `h`, at the callback `c` with index `k`. -/
inductive GamePc
  | outside
  | wantHook (h : Nat)
  | calling (h k : Nat)
  /-- `lock_storage` of `do_call`, or the second one of `CBGameCommand::exec`. -/
  | wantStorage (h k : Nat) (c : Callback) (resumed : Bool)
  | executing (h k : Nat) (c : Callback) (resumed : Bool)
  | paused (h k : Nat) (c : Callback)
  | wantMap (h k : Nat) (c : Callback)
  | removing (h k : Nat) (c : Callback)
  | unlockingStorage (h k : Nat)
  deriving DecidableEq, Repr

/-- The worker in `create_callbacks`, with the callbacks that it has still to add. -/
inductive WorkerPc
  | idle
  | wantStorage
  | initializing
  | wantMap
  | adding (todo : List Callback)
  | wantHook (h : Nat) (c : Callback) (todo : List Callback)
  | pushing (h : Nat) (c : Callback) (todo : List Callback)
  | unlockingMap
  | unlockingStorage
  deriving DecidableEq, Repr

inductive Thread (n : Nat)
  | worker
  | game (i : Fin n)
  deriving DecidableEq, Repr

structure State (n : Nat) where
  worker : WorkerPc := .idle
  game : Fin n → GamePc := fun _ => .outside
  owner : Lock → Option (Thread n) := fun _ => none
  /-- `callbacks_` of every hook. -/
  callbacks : Nat → List Callback := fun _ => []
  /-- `GameDataYR::callbacks`, in the order of its keys. -/
  cbs : List Callback := []

variable {n : Nat}

def acquire (s : State n) (t : Thread n) (l : Lock) (next : State n → State n) :
    Option (State n) :=
  if s.owner l = none then
    some (next { s with owner := Function.update s.owner l (some t) })
  else none

def release (s : State n) (l : Lock) : State n :=
  { s with owner := Function.update s.owner l none }

def State.setGame (s : State n) (i : Fin n) (p : GamePc) : State n :=
  { s with game := Function.update s.game i p }

/-- What the run is about: the hooks with their names, in the order of the map, and the callbacks
that `init_callbacks` creates, in the order of their names. -/
structure Setup where
  hooks : List (Nat × String)
  defaults : List Callback

def findHook (S : Setup) (target : String) : Option Nat :=
  (S.hooks.find? fun a => a.2 = target).map Prod.fst

/-- `create_callbacks`.  Both `throw`s end in the destructors of the two locks. -/
def stepWorker (S : Setup) (s : State n) : Option (State n) :=
  match s.worker with
  | .idle => some { s with worker := .wantStorage }
  | .wantStorage => acquire s .worker .storage fun s => { s with worker := .initializing }
  | .initializing => some { s with worker := .wantMap, cbs := S.defaults }
  | .wantMap => acquire s .worker .hookMap fun s => { s with worker := .adding s.cbs }
  | .adding [] => some { s with worker := .unlockingMap }
  | .adding (c :: todo) =>
    match findHook S c.target with
    | none => some { s with worker := .unlockingMap }
    | some h =>
      if (s.callbacks h).any fun a => a.name = c.name then some { s with worker := .unlockingMap }
      else some { s with worker := .wantHook h c todo }
  | .wantHook h c todo => acquire s .worker (.hook h) fun s => { s with worker := .pushing h c todo }
  | .pushing h c todo =>
    some (release
      { s with
        worker := .adding todo
        callbacks := Function.update s.callbacks h (s.callbacks h ++ [c]) } (.hook h))
  | .unlockingMap => some (release { s with worker := .unlockingStorage } .hookMap)
  | .unlockingStorage => some (release { s with worker := .idle } .storage)

/-- The loop of `CBExitGameLoop::do_call` over the callbacks it has listed.  `remove_callback` does
not lock the hook; where it throws, nothing in the process catches it. -/
def removeCallbacks (S : Setup) (own : String) :
    List Callback → (Nat → List Callback) × List Callback →
      Option ((Nat → List Callback) × List Callback)
  | [], r => some r
  | c :: cs, r =>
    if c.name = own then removeCallbacks S own cs r
    else
      match findHook S c.target with
      | none => removeCallbacks S own cs r
      | some h =>
        if (r.1 h).any fun a => a.name = c.name then
          removeCallbacks S own cs
            (Function.update r.1 h ((r.1 h).eraseP fun a => a.name = c.name),
              r.2.filter fun a => a.name ≠ c.name)
        else none

/-- `Hook::call`, from the request for the mutex of the hook on. -/
def stepGame (S : Setup) (s : State n) (i : Fin n) : Option (State n) :=
  match s.game i with
  | .outside => none
  | .wantHook h => acquire s (.game i) (.hook h) fun s => s.setGame i (.calling h 0)
  | .calling h k =>
    match (s.callbacks h)[k]? with
    | none => some (release (s.setGame i .outside) (.hook h))
    | some c => some (s.setGame i (.wantStorage h k c false))
  | .wantStorage h k c resumed =>
    acquire s (.game i) .storage fun s =>
      s.setGame i
        (if c.kind = .exitGameLoop then .wantMap h k c else .executing h k c resumed)
  | .executing h k _ _ => some (release (s.setGame i (.calling h (k + 1))) .storage)
  | .paused h k c => some (s.setGame i (.wantStorage h k c true))
  | .wantMap h k c => acquire s (.game i) .hookMap fun s => s.setGame i (.removing h k c)
  | .removing h k c =>
    (removeCallbacks S c.name s.cbs (s.callbacks, s.cbs)).map fun r =>
      release { s.setGame i (.unlockingStorage h k) with callbacks := r.1, cbs := r.2 } .hookMap
  | .unlockingStorage h k => some (release (s.setGame i (.calling h (k + 1))) .storage)

inductive Action (n : Nat)
  | worker
  /-- The thread reaches the detour of a hook. -/
  | enter (i : Fin n) (h : Nat)
  | game (i : Fin n)
  /-- `CBGameCommand::exec` in single-step mode unlocks the storage. -/
  | pause (i : Fin n)
  deriving DecidableEq, Repr

def step (S : Setup) (s : State n) : Action n → Option (State n)
  | .worker => stepWorker S s
  | .enter i h => if s.game i = .outside then some (s.setGame i (.wantHook h)) else none
  | .game i => stepGame S s i
  | .pause i =>
    match s.game i with
    | .executing h k c false =>
      if c.kind = .gameCommand then some (release (s.setGame i (.paused h k c)) .storage) else none
    | _ => none

def initial : State n := {}

/-! ## Holding and waiting -/

def WorkerPc.held : WorkerPc → List Lock
  | .idle | .wantStorage => []
  | .initializing | .wantMap | .unlockingStorage => [.storage]
  | .adding _ | .wantHook _ _ _ | .unlockingMap => [.storage, .hookMap]
  | .pushing h _ _ => [.storage, .hookMap, .hook h]

def GamePc.held : GamePc → List Lock
  | .outside | .wantHook _ => []
  | .calling h _ | .wantStorage h _ _ _ | .paused h _ _ => [.hook h]
  | .executing h _ _ _ | .wantMap h _ _ | .unlockingStorage h _ => [.hook h, .storage]
  | .removing h _ _ => [.hook h, .storage, .hookMap]

def WorkerPc.wants : WorkerPc → Option Lock
  | .wantStorage => some .storage
  | .wantMap => some .hookMap
  | .wantHook h _ _ => some (.hook h)
  | _ => none

def GamePc.wants : GamePc → Option Lock
  | .wantHook h => some (.hook h)
  | .wantStorage _ _ _ _ => some .storage
  | .wantMap _ _ _ => some .hookMap
  | _ => none

def State.held (s : State n) : Thread n → List Lock
  | .worker => s.worker.held
  | .game i => (s.game i).held

def State.wants (s : State n) : Thread n → Option Lock
  | .worker => s.worker.wants
  | .game i => (s.game i).wants

/-- No set of threads each of which waits for a lock that another one of them holds. -/
def NoDeadlock (s : State n) : Prop := ∀ T : Set (Thread n), ¬Deadlocked s.wants s.owner T

/-! ## What a step does to the lock table -/

/-- The thread `u` keeps its locks, takes one or gives one back. -/
inductive LockEffect (s t : State n) (u : Thread n) : Prop
  | keep (howner : t.owner = s.owner) (hheld : ∀ l, l ∈ t.held u ↔ l ∈ s.held u)
  | acquire (l : Lock) (hfree : s.owner l = none)
    (howner : t.owner = Function.update s.owner l (some u))
    (hheld : ∀ l', l' ∈ t.held u ↔ l' ∈ s.held u ∨ l' = l)
  | release (l : Lock) (hmine : l ∈ s.held u) (howner : t.owner = Function.update s.owner l none)
    (hheld : ∀ l', l' ∈ t.held u ↔ l' ∈ s.held u ∧ l' ≠ l)

/-- The lock table shows what the program counters hold. -/
def Wf (s : State n) : Prop := OwnedAsHeld s.owner fun t l => l ∈ s.held t

theorem wf_initial : Wf (initial : State n) := by
  intro t l
  cases t <;> simp [initial, State.held, WorkerPc.held, GamePc.held]

theorem wf_of_effect {s t : State n} {u : Thread n} (hs : Wf s) (he : LockEffect s t u)
    (hothers : ∀ v, v ≠ u → t.held v = s.held v) : Wf t := by
  unfold Wf at *
  cases he with
  | keep howner hheld =>
    rw [howner]
    refine hs.congr fun v l => ?_
    by_cases hv : v = u
    · rw [hv]
      exact hheld l
    · rw [hothers v hv]
  | acquire l hfree howner hheld =>
    rw [howner]
    refine hs.acquire hfree fun v l' => ?_
    by_cases hv : v = u
    · rw [hv, hheld]
      simp
    · rw [hothers v hv]
      simp [hv]
  | release l hmine howner hheld =>
    rw [howner]
    refine hs.release hmine fun v l' => ?_
    by_cases hv : v = u
    · rw [hv, hheld]
      simp
    · rw [hothers v hv]
      simp [hv]

theorem acquire_eq_some {s t : State n} {u : Thread n} {l : Lock} {next : State n → State n} :
    acquire s u l next = some t ↔
      s.owner l = none ∧ next { s with owner := Function.update s.owner l (some u) } = t := by
  unfold acquire
  rw [Option.ite_none_right_eq_some, Option.some.injEq]

@[simp] theorem held_worker (s : State n) : s.held .worker = s.worker.held := rfl

@[simp] theorem held_game (s : State n) (i : Fin n) : s.held (.game i) = (s.game i).held := rfl

@[simp] theorem setGame_game (s : State n) (i : Fin n) (p : GamePc) : (s.setGame i p).game i = p := by
  simp [State.setGame]

@[simp] theorem setGame_owner (s : State n) (i : Fin n) (p : GamePc) :
    (s.setGame i p).owner = s.owner := rfl

@[simp] theorem release_owner (s : State n) (l : Lock) :
    (release s l).owner = Function.update s.owner l none := rfl

@[simp] theorem release_game (s : State n) (l : Lock) : (release s l).game = s.game := rfl

@[simp] theorem release_worker (s : State n) (l : Lock) : (release s l).worker = s.worker := rfl

theorem stepWorker_effect {S : Setup} {s t : State n} (h : stepWorker S s = some t) :
    LockEffect s t .worker ∧ t.game = s.game := by
  unfold stepWorker at h
  split at h
  · next hpc =>
    obtain rfl := Option.some.inj h
    exact ⟨.keep rfl (by simp [hpc, WorkerPc.held]), rfl⟩
  · next hpc =>
    obtain ⟨hfree, rfl⟩ := acquire_eq_some.mp h
    exact ⟨.acquire .storage hfree rfl (by simp [hpc, WorkerPc.held]), rfl⟩
  · next hpc =>
    obtain rfl := Option.some.inj h
    exact ⟨.keep rfl (by simp [hpc, WorkerPc.held]), rfl⟩
  · next hpc =>
    obtain ⟨hfree, rfl⟩ := acquire_eq_some.mp h
    exact ⟨.acquire .hookMap hfree rfl (by simp [hpc, WorkerPc.held]), rfl⟩
  · next hpc =>
    obtain rfl := Option.some.inj h
    exact ⟨.keep rfl (by simp [hpc, WorkerPc.held]), rfl⟩
  · next c todo hpc =>
    -- whichever way the search ends, the two locks stay
    split at h
    · obtain rfl := Option.some.inj h
      exact ⟨.keep rfl (by simp [hpc, WorkerPc.held]), rfl⟩
    · split at h
      · obtain rfl := Option.some.inj h
        exact ⟨.keep rfl (by simp [hpc, WorkerPc.held]), rfl⟩
      · obtain rfl := Option.some.inj h
        exact ⟨.keep rfl (by simp [hpc, WorkerPc.held]), rfl⟩
  · next h' c todo hpc =>
    obtain ⟨hfree, rfl⟩ := acquire_eq_some.mp h
    exact ⟨.acquire (.hook h') hfree rfl (by simp [hpc, WorkerPc.held, or_assoc]), rfl⟩
  · next h' c todo hpc =>
    obtain rfl := Option.some.inj h
    refine ⟨.release (.hook h') (by simp [hpc, WorkerPc.held]) rfl ?_, rfl⟩
    intro l
    cases l <;> simp [hpc, WorkerPc.held, release]
  · next hpc =>
    obtain rfl := Option.some.inj h
    refine ⟨.release .hookMap (by simp [hpc, WorkerPc.held]) rfl ?_, rfl⟩
    intro l
    cases l <;> simp [hpc, WorkerPc.held, release]
  · next hpc =>
    obtain rfl := Option.some.inj h
    refine ⟨.release .storage (by simp [hpc, WorkerPc.held]) rfl ?_, rfl⟩
    intro l
    cases l <;> simp [hpc, WorkerPc.held, release]

/-- What `stepGame` leaves alone. -/
structure OnlyGame (s t : State n) (i : Fin n) : Prop where
  worker : t.worker = s.worker
  others : ∀ j, j ≠ i → t.game j = s.game j

theorem onlyGame_of_update {s t : State n} {i : Fin n} {p : GamePc} (hworker : t.worker = s.worker)
    (hgame : t.game = Function.update s.game i p) : OnlyGame s t i := by
  refine ⟨hworker, fun j hj => ?_⟩
  rw [hgame, Function.update_of_ne hj]

theorem stepGame_effect {S : Setup} {s t : State n} {i : Fin n} (h : stepGame S s i = some t) :
    LockEffect s t (.game i) ∧ OnlyGame s t i := by
  unfold stepGame at h
  split at h
  · cases h
  · next h' hpc =>
    obtain ⟨hfree, rfl⟩ := acquire_eq_some.mp h
    exact ⟨.acquire (.hook h') hfree rfl (by simp [hpc, GamePc.held]), onlyGame_of_update rfl rfl⟩
  · next h' k hpc =>
    split at h
    · obtain rfl := Option.some.inj h
      refine ⟨.release (.hook h') (by simp [hpc, GamePc.held]) rfl ?_, onlyGame_of_update rfl rfl⟩
      intro l
      cases l <;> simp [hpc, GamePc.held]
    · obtain rfl := Option.some.inj h
      exact ⟨.keep rfl (by simp [hpc, GamePc.held]), onlyGame_of_update rfl rfl⟩
  · next h' k c resumed hpc =>
    obtain ⟨hfree, rfl⟩ := acquire_eq_some.mp h
    refine ⟨.acquire .storage hfree rfl ?_, onlyGame_of_update rfl rfl⟩
    intro l
    rw [held_game, setGame_game]
    split <;> simp [hpc, GamePc.held]
  · next h' k c resumed hpc =>
    obtain rfl := Option.some.inj h
    refine ⟨.release .storage (by simp [hpc, GamePc.held]) rfl ?_, onlyGame_of_update rfl rfl⟩
    intro l
    cases l <;> simp [hpc, GamePc.held]
  · next h' k c hpc =>
    obtain rfl := Option.some.inj h
    exact ⟨.keep rfl (by simp [hpc, GamePc.held]), onlyGame_of_update rfl rfl⟩
  · next h' k c hpc =>
    obtain ⟨hfree, rfl⟩ := acquire_eq_some.mp h
    exact ⟨.acquire .hookMap hfree rfl (by simp [hpc, GamePc.held, or_assoc]),
      onlyGame_of_update rfl rfl⟩
  · next h' k c hpc =>
    obtain ⟨r, -, rfl⟩ := Option.map_eq_some_iff.mp h
    refine ⟨.release .hookMap (by simp [hpc, GamePc.held]) rfl ?_, onlyGame_of_update rfl rfl⟩
    intro l
    cases l <;> simp [hpc, GamePc.held]
  · next h' k hpc =>
    obtain rfl := Option.some.inj h
    refine ⟨.release .storage (by simp [hpc, GamePc.held]) rfl ?_, onlyGame_of_update rfl rfl⟩
    intro l
    cases l <;> simp [hpc, GamePc.held]

theorem wf_game {s t : State n} {i : Fin n} (hs : Wf s) (he : LockEffect s t (.game i))
    (ho : OnlyGame s t i) : Wf t := by
  refine wf_of_effect hs he fun v hv => ?_
  cases v with
  | worker => simp [ho.worker]
  | game j => simp [ho.others j fun h => hv (h ▸ rfl)]

/-- The two moves of a game thread that are not in `stepGame`. -/
theorem step_enter_or_pause {S : Setup} {s t : State n} {a : Action n} {i : Fin n}
    (ha : (∃ h, a = .enter i h) ∨ a = .pause i) (h : step S s a = some t) :
    LockEffect s t (.game i) ∧ OnlyGame s t i ∧ (t.game i).wants ≠ some .storage := by
  obtain ⟨h', rfl⟩ | rfl := ha
  · obtain ⟨hpc, heq⟩ := Option.ite_none_right_eq_some.mp h
    obtain rfl := Option.some.inj heq
    exact ⟨.keep rfl (by simp [hpc, GamePc.held]), onlyGame_of_update rfl rfl, by simp [GamePc.wants]⟩
  · simp only [step] at h
    split at h
    · next h' k c hpc =>
      obtain ⟨-, heq⟩ := Option.ite_none_right_eq_some.mp h
      obtain rfl := Option.some.inj heq
      refine ⟨.release .storage (by simp [hpc, GamePc.held]) rfl ?_, onlyGame_of_update rfl rfl,
        by simp [GamePc.wants]⟩
      intro l
      cases l <;> simp [hpc, GamePc.held]
    · cases h

theorem wf_step {S : Setup} {s t : State n} {a : Action n} (hs : Wf s) (h : step S s a = some t) :
    Wf t := by
  cases a with
  | worker =>
    obtain ⟨he, hgame⟩ := stepWorker_effect h
    refine wf_of_effect hs he fun v hv => ?_
    cases v with
    | worker => exact absurd rfl hv
    | game i => simp [hgame]
  | enter i h' =>
    obtain ⟨he, ho, -⟩ := step_enter_or_pause (.inl ⟨h', rfl⟩) h
    exact wf_game hs he ho
  | game i =>
    obtain ⟨he, ho⟩ := stepGame_effect h
    exact wf_game hs he ho
  | pause i =>
    obtain ⟨he, ho, -⟩ := step_enter_or_pause (.inr rfl) h
    exact wf_game hs he ho

/-! ## The only way to deadlock -/

/-- The worker waits for a hook whose mutex is held by a game thread that waits for the storage. -/
def Crossed (s : State n) : Prop :=
  ∃ i h, s.worker.wants = some (.hook h) ∧ (s.game i).wants = some .storage ∧
    .hook h ∈ (s.game i).held

theorem storage_mem_of_hookMap_mem (s : State n) (t : Thread n) (h : .hookMap ∈ s.held t) :
    .storage ∈ s.held t := by
  cases t with
  | worker => cases hpc : s.worker <;> simp_all [WorkerPc.held]
  | game i => cases hpc : s.game i <;> simp_all [GamePc.held]

theorem storage_mem_of_wants_hookMap (s : State n) (t : Thread n)
    (h : s.wants t = some .hookMap) : .storage ∈ s.held t := by
  cases t with
  | worker => cases hpc : s.worker <;> simp_all [State.wants, WorkerPc.wants, WorkerPc.held]
  | game i => cases hpc : s.game i <;> simp_all [State.wants, GamePc.wants, GamePc.held]

/-- The hook map is locked under the storage lock only, so nobody waits for it. -/
theorem not_blocked_hookMap {s : State n} (hs : Wf s) {t u : Thread n}
    (ht : s.wants t = some .hookMap) (hu : s.owner .hookMap = some u) : u = t :=
  owner_of_nested
    (fun v hv => (hs v .storage).mpr (storage_mem_of_hookMap_mem s v ((hs v .hookMap).mp hv)))
    (fun v hv => (hs v .storage).mpr (storage_mem_of_wants_hookMap s v hv)) ht hu

/-- A thread that holds the storage and waits, and not for the hook map, is the worker. -/
theorem eq_worker_of_wants {s : State n} {t : Thread n} {l : Lock} (hheld : .storage ∈ s.held t)
    (hwants : s.wants t = some l) (hl : l ≠ .hookMap) : t = .worker ∧ ∃ h, l = .hook h := by
  cases t with
  | worker =>
    cases l with
    | storage => cases hpc : s.worker <;> simp_all [State.wants, WorkerPc.wants, WorkerPc.held]
    | hookMap => exact absurd rfl hl
    | hook h => exact ⟨rfl, h, rfl⟩
  | game i => cases hpc : s.game i <;> simp_all [State.wants, GamePc.wants, GamePc.held]

/-- A thread that holds a hook and waits is a game thread in `Hook::call`. -/
theorem eq_game_of_wants {s : State n} {t : Thread n} {l : Lock} {h : Nat}
    (hheld : .hook h ∈ s.held t) (hwants : s.wants t = some l) (hl : l ≠ .hookMap) :
    l = .storage ∧ ∃ i, t = .game i := by
  cases t with
  | worker => cases hpc : s.worker <;> simp_all [State.wants, WorkerPc.wants, WorkerPc.held]
  | game i => cases hpc : s.game i <;> simp_all [State.wants, GamePc.wants, GamePc.held]

theorem crossed_of_deadlocked {s : State n} (hs : Wf s) {T : Set (Thread n)}
    (hT : Deadlocked s.wants s.owner T) : Crossed s := by
  have hblocked : ∀ t ∈ T, ∃ l, s.wants t = some l ∧ l ≠ .hookMap ∧
      ∃ u ∈ T, s.owner l = some u := by
    intro t ht
    obtain ⟨l, hl, u, hu, hne, howner⟩ := hT.blocked t ht
    exact ⟨l, hl, fun heq => hne (not_blocked_hookMap hs (heq ▸ hl) (heq ▸ howner)), u, hu, howner⟩
  -- somebody of the set holds the storage: who waits for a hook waits for one that waits for it
  have hstorage : ∃ t ∈ T, s.owner .storage = some t := by
    obtain ⟨t, ht⟩ := hT.nonempty
    obtain ⟨l, -, hlm, u, hu, howner⟩ := hblocked t ht
    cases l with
    | storage => exact ⟨u, hu, howner⟩
    | hookMap => exact absurd rfl hlm
    | hook h =>
      obtain ⟨l', hl', hlm', v, hv, howner'⟩ := hblocked u hu
      obtain ⟨rfl, -⟩ := eq_game_of_wants ((hs u _).mp howner) hl' hlm'
      exact ⟨v, hv, howner'⟩
  obtain ⟨t, ht, howner⟩ := hstorage
  obtain ⟨l, hl, hlm, u, hu, howner'⟩ := hblocked t ht
  obtain ⟨rfl, h, rfl⟩ := eq_worker_of_wants ((hs t _).mp howner) hl hlm
  obtain ⟨l', hl', hlm', -⟩ := hblocked u hu
  have hheld : .hook h ∈ s.held u := (hs u _).mp howner'
  obtain ⟨rfl, i, rfl⟩ := eq_game_of_wants hheld hl' hlm'
  exact ⟨i, h, hl, hl', hheld⟩

theorem deadlocked_of_crossed {s : State n} (hs : Wf s) (hc : Crossed s) :
    ∃ T, Deadlocked s.wants s.owner T := by
  obtain ⟨i, h, hworker, hgame, hheld⟩ := hc
  have hstorage : .storage ∈ s.held .worker := by
    cases hpc : s.worker <;> simp_all [WorkerPc.wants, WorkerPc.held]
  refine ⟨{.worker, .game i}, ⟨⟨.worker, .inl rfl⟩, ?_⟩⟩
  rintro t (rfl | rfl)
  · exact ⟨.hook h, hworker, .game i, .inr rfl, nofun, (hs _ _).mpr hheld⟩
  · exact ⟨.storage, hgame, .worker, .inl rfl, nofun, (hs _ _).mpr hstorage⟩

theorem noDeadlock_iff {s : State n} (hs : Wf s) : NoDeadlock s ↔ ¬Crossed s := by
  constructor
  · intro h hc
    obtain ⟨T, hT⟩ := deadlocked_of_crossed hs hc
    exact h T hT
  · intro h T hT
    exact h (crossed_of_deadlocked hs hT)

/-! ## Which step crosses -/

/-- The hook whose mutex `create_callbacks` asks for next. -/
def nextHook (S : Setup) (s : State n) : Option Nat :=
  match s.worker with
  | .adding (c :: _) =>
    match findHook S c.target with
    | none => none
    | some h => if (s.callbacks h).any fun a => a.name = c.name then none else some h
  | _ => none

/-- The hook in whose `Hook::call` the thread asks for the storage lock next. -/
def nextStorage (s : State n) (i : Fin n) : Option Nat :=
  match s.game i with
  | .calling h k => if k < (s.callbacks h).length then some h else none
  | .paused h _ _ => some h
  | _ => none

/-- The worker asks for a hook only if no game thread in `Hook::call` of it waits for the storage,
and a game thread asks for the storage only if the worker does not wait for the hook it is in. -/
def AsksUncrossed (S : Setup) (s : State n) : Action n → Prop
  | .worker => ∀ h, nextHook S s = some h →
      ∀ i, (s.game i).wants = some .storage → .hook h ∉ (s.game i).held
  | .game i => ∀ h, nextStorage s i = some h → s.worker.wants ≠ some (.hook h)
  | .enter _ _ | .pause _ => True

instance (S : Setup) (s : State n) : (a : Action n) → Decidable (AsksUncrossed S s a)
  | .worker =>
    match hnext : nextHook S s with
    | none => isTrue fun _ hh => nomatch hnext.symm.trans hh
    | some h =>
      decidable_of_iff (∀ i, (s.game i).wants = some .storage → .hook h ∉ (s.game i).held)
        ⟨fun hall _ hh => Option.some.inj (hnext.symm.trans hh) ▸ hall, fun hall => hall h hnext⟩
  | .game i =>
    match hnext : nextStorage s i with
    | none => isTrue fun _ hh => nomatch hnext.symm.trans hh
    | some h =>
      decidable_of_iff (s.worker.wants ≠ some (.hook h))
        ⟨fun hne _ hh => Option.some.inj (hnext.symm.trans hh) ▸ hne, fun hall => hall h hnext⟩
  | .enter _ _ => isTrue trivial
  | .pause _ => isTrue trivial

theorem wants_hook_stepWorker {S : Setup} {s t : State n} (h : stepWorker S s = some t) (h' : Nat) :
    t.worker.wants = some (.hook h') ↔ nextHook S s = some h' := by
  unfold stepWorker at h
  split at h
  · next hpc =>
    obtain rfl := Option.some.inj h
    simp [nextHook, hpc, WorkerPc.wants]
  · next hpc =>
    obtain ⟨-, rfl⟩ := acquire_eq_some.mp h
    simp [nextHook, hpc, WorkerPc.wants]
  · next hpc =>
    obtain rfl := Option.some.inj h
    simp [nextHook, hpc, WorkerPc.wants]
  · next hpc =>
    obtain ⟨-, rfl⟩ := acquire_eq_some.mp h
    simp [nextHook, hpc, WorkerPc.wants]
  · next hpc =>
    obtain rfl := Option.some.inj h
    simp [nextHook, hpc, WorkerPc.wants]
  · next c todo hpc =>
    -- here the worker asks for a hook, unless it throws
    split at h
    · next hfind =>
      obtain rfl := Option.some.inj h
      simp [nextHook, hpc, hfind, WorkerPc.wants]
    · next h'' hfind =>
      split at h
      · next hany =>
        obtain rfl := Option.some.inj h
        simp only [nextHook, hpc, hfind, if_pos hany, WorkerPc.wants, reduceCtorEq]
      · next hany =>
        obtain rfl := Option.some.inj h
        simp only [nextHook, hpc, hfind, if_neg hany, WorkerPc.wants, Option.some.injEq,
          Lock.hook.injEq]
  · next h'' c todo hpc =>
    obtain ⟨-, rfl⟩ := acquire_eq_some.mp h
    simp [nextHook, hpc, WorkerPc.wants]
  · next h'' c todo hpc =>
    obtain rfl := Option.some.inj h
    simp [nextHook, hpc, WorkerPc.wants]
  · next hpc =>
    obtain rfl := Option.some.inj h
    simp [nextHook, hpc, WorkerPc.wants]
  · next hpc =>
    obtain rfl := Option.some.inj h
    simp [nextHook, hpc, WorkerPc.wants]

theorem wants_storage_stepGame {S : Setup} {s t : State n} {i : Fin n}
    (h : stepGame S s i = some t) (h' : Nat) :
    ((t.game i).wants = some .storage ∧ .hook h' ∈ (t.game i).held) ↔
      nextStorage s i = some h' := by
  unfold stepGame at h
  split at h
  · cases h
  · next h'' hpc =>
    obtain ⟨-, rfl⟩ := acquire_eq_some.mp h
    simp [nextStorage, hpc, GamePc.wants]
  · next h'' k hpc =>
    -- `do_call` of the next callback, if there is one
    split at h
    · next hnone =>
      obtain rfl := Option.some.inj h
      have hlen : ¬k < (s.callbacks h'').length := by simpa using hnone
      simp [nextStorage, hpc, hlen, GamePc.wants]
    · next c hsome =>
      obtain rfl := Option.some.inj h
      have hlen : k < (s.callbacks h'').length := (List.getElem?_eq_some_iff.mp hsome).1
      simp [nextStorage, hpc, hlen, GamePc.wants, GamePc.held, eq_comm]
  · next h'' k c resumed hpc =>
    obtain ⟨-, rfl⟩ := acquire_eq_some.mp h
    rw [setGame_game]
    split <;> simp [nextStorage, hpc, GamePc.wants]
  · next h'' k c resumed hpc =>
    obtain rfl := Option.some.inj h
    simp [nextStorage, hpc, GamePc.wants]
  · next h'' k c hpc =>
    obtain rfl := Option.some.inj h
    simp [nextStorage, hpc, GamePc.wants, GamePc.held, eq_comm]
  · next h'' k c hpc =>
    obtain ⟨-, rfl⟩ := acquire_eq_some.mp h
    simp [nextStorage, hpc, GamePc.wants]
  · next h'' k c hpc =>
    obtain ⟨r, -, rfl⟩ := Option.map_eq_some_iff.mp h
    simp [nextStorage, hpc, GamePc.wants]
  · next h'' k hpc =>
    obtain rfl := Option.some.inj h
    simp [nextStorage, hpc, GamePc.wants]

-- a game thread that crosses the worker does so by its own request
theorem crossed_game_iff {s t : State n} {i : Fin n} (hs : ¬Crossed s) (ho : OnlyGame s t i) :
    Crossed t ↔ ∃ h, s.worker.wants = some (.hook h) ∧
      (t.game i).wants = some .storage ∧ .hook h ∈ (t.game i).held := by
  constructor
  · rintro ⟨j, h, hworker, hgame⟩
    rw [ho.worker] at hworker
    by_cases hj : j = i
    · exact ⟨h, hworker, hj ▸ hgame⟩
    · rw [ho.others j hj] at hgame
      exact absurd ⟨j, h, hworker, hgame⟩ hs
  · rintro ⟨h, hworker, hgame⟩
    exact ⟨i, h, ho.worker ▸ hworker, hgame⟩

theorem crossed_step_iff {S : Setup} {s t : State n} {a : Action n} (hs : ¬Crossed s)
    (h : step S s a = some t) : ¬Crossed t ↔ AsksUncrossed S s a := by
  cases a with
  | worker =>
    obtain ⟨-, hgame⟩ := stepWorker_effect h
    unfold Crossed AsksUncrossed
    simp only [hgame, wants_hook_stepWorker h]
    constructor
    · intro hnot h' hnext i hwants hheld
      exact hnot ⟨i, h', hnext, hwants, hheld⟩
    · rintro hall ⟨i, h', hnext, hwants, hheld⟩
      exact hall h' hnext i hwants hheld
  | game i =>
    obtain ⟨-, ho⟩ := stepGame_effect h
    rw [crossed_game_iff hs ho]
    simp only [wants_storage_stepGame h]
    constructor
    · intro hnot h' hnext hwants
      exact hnot ⟨h', hwants, hnext⟩
    · rintro hall ⟨h', hwants, hnext⟩
      exact hall h' hnext hwants
  | enter i h' =>
    obtain ⟨-, ho, hwants⟩ := step_enter_or_pause (.inl ⟨h', rfl⟩) h
    rw [crossed_game_iff hs ho]
    exact iff_of_true (fun ⟨_, _, hw, _⟩ => hwants hw) trivial
  | pause i =>
    obtain ⟨-, ho, hwants⟩ := step_enter_or_pause (.inr rfl) h
    rw [crossed_game_iff hs ho]
    exact iff_of_true (fun ⟨_, _, hw, _⟩ => hwants hw) trivial

/-- All along a run there is no deadlock exactly when the requests of the worker and of the game
threads never cross at a hook. -/
theorem noDeadlock_iff_asksUncrossed {S : Setup} {acts : List (Action n)} {u : State n}
    (hrun : run (step S) initial acts = some u) :
    Always (step S) NoDeadlock (initial : State n) acts ↔
      Conforms (step S) (AsksUncrossed S) (initial : State n) acts := by
  have hinitial : ¬Crossed (initial : State n) := by
    rintro ⟨i, h, hworker, -⟩
    cases hworker
  refine always_iff_conforms (fun s a t => wf_step) ?_ wf_initial
    ((noDeadlock_iff wf_initial).mpr hinitial) hrun
  intro s a t hs hP h
  rw [noDeadlock_iff (wf_step hs h)]
  exact crossed_step_iff ((noDeadlock_iff hs).mp hP) h

/-- Two callbacks for the hook of the frame update, as in the game, and one for the end of it. -/
def frameHooks : Setup where
  hooks := [(0x55de4f, "on_frame_update"), (0x72dfb0, "on_gameloop_exit")]
  defaults :=
    [⟨"cb_game_command", "on_frame_update", .gameCommand⟩,
      ⟨"gameloop_exit", "on_gameloop_exit", .exitGameLoop⟩,
      ⟨"save_state", "on_frame_update", .cbyr⟩]

/-- The callbacks are created before the game thread reaches a hook. -/
def createThenCall : List (Action 1) :=
  List.replicate 16 .worker ++ [.enter 0 0x55de4f, .game 0, .game 0, .game 0, .game 0, .game 0,
    .game 0, .game 0, .game 0, .enter 0 0x72dfb0, .game 0, .game 0, .game 0, .game 0, .game 0]

theorem createThenCall_noDeadlock :
    Always (step frameHooks) NoDeadlock (initial : State 1) createThenCall := by
  have hrun : run (step frameHooks) (initial : State 1) createThenCall =
      some ((run (step frameHooks) (initial : State 1) createThenCall).get (by decide)) := by
    simp
  exact (noDeadlock_iff_asksUncrossed hrun).mpr (by decide)

/-- The first callback of the frame update is in place, and the game thread runs it before the second
one is. -/
def callWhileCreating : List (Action 1) :=
  List.replicate 10 .worker ++ [.enter 0 0x55de4f, .game 0, .game 0] ++ List.replicate 1 .worker

theorem callWhileCreating_deadlock :
    ∃ s, run (step frameHooks) (initial : State 1) callWhileCreating = some s ∧
      Deadlocked s.wants s.owner {.worker, .game 0} := by
  refine ⟨_, rfl, ⟨⟨.worker, .inl rfl⟩, ?_⟩⟩
  rintro t (rfl | rfl)
  · exact ⟨.hook 0x55de4f, by decide, .game 0, .inr rfl, nofun, by decide⟩
  · exact ⟨.storage, by decide, .worker, .inl rfl, nofun, by decide⟩

end Ra2yrcpp.Hook.Locking
