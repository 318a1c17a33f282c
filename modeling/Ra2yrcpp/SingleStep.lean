import Mathlib.Data.List.Basic
import Mathlib.Data.List.Chain
import Ra2yrcpp.Reasoning.Transition

/-!
# Single-step mode

The hand-over between the game thread, which pauses in `CBGameCommand::exec`, and the command worker,
which runs `get_game_state`.  They share the storage lock, the flag `game_paused` and the saved game
state.  A history records the pauses, the answers and the frames in the order they happen.
-/

namespace Ra2yrcpp.SingleStep

open Reasoning

inductive Thread
  | game
  | worker
  deriving DecidableEq, Repr

/-- Where the game thread is: `CBGameCommand::do_call`, then `do_call` of the callback that saves the
state, once a frame. -/
inductive GamePc
  | outside
  /-- `do_call` has locked the storage. -/
  | entered
  /-- `exec` has unlocked the storage again. -/
  | released
  /-- In `game_paused.wait(false)`. -/
  | waiting
  /-- About to lock the storage again. -/
  | woken
  | draining
  | between
  | saving
  | saved
  deriving DecidableEq, Repr

/-- Where the worker is in `get_game_state`. -/
inductive WorkerPc
  | idle
  | locked
  | unlocking
  /-- In `game_paused.wait(true)`. -/
  | waiting
  | relocking
  | copying
  /-- The message holds the state of the given frame. -/
  | clearing (copied : Option Nat)
  | leaving
  deriving DecidableEq, Repr

inductive Event
  /-- The game has set `game_paused` and waits. -/
  | paused
  /-- A `GetGameState` is done with the state of the given frame, but for its `unlock_storage`. -/
  | returned (f : Option Nat)
  /-- The game has run the given frame and saved its state. -/
  | frame (n : Nat)
  deriving DecidableEq, Repr

structure State where
  game : GamePc := .outside
  worker : WorkerPc := .idle
  /-- The owner of the storage lock; neither thread takes it twice here. -/
  storage : Option Thread := none
  paused : Bool := false
  /-- The frame that is saved next. -/
  frame : Nat := 0
  /-- The frame whose state is in `sv.game_state`, none before the first one. -/
  state : Option Nat := none
  /-- What has happened, latest first. -/
  history : List Event := []
  deriving DecidableEq, Repr

/-- `lock_storage` of a thread, which goes on as `next` says. -/
def lockStorage (s : State) (t : Thread) (next : State → State) : Option State :=
  if s.storage = none then some (next { s with storage := some t }) else none

def stepGame (singleStep : Bool) (s : State) : Option State :=
  match s.game with
  | .outside => lockStorage s .game fun s => { s with game := .entered }
  | .entered =>
    if singleStep then some { s with game := .released, storage := none }
    else some { s with game := .draining }
  | .released => some { s with game := .waiting, paused := true, history := .paused :: s.history }
  | .waiting => if s.paused = false then some { s with game := .woken } else none
  | .woken => lockStorage s .game fun s => { s with game := .draining }
  | .draining => some { s with game := .between, storage := none }
  | .between => lockStorage s .game fun s => { s with game := .saving }
  | .saving =>
    some { s with
      game := .saved
      state := some s.frame
      frame := s.frame + 1
      history := .frame s.frame :: s.history }
  | .saved => some { s with game := .outside, storage := none }

def stepWorker (singleStep : Bool) (s : State) : Option State :=
  match s.worker with
  | .idle => lockStorage s .worker fun s => { s with worker := .locked }
  | .locked =>
    -- the wait is skipped when the game is not paused yet
    if singleStep ∧ s.paused = true then some { s with worker := .unlocking }
    else some { s with worker := .copying }
  | .unlocking => some { s with worker := .waiting, storage := none }
  | .waiting => if s.paused = true then some { s with worker := .relocking } else none
  | .relocking => lockStorage s .worker fun s => { s with worker := .copying }
  | .copying => some { s with worker := .clearing s.state }
  | .clearing f =>
    some { s with
      worker := .leaving
      paused := if singleStep then false else s.paused
      history := .returned f :: s.history }
  | .leaving => some { s with worker := .idle, storage := none }

/-- One step of the thread that is scheduled. -/
def step (singleStep : Bool) (s : State) : Thread → Option State
  | .game => stepGame singleStep s
  | .worker => stepWorker singleStep s

def initial : State := {}

/-! ## Lockstep -/

/-- Latest first: a pause, an answer, a frame, and again. -/
def Alternates : List Event → Prop
  | [] => True
  | .paused :: h => (h = [] ∨ ∃ n h', h = .frame n :: h') ∧ Alternates h
  | .returned _ :: h => (∃ h', h = .paused :: h') ∧ Alternates h
  | .frame _ :: h => (∃ f h', h = .returned f :: h') ∧ Alternates h

/-- The frames that were returned, latest first. -/
def returned (h : List Event) : List (Option Nat) :=
  h.filterMap fun
    | .returned f => some f
    | _ => none

/-- Every `GetGameState` is answered at a pause of its own and lets one frame pass before the next
pause, and no two in a row return the same frame. -/
def Lockstep (s : State) : Prop :=
  Alternates s.history ∧ (returned s.history).IsChain (· ≠ ·)

/-! ## What a step can do -/

/-- The moves of the game thread in single-step mode. -/
inductive GameMove (s : State) : State → Prop
  | enter (hpc : s.game = .outside) (hfree : s.storage = none) :
    GameMove s { s with game := .entered, storage := some .game }
  | release (hpc : s.game = .entered) :
    GameMove s { s with game := .released, storage := none }
  | pause (hpc : s.game = .released) :
    GameMove s { s with game := .waiting, paused := true, history := .paused :: s.history }
  | wake (hpc : s.game = .waiting) (hflag : s.paused = false) :
    GameMove s { s with game := .woken }
  | relock (hpc : s.game = .woken) (hfree : s.storage = none) :
    GameMove s { s with game := .draining, storage := some .game }
  | drain (hpc : s.game = .draining) :
    GameMove s { s with game := .between, storage := none }
  | lock (hpc : s.game = .between) (hfree : s.storage = none) :
    GameMove s { s with game := .saving, storage := some .game }
  | save (hpc : s.game = .saving) :
    GameMove s { s with
      game := .saved
      state := some s.frame
      frame := s.frame + 1
      history := .frame s.frame :: s.history }
  | leave (hpc : s.game = .saved) :
    GameMove s { s with game := .outside, storage := none }

/-- The moves of the worker in single-step mode.  All but `clear` leave the flag, the saved state and
the history alone. -/
inductive WorkerMove (s : State) : State → Prop
  | lock (hpc : s.worker = .idle) (hfree : s.storage = none) :
    WorkerMove s { s with worker := .locked, storage := some .worker }
  | seePause (hpc : s.worker = .locked) (hflag : s.paused = true) :
    WorkerMove s { s with worker := .unlocking }
  | skip (hpc : s.worker = .locked) (hflag : s.paused = false) :
    WorkerMove s { s with worker := .copying }
  | unlock (hpc : s.worker = .unlocking) :
    WorkerMove s { s with worker := .waiting, storage := none }
  | wake (hpc : s.worker = .waiting) (hflag : s.paused = true) :
    WorkerMove s { s with worker := .relocking }
  | relock (hpc : s.worker = .relocking) (hfree : s.storage = none) :
    WorkerMove s { s with worker := .copying, storage := some .worker }
  | copy (hpc : s.worker = .copying) :
    WorkerMove s { s with worker := .clearing s.state }
  | clear (f : Option Nat) (hpc : s.worker = .clearing f) :
    WorkerMove s { s with worker := .leaving, paused := false, history := .returned f :: s.history }
  | leave (hpc : s.worker = .leaving) :
    WorkerMove s { s with worker := .idle, storage := none }

theorem lockStorage_eq_some {s t : State} {i : Thread} {next : State → State} :
    lockStorage s i next = some t ↔ s.storage = none ∧ next { s with storage := some i } = t := by
  unfold lockStorage
  rw [Option.ite_none_right_eq_some, Option.some.injEq]

theorem stepGame_move {s t : State} (h : stepGame true s = some t) : GameMove s t := by
  unfold stepGame at h
  split at h
  · next hpc =>
    obtain ⟨hfree, rfl⟩ := lockStorage_eq_some.mp h
    exact .enter hpc hfree
  · next hpc =>
    obtain rfl := Option.some.inj h
    exact .release hpc
  · next hpc =>
    obtain rfl := Option.some.inj h
    exact .pause hpc
  · next hpc =>
    obtain ⟨hflag, h⟩ := Option.ite_none_right_eq_some.mp h
    obtain rfl := Option.some.inj h
    exact .wake hpc hflag
  · next hpc =>
    obtain ⟨hfree, rfl⟩ := lockStorage_eq_some.mp h
    exact .relock hpc hfree
  · next hpc =>
    obtain rfl := Option.some.inj h
    exact .drain hpc
  · next hpc =>
    obtain ⟨hfree, rfl⟩ := lockStorage_eq_some.mp h
    exact .lock hpc hfree
  · next hpc =>
    obtain rfl := Option.some.inj h
    exact .save hpc
  · next hpc =>
    obtain rfl := Option.some.inj h
    exact .leave hpc

theorem stepWorker_move {s t : State} (h : stepWorker true s = some t) : WorkerMove s t := by
  unfold stepWorker at h
  split at h
  · next hpc =>
    obtain ⟨hfree, rfl⟩ := lockStorage_eq_some.mp h
    exact .lock hpc hfree
  · next hpc =>
    split at h
    · next hflag =>
      obtain rfl := Option.some.inj h
      exact .seePause hpc hflag.2
    · next hflag =>
      obtain rfl := Option.some.inj h
      exact .skip hpc (by simpa using hflag)
  · next hpc =>
    obtain rfl := Option.some.inj h
    exact .unlock hpc
  · next hpc =>
    obtain ⟨hflag, h⟩ := Option.ite_none_right_eq_some.mp h
    obtain rfl := Option.some.inj h
    exact .wake hpc hflag
  · next hpc =>
    obtain ⟨hfree, rfl⟩ := lockStorage_eq_some.mp h
    exact .relock hpc hfree
  · next hpc =>
    obtain rfl := Option.some.inj h
    exact .copy hpc
  · next f hpc =>
    obtain rfl := Option.some.inj h
    exact .clear f hpc
  · next hpc =>
    obtain rfl := Option.some.inj h
    exact .leave hpc

/-! ## Who holds the storage lock -/

def GamePc.Holds (p : GamePc) : Prop :=
  p = .entered ∨ p = .draining ∨ p = .saving ∨ p = .saved

def WorkerPc.Holds (p : WorkerPc) : Prop :=
  p = .locked ∨ p = .unlocking ∨ p = .copying ∨ (∃ f, p = .clearing f) ∨ p = .leaving

/-- The storage lock is held where the code holds it, so the copied state is still the saved one. -/
structure Wf (s : State) : Prop where
  game_holds : s.storage = some .game ↔ s.game.Holds
  worker_holds : s.storage = some .worker ↔ s.worker.Holds
  copied : ∀ f, s.worker = .clearing f → f = s.state

theorem wf_initial : Wf initial := by
  constructor <;> simp [initial, GamePc.Holds, WorkerPc.Holds]

theorem wf_gameMove {s t : State} (hs : Wf s) (h : GameMove s t) : Wf t := by
  obtain ⟨hgame, hworker, hcopied⟩ := hs
  unfold GamePc.Holds at hgame
  cases h with
  | save hpc =>
    -- the worker does not hold the lock, so it has copied nothing that could grow old
    have hfree : ¬s.worker.Holds := by
      rw [← hworker, hgame.mpr (by simp [hpc])]
      simp
    refine ⟨by simp_all [GamePc.Holds], hworker, fun f hf => absurd ?_ hfree⟩
    exact .inr (.inr (.inr (.inl ⟨f, hf⟩)))
  | _ => constructor <;> simp_all [GamePc.Holds]

theorem wf_workerMove {s t : State} (hs : Wf s) (h : WorkerMove s t) : Wf t := by
  obtain ⟨hgame, hworker, hcopied⟩ := hs
  unfold WorkerPc.Holds at hworker
  cases h <;> constructor <;> simp_all [WorkerPc.Holds]

theorem wf_step {s t : State} {i : Thread} (hs : Wf s) (h : step true s i = some t) : Wf t := by
  cases i with
  | game => exact wf_gameMove hs (stepGame_move h)
  | worker => exact wf_workerMove hs (stepWorker_move h)

/-! ## The history as the program counters tell it -/

/-- What the last event can be while the game thread is at `p`. -/
def LastEvent (h : List Event) : GamePc → Prop
  | .outside | .entered | .released => h = [] ∨ ∃ n h', h = .frame n :: h'
  | .waiting => (∃ h', h = .paused :: h') ∨ ∃ f h', h = .returned f :: h'
  | .woken | .draining | .between | .saving => ∃ f h', h = .returned f :: h'
  | .saved => ∃ n h', h = .frame n :: h'

/-- What holds as long as the history is in lockstep. -/
structure Coherent (s : State) : Prop where
  last : LastEvent s.history s.game
  paused_iff : s.paused = true ↔ ∃ h, s.history = .paused :: h
  returned_lt : ∀ n, some n ∈ returned s.history → n < s.frame
  state_lt : ∀ n, s.state = some n → n < s.frame
  /-- A frame has passed since the last answer, unless it is the last event. -/
  fresh : (∃ f h, s.history = .returned f :: h) ∨ (returned s.history).head? ≠ some s.state

theorem coherent_initial : Coherent initial := by
  constructor <;> simp [initial, LastEvent, returned]

@[simp] theorem returned_cons_paused (h : List Event) :
    returned (.paused :: h) = returned h := rfl

@[simp] theorem returned_cons_frame (n : Nat) (h : List Event) :
    returned (.frame n :: h) = returned h := rfl

@[simp] theorem returned_cons_returned (f : Option Nat) (h : List Event) :
    returned (.returned f :: h) = f :: returned h := rfl

/-- Moves that leave the flag, the saved state and the history alone. -/
theorem coherent_of_eq {s t : State} (hs : Coherent s) (hlast : LastEvent s.history t.game)
    (hpaused : t.paused = s.paused) (hstate : t.state = s.state) (hframe : t.frame = s.frame)
    (hhistory : t.history = s.history) : Coherent t where
  last := hhistory ▸ hlast
  paused_iff := by rw [hpaused, hhistory]; exact hs.paused_iff
  returned_lt := by rw [hhistory, hframe]; exact hs.returned_lt
  state_lt := by rw [hstate, hframe]; exact hs.state_lt
  fresh := by rw [hhistory, hstate]; exact hs.fresh

theorem coherent_gameMove {s t : State} (hs : Coherent s) (h : GameMove s t) : Coherent t := by
  have hlast := hs.last
  cases h with
  | enter hpc _ | release hpc | drain hpc | relock hpc _ | lock hpc _ =>
    rw [hpc] at hlast
    exact coherent_of_eq hs hlast rfl rfl rfl rfl
  | leave hpc =>
    rw [hpc] at hlast
    exact coherent_of_eq hs (.inr hlast) rfl rfl rfl rfl
  | wake hpc hflag =>
    rw [hpc] at hlast
    refine coherent_of_eq hs ?_ rfl rfl rfl rfl
    apply hlast.resolve_left
    rw [← hs.paused_iff, hflag]
    decide
  | pause hpc =>
    rw [hpc] at hlast
    refine ⟨.inl ⟨_, rfl⟩, by simp, hs.returned_lt, hs.state_lt, .inr ?_⟩
    apply hs.fresh.resolve_left
    rintro ⟨f, h, heq⟩
    simp [heq, LastEvent] at hlast
  | save hpc =>
    rw [hpc] at hlast
    refine ⟨⟨_, _, rfl⟩, ?_, ?_, ?_, .inr ?_⟩
    · obtain ⟨f, h, heq⟩ := hlast
      simp [hs.paused_iff, heq]
    · intro n hn
      exact Nat.lt_succ_of_lt (hs.returned_lt n hn)
    · intro n hn
      obtain rfl := Option.some.inj hn
      exact Nat.lt_succ_self _
    · -- every frame that was returned is older than the one just saved
      intro hhead
      exact Nat.lt_irrefl _ (hs.returned_lt s.frame (List.mem_of_head? hhead))

theorem lockstep_gameMove {s t : State} (hc : Coherent s) (hs : Lockstep s) (h : GameMove s t) :
    Lockstep t := by
  have hlast := hc.last
  cases h with
  | pause hpc =>
    rw [hpc] at hlast
    exact ⟨⟨hlast, hs.1⟩, hs.2⟩
  | save hpc =>
    rw [hpc] at hlast
    exact ⟨⟨hlast, hs.1⟩, hs.2⟩
  | _ => exact hs

def WorkerPc.isClearing : WorkerPc → Bool
  | .clearing _ => true
  | _ => false

/-- The flag is up when the worker is about to clear it. -/
def ClearsAtPause (s : State) (i : Thread) : Prop :=
  i = .worker → s.worker.isClearing = true → s.paused = true

instance (s : State) (i : Thread) : Decidable (ClearsAtPause s i) :=
  inferInstanceAs (Decidable (_ → _ → _))

theorem coherent_workerMove {s t : State} (hwf : Wf s) (hs : Coherent s) (h : WorkerMove s t)
    (hok : ClearsAtPause s .worker) : Coherent t := by
  cases h with
  | clear f hpc =>
    obtain ⟨h, heq⟩ := hs.paused_iff.mp (hok rfl (by rw [hpc]; rfl))
    have hf : f = s.state := hwf.copied f hpc
    refine ⟨?_, by simp, ?_, hs.state_lt, .inl ⟨_, _, rfl⟩⟩
    · -- the game waits: at every other place the last event is no pause
      have hlast := hs.last
      rw [heq] at hlast
      cases hgame : s.game <;> simp_all [LastEvent]
    · intro n hn
      rcases List.mem_cons.mp hn with hn | hn
      · exact hs.state_lt n (hf.symm.trans hn.symm)
      · exact hs.returned_lt n hn
  | _ => exact coherent_of_eq hs hs.last rfl rfl rfl rfl

theorem lockstep_workerMove {s t : State} (hwf : Wf s) (hc : Coherent s) (hs : Lockstep s)
    (h : WorkerMove s t) : Lockstep t ↔ ClearsAtPause s .worker := by
  cases h with
  | clear f hpc =>
    have hf : f = s.state := hwf.copied f hpc
    constructor
    · intro ht _ _
      exact hc.paused_iff.mpr ht.1.1
    · intro hok
      have hpause := hc.paused_iff.mp (hok rfl (by rw [hpc]; rfl))
      refine ⟨⟨hpause, hs.1⟩, ?_⟩
      show List.IsChain (· ≠ ·) (f :: returned s.history)
      rw [List.isChain_cons]
      refine ⟨fun g hg heq => ?_, hs.2⟩
      obtain ⟨h, heq'⟩ := hpause
      rcases hc.fresh with ⟨_, _, hret⟩ | hfresh
      · rw [heq'] at hret
        cases hret
      · exact hfresh (by rw [hg, ← heq, hf])
  | _ => exact iff_of_true hs fun _ hf => by simp_all [WorkerPc.isClearing]

theorem Lockstep.of_cons {s t : State} {e : Event} (ht : Lockstep t)
    (h : t.history = e :: s.history) : Lockstep s := by
  obtain ⟨halt, hchain⟩ := ht
  rw [h] at halt hchain
  cases e with
  | paused => exact ⟨halt.2, hchain⟩
  | returned f => exact ⟨halt.2, (List.isChain_cons.mp hchain).2⟩
  | frame n => exact ⟨halt.2, hchain⟩

-- the history only grows, so a history in lockstep was in lockstep before
theorem Lockstep.of_step {s t : State} {i : Thread} (ht : Lockstep t)
    (h : step true s i = some t) : Lockstep s := by
  cases i with
  | game =>
    cases stepGame_move h with
    | pause hpc | save hpc => exact ht.of_cons rfl
    | _ => exact ht
  | worker =>
    cases stepWorker_move h with
    | clear f hpc => exact ht.of_cons rfl
    | _ => exact ht

theorem lockstep_step_iff {s t : State} {i : Thread} (hwf : Wf s) (hc : Coherent s)
    (hs : Lockstep s) (h : step true s i = some t) : Lockstep t ↔ ClearsAtPause s i := by
  cases i with
  | game => exact iff_of_true (lockstep_gameMove hc hs (stepGame_move h)) nofun
  | worker => exact lockstep_workerMove hwf hc hs (stepWorker_move h)

theorem coherent_step {s t : State} {i : Thread} (hwf : Wf s) (hc : Coherent s)
    (h : step true s i = some t) (hok : ClearsAtPause s i) : Coherent t := by
  cases i with
  | game => exact coherent_gameMove hc (stepGame_move h)
  | worker => exact coherent_workerMove hwf hc (stepWorker_move h) hok

/-- All along a run the frames and the answers are in lockstep exactly when every `GetGameState`
clears `game_paused` while it is set. -/
theorem lockstep_iff_clearsAtPause {is : List Thread} {u : State}
    (hrun : run (step true) initial is = some u) :
    Always (step true) Lockstep initial is ↔ Conforms (step true) ClearsAtPause initial is := by
  have hinv : ∀ s i t, Wf s ∧ (Lockstep s → Coherent s) → step true s i = some t →
      Wf t ∧ (Lockstep t → Coherent t) := by
    intro s i t ⟨hwf, hc⟩ h
    refine ⟨wf_step hwf h, fun ht => ?_⟩
    have hs := ht.of_step h
    exact coherent_step hwf (hc hs) h ((lockstep_step_iff hwf (hc hs) hs h).mp ht)
  exact always_iff_conforms hinv
    (fun s i t hi hs h => lockstep_step_iff hi.1 (hi.2 hs) hs h)
    ⟨wf_initial, fun _ => coherent_initial⟩ ⟨trivial, List.isChain_nil⟩ hrun

/-- A frame from its pause on, with the `GetGameState` that lets it pass. -/
def frameAtPause : List Thread :=
  List.replicate 3 .game ++ List.replicate 8 .worker ++ List.replicate 6 .game

theorem frameAtPause_lockstep :
    Always (step true) Lockstep initial (frameAtPause ++ frameAtPause) := by
  have hrun : run (step true) initial (frameAtPause ++ frameAtPause) =
      some ((run (step true) initial (frameAtPause ++ frameAtPause)).get (by decide)) := by
    simp
  exact (lockstep_iff_clearsAtPause hrun).mpr (by decide)

/-- At the second pause the worker runs two `GetGameState` before the game has woken up: the second
one sees the flag that the first one has cleared and does not wait. -/
def secondBeforeWake : List Thread :=
  frameAtPause ++ List.replicate 3 .game ++ List.replicate 8 .worker ++ List.replicate 4 .worker

/-- Both return the state of frame 0, and no frame has passed in between. -/
theorem secondBeforeWake_sameFrame :
    ∃ s, run (step true) initial secondBeforeWake = some s ∧ ¬Lockstep s ∧
      s.history = [.returned (some 0), .returned (some 0), .paused, .frame 0, .returned none,
        .paused] := by
  refine ⟨_, rfl, ?_, rfl⟩
  rintro ⟨-, hchain⟩
  exact (List.isChain_cons.mp hchain).1 (some 0) rfl rfl

end Ra2yrcpp.SingleStep
