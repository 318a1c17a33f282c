import Mathlib.Logic.Basic
import Ra2yrcpp.Reasoning.Transition

/-!
# Start and stop of AutoPollClient

The owner calls `start`, and later `shutdown` or the destructor; the poll thread that `start` creates
stores `State::OPEN` and sets `poll_thread_active_` on its own time.  `state_` is guarded by a
recursive mutex that `start`, `shutdown` and the destructor hold until they return, and that the
poll thread takes for its one store.
-/

namespace Ra2yrcpp.MultiClient.Lifecycle

open Reasoning

/-- The values of `connection::State` that `state_` takes. -/
inductive ConnState
  | none
  | open_
  | closing
  | closed
  deriving DecidableEq, Repr

/-- Where the owner is.  `nested` says that `shutdown` was called by the destructor. -/
inductive OwnerPc
  | notStarted
  | starting
  | started
  | wantShutdown
  | closing (nested : Bool)
  | deactivating (nested : Bool)
  | joining (nested : Bool)
  | disconnecting (nested : Bool)
  | stopped
  | wantDestroy
  | testing
  | leaving
  | destroyed
  deriving DecidableEq, Repr

inductive PollPc
  | absent
  | waitConnection
  | wantState
  | activating
  | looping
  | polling
  | exited
  deriving DecidableEq, Repr

structure State where
  owner : OwnerPc := .notStarted
  poll : PollPc := .absent
  /-- `state_`, and whether the owner holds its mutex. -/
  value : ConnState := .none
  locked : Bool := false
  /-- `poll_thread_active_`. -/
  active : Bool := false
  /-- `poll_thread_.joinable()`. -/
  joinable : Bool := false
  /-- `shutdown` has set `poll_thread_active_` to false. -/
  deactivated : Bool := false
  deriving DecidableEq, Repr

def State.init : State := {}

/-- The owner takes the mutex of `state_`; the poll thread holds it during its store only. -/
def State.lock (s : State) (next : OwnerPc) : Option State :=
  if s.locked then none else some { s with locked := true, owner := next }

/-- The next step of `shutdown` and of the destructor. -/
def stepOwner (s : State) : Option State :=
  match s.owner with
  | .wantShutdown => s.lock (.closing false)
  | .closing nested => some { s with value := .closing, owner := .deactivating nested }
  | .deactivating nested =>
    some { s with active := false, deactivated := true, owner := .joining nested }
  | .joining nested =>
    if s.poll = .exited then some { s with joinable := false, owner := .disconnecting nested }
    else none
  -- `state_.store(State::CLOSED)`; in the destructor the outer lock stays
  | .disconnecting true => some { s with value := .closed, owner := .leaving }
  | .disconnecting false => some { s with value := .closed, locked := false, owner := .stopped }
  | .wantDestroy => s.lock .testing
  | .testing =>
    if s.value = .open_ then some { s with owner := .closing true }
    else some { s with owner := .leaving }
  | .leaving => some { s with locked := false, owner := .destroyed }
  | _ => none

/-- `poll_thread`. -/
def stepPoll (s : State) : Option State :=
  match s.poll with
  | .absent => none
  | .waitConnection => some { s with poll := .wantState }
  | .wantState => if s.locked then none else some { s with value := .open_, poll := .activating }
  | .activating => some { s with active := true, poll := .looping }
  | .looping => some { s with poll := if s.active then .polling else .exited }
  | .polling => some { s with poll := .looping }
  | .exited => none

inductive Action
  | start
  /-- `start` has connected both clients and made the thread. -/
  | startReturns
  | startThrows
  | callShutdown
  | callDestructor
  | owner
  | poll
  deriving DecidableEq, Repr

def step (s : State) : Action → Option State
  | .start => if s.owner = .notStarted then s.lock .starting else none
  | .startReturns =>
    if s.owner = .starting then
      some { s with poll := .waitConnection, joinable := true, locked := false, owner := .started }
    else none
  | .startThrows =>
    if s.owner = .starting then some { s with locked := false, owner := .notStarted } else none
  | .callShutdown => if s.owner = .started then some { s with owner := .wantShutdown } else none
  | .callDestructor =>
    if s.owner = .notStarted ∨ s.owner = .started ∨ s.owner = .stopped then
      some { s with owner := .wantDestroy }
    else none
  | .owner => stepOwner s
  | .poll => stepPoll s

/-! ## What must not happen -/

/-- `shutdown` waits in `join` with `state_` locked, and the poll thread for `state_`. -/
def Deadlocked (s : State) : Prop :=
  (s.owner = .joining false ∨ s.owner = .joining true) ∧ s.locked = true ∧ s.poll = .wantState

/-- `poll_thread_active_` was set again after `shutdown` had cleared it. -/
def Reactivated (s : State) : Prop := s.deactivated = true ∧ s.active = true

/-- The destructor has finished without a join. -/
def Abandoned (s : State) : Prop := s.owner = .destroyed ∧ s.joinable = true

structure Clean (s : State) : Prop where
  noDeadlock : ¬Deadlocked s
  notReactivated : ¬Reactivated s
  notAbandoned : ¬Abandoned s

instance (s : State) : Decidable (Deadlocked s) := inferInstanceAs (Decidable ((_ ∨ _) ∧ _ ∧ _))
instance (s : State) : Decidable (Reactivated s) := inferInstanceAs (Decidable (_ ∧ _))
instance (s : State) : Decidable (Abandoned s) := inferInstanceAs (Decidable (_ ∧ _))

/-- The owner stops the client before the poll thread has come to its store, between the store and
the flag, and destroys it before the store. -/
theorem stopped_too_early :
    (∃ s, run step State.init [.start, .startReturns, .callShutdown, .owner, .owner, .owner, .poll] =
      some s ∧ Deadlocked s) ∧
    (∃ s, run step State.init [.start, .startReturns, .poll, .poll, .callShutdown, .owner, .owner,
      .owner, .poll] = some s ∧ Reactivated s) ∧
    ∃ s, run step State.init [.start, .startReturns, .callDestructor, .owner, .owner, .owner] =
      some s ∧ Abandoned s := by
  refine ⟨⟨_, rfl, ?_⟩, ⟨_, rfl, ?_⟩, ⟨_, rfl, ?_⟩⟩ <;> decide

/-! ## The condition -/

/-- The poll thread has set `poll_thread_active_`. -/
def PollPc.activated : PollPc → Bool
  | .looping | .polling | .exited => true
  | _ => false

/-- `shutdown` and the destructor get `state_` only after the poll thread, if there is one to be
joined, has set `poll_thread_active_`. -/
def StopsActive (s : State) (a : Action) : Prop :=
  a = .owner → s.owner = .wantShutdown ∨ s.owner = .wantDestroy → s.joinable = true →
    s.poll.activated = true

instance (s : State) (a : Action) : Decidable (StopsActive s a) :=
  inferInstanceAs (Decidable (_ → _ → _ → _))

/-- What the poll thread has stored is still there: nobody has begun to stop it. -/
structure Running (s : State) : Prop where
  joinable : s.joinable = true
  opened : s.poll.activated = true ∨ s.poll = .activating → s.value = .open_
  notDeactivated : s.deactivated = false

/-- There is no poll thread, and none that could still store anything. -/
structure Gone (s : State) : Prop where
  joinable : s.joinable = false
  poll : s.poll = .absent ∨ s.poll = .exited
  value : s.value ≠ .open_

/-- What holds at each point of the owner. -/
def AtPoint (s : State) : OwnerPc → Prop
  | .notStarted | .starting => Gone s ∧ s.deactivated = false
  | .started | .wantShutdown => Running s
  | .wantDestroy => Gone s ∨ Running s
  | .testing => Gone s ∨ s.poll.activated = true ∧ Running s
  | .closing _ => s.poll.activated = true
  | .deactivating _ | .joining _ => s.poll.activated = true ∧ s.value ≠ .open_
  | .disconnecting _ | .stopped | .leaving | .destroyed => Gone s

structure Wf (s : State) : Prop where
  point : AtPoint s s.owner
  flag : s.deactivated = true → s.active = false ∧ s.poll.activated = true

theorem wf_init : Wf State.init where
  point := ⟨⟨rfl, Or.inl rfl, nofun⟩, rfl⟩
  flag h := by cases h

theorem Wf.clean {s : State} (h : Wf s) : Clean s where
  noDeadlock := by
    intro ⟨hjoin, _, hpoll⟩
    have hpoint := h.point
    cases hjoin with
    | inl hj | inr hj =>
      rw [hj] at hpoint
      have hact := hpoint.1
      rw [hpoll] at hact
      cases hact
  notReactivated := by
    intro ⟨hd, ha⟩
    rw [(h.flag hd).1] at ha
    cases ha
  notAbandoned := by
    intro ⟨hd, hj⟩
    have hpoint := h.point
    rw [hd] at hpoint
    rw [hpoint.joinable] at hj
    cases hj

/-! ## The poll thread -/

theorem Gone.stepPoll {s : State} (h : Gone s) : stepPoll s = none := by
  unfold Lifecycle.stepPoll
  cases h.poll with
  | inl hp | inr hp => rw [hp]

/-- The poll thread goes on: it does not lose its flag, and what it stored stays. -/
theorem AtPoint.pollMoves {s t : State} {pc : OwnerPc} (h : AtPoint s pc) (hgone : ¬Gone s)
    (hactivated : s.poll.activated = true → t.poll.activated = true ∧ t.value = s.value)
    (hrunning : Running s → Running t) : AtPoint t pc := by
  cases pc with
  | notStarted | starting => exact absurd h.1 hgone
  | started | wantShutdown => exact hrunning h
  | wantDestroy => exact Or.inr (hrunning (h.resolve_left hgone))
  | testing =>
    have hs := h.resolve_left hgone
    exact Or.inr ⟨(hactivated hs.1).1, hrunning hs.2⟩
  | closing nested => exact (hactivated h).1
  | deactivating nested | joining nested =>
    have hs := hactivated h.1
    exact ⟨hs.1, hs.2 ▸ h.2⟩
  | disconnecting nested | stopped | leaving | destroyed => exact absurd h hgone

theorem wf_stepPoll {s t : State} (h : Wf s) (hstep : stepPoll s = some t) : Wf t := by
  have hgone : ¬Gone s := by
    intro hg
    rw [hg.stepPoll] at hstep
    cases hstep
  -- a flag that was cleared belongs to a thread that has set it
  have hflag : s.deactivated = true → s.poll.activated = true := fun hd => (h.flag hd).2
  unfold stepPoll at hstep
  split at hstep
  · cases hstep
  · next hp =>
    rw [← Option.some.inj hstep]
    rw [hp] at hflag
    exact ⟨h.point.pollMoves hgone (by rw [hp]; nofun) fun hr => ⟨hr.joinable, nofun, hr.notDeactivated⟩,
      fun hd => nomatch hflag hd⟩
  · next hp =>
    rw [hp] at hflag
    split at hstep
    · cases hstep
    · rw [← Option.some.inj hstep]
      exact ⟨h.point.pollMoves hgone (by rw [hp]; nofun) fun hr =>
        ⟨hr.joinable, fun _ => rfl, hr.notDeactivated⟩, fun hd => nomatch hflag hd⟩
  · next hp =>
    rw [hp] at hflag
    rw [← Option.some.inj hstep]
    exact ⟨h.point.pollMoves hgone (fun _ => ⟨rfl, rfl⟩) fun hr =>
      ⟨hr.joinable, fun _ => hr.opened (Or.inr hp), hr.notDeactivated⟩, fun hd => nomatch hflag hd⟩
  · next hp =>
    have hact : s.poll.activated = true := by rw [hp]; rfl
    have hnext : (if s.active then PollPc.polling else .exited).activated = true := by
      split <;> rfl
    rw [← Option.some.inj hstep]
    exact ⟨h.point.pollMoves hgone (fun _ => ⟨hnext, rfl⟩) fun hr =>
      ⟨hr.joinable, fun _ => hr.opened (Or.inl hact), hr.notDeactivated⟩,
      fun hd => ⟨(h.flag hd).1, hnext⟩⟩
  · next hp =>
    have hact : s.poll.activated = true := by rw [hp]; rfl
    rw [← Option.some.inj hstep]
    exact ⟨h.point.pollMoves hgone (fun _ => ⟨rfl, rfl⟩) fun hr =>
      ⟨hr.joinable, fun _ => hr.opened (Or.inl hact), hr.notDeactivated⟩,
      fun hd => ⟨(h.flag hd).1, rfl⟩⟩
  · cases hstep

/-! ## The owner -/

theorem lock_eq_some {s t : State} {pc : OwnerPc} (h : s.lock pc = some t) :
    t = { s with locked := true, owner := pc } := by
  unfold State.lock at h
  split at h
  · cases h
  · exact (Option.some.inj h).symm

/-- What these say does not depend on where the owner is and what it has locked. -/
theorem Running.move {s : State} (h : Running s) (locked : Bool) (pc : OwnerPc) :
    Running { s with locked := locked, owner := pc } :=
  ⟨h.joinable, h.opened, h.notDeactivated⟩

theorem Gone.move {s : State} (h : Gone s) (locked : Bool) (pc : OwnerPc) :
    Gone { s with locked := locked, owner := pc } :=
  ⟨h.joinable, h.poll, h.value⟩

theorem wf_stepOwner {s t : State} (h : Wf s) (hok : StopsActive s .owner)
    (hstep : stepOwner s = some t) : Wf t := by
  have hpoint := h.point
  unfold stepOwner at hstep
  split at hstep
  · next hpc =>
    rw [lock_eq_some hstep]
    rw [hpc] at hpoint
    exact ⟨hok rfl (Or.inl hpc) hpoint.joinable, h.flag⟩
  · next nested hpc =>
    rw [← Option.some.inj hstep]
    rw [hpc] at hpoint
    exact ⟨⟨hpoint, nofun⟩, h.flag⟩
  · next nested hpc =>
    rw [← Option.some.inj hstep]
    rw [hpc] at hpoint
    exact ⟨hpoint, fun _ => ⟨rfl, hpoint.1⟩⟩
  · next nested hpc =>
    rw [hpc] at hpoint
    split at hstep
    · next hexit =>
      rw [← Option.some.inj hstep]
      exact ⟨⟨rfl, Or.inr hexit, hpoint.2⟩, h.flag⟩
    · cases hstep
  · next hpc =>
    rw [← Option.some.inj hstep]
    rw [hpc] at hpoint
    exact ⟨⟨hpoint.joinable, hpoint.poll, nofun⟩, h.flag⟩
  · next hpc =>
    rw [← Option.some.inj hstep]
    rw [hpc] at hpoint
    exact ⟨⟨hpoint.joinable, hpoint.poll, nofun⟩, h.flag⟩
  · next hpc =>
    rw [lock_eq_some hstep]
    rw [hpc] at hpoint
    refine ⟨?_, h.flag⟩
    cases hpoint with
    | inl hgone => exact Or.inl (hgone.move _ _)
    | inr hrun => exact Or.inr ⟨hok rfl (Or.inr hpc) hrun.joinable, hrun.move _ _⟩
  · next hpc =>
    rw [hpc] at hpoint
    split at hstep
    · next hopen =>
      rw [← Option.some.inj hstep]
      exact ⟨(hpoint.resolve_left fun hgone => hgone.value hopen).1, h.flag⟩
    · next hopen =>
      rw [← Option.some.inj hstep]
      -- a thread that is still to be joined has stored `OPEN`
      have hgone := hpoint.resolve_right fun hrun => hopen (hrun.2.opened (Or.inl hrun.1))
      exact ⟨hgone.move _ _, h.flag⟩
  · next hpc =>
    rw [← Option.some.inj hstep]
    rw [hpc] at hpoint
    exact ⟨hpoint.move _ _, h.flag⟩
  · cases hstep

theorem wf_step {s t : State} {a : Action} (h : Wf s) (hok : StopsActive s a)
    (hstep : step s a = some t) : Wf t := by
  have hpoint := h.point
  cases a with
  | start =>
    obtain ⟨hpc, hlock⟩ := Option.ite_none_right_eq_some.mp hstep
    rw [lock_eq_some hlock]
    rw [hpc] at hpoint
    exact ⟨⟨hpoint.1.move _ _, hpoint.2⟩, h.flag⟩
  | startReturns =>
    obtain ⟨hpc, heq⟩ := Option.ite_none_right_eq_some.mp hstep
    rw [← Option.some.inj heq]
    rw [hpc] at hpoint
    refine ⟨⟨rfl, nofun, hpoint.2⟩, fun hd => ?_⟩
    change s.deactivated = true at hd
    rw [hpoint.2] at hd
    cases hd
  | startThrows =>
    obtain ⟨hpc, heq⟩ := Option.ite_none_right_eq_some.mp hstep
    rw [← Option.some.inj heq]
    rw [hpc] at hpoint
    exact ⟨⟨hpoint.1.move _ _, hpoint.2⟩, h.flag⟩
  | callShutdown =>
    obtain ⟨hpc, heq⟩ := Option.ite_none_right_eq_some.mp hstep
    rw [← Option.some.inj heq]
    rw [hpc] at hpoint
    exact ⟨hpoint.move s.locked _, h.flag⟩
  | callDestructor =>
    obtain ⟨hpc, heq⟩ := Option.ite_none_right_eq_some.mp hstep
    rw [← Option.some.inj heq]
    refine ⟨?_, h.flag⟩
    rcases hpc with hpc | hpc | hpc <;> rw [hpc] at hpoint
    · exact Or.inl (hpoint.1.move s.locked _)
    · exact Or.inr (hpoint.move s.locked _)
    · exact Or.inl (hpoint.move s.locked _)
  | owner => exact wf_stepOwner h hok hstep
  | poll => exact wf_stepPoll h hstep

/-- In every run in which the owner gets to stop the client only after the poll thread has set
`poll_thread_active_`, none of the three can happen. -/
theorem stops_cleanly {s : State} {acts : List Action}
    (hok : Conforms step StopsActive State.init acts)
    (hrun : run step State.init acts = some s) : Clean s := by
  have hstep : ∀ s a t, Wf s → StopsActive s a → step s a = some t → Wf t :=
    fun _ _ _ h hok hstep => wf_step h hok hstep
  exact (run_invariant_of_conforms hstep wf_init hok hrun).clean

/-- The poll thread is in its loop when the client is destroyed. -/
def destroyedWhilePolling : List Action :=
  [.start, .startReturns, .poll, .poll, .poll, .poll, .callDestructor, .owner, .owner, .owner, .owner,
    .poll, .poll, .owner, .owner, .owner]

theorem destroyedWhilePolling_clean :
    ∃ s, run step State.init destroyedWhilePolling = some s ∧ s.owner = .destroyed ∧ Clean s := by
  have hrun : run step State.init destroyedWhilePolling =
      some ((run step State.init destroyedWhilePolling).get (by decide)) := by
    simp
  exact ⟨_, hrun, by decide, stops_cleanly (by decide) hrun⟩

end Ra2yrcpp.MultiClient.Lifecycle
