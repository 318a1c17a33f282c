import Mathlib.Logic.Function.Basic
import Ra2yrcpp.Reasoning.Transition

/-!
# The lock of the results map

`aq_results_queue` and its five users.  `AcquireData` holds a timed `std::unique_lock`, whose
constructor gives up when the time is over and says so in `owns_lock` only.
-/

namespace Ra2yrcpp.CommandManager.ResultsLock

open Reasoning

/-- The functions that call `aq_results_queue`. -/
inductive User
  | createQueue
  | destroyQueue
  | emplaceUserCommand
  | flushResults
  | getSystemState
  deriving DecidableEq, Repr

/-- `std::unique_lock(m, timeout)` keeps what `try_lock_for` returned. -/
structure UniqueLock where
  ownsLock : Bool
  deriving DecidableEq, Repr

/-- `util::acquire`; the constructor does not throw. -/
def acquire (locked : Bool) : Except String UniqueLock := .ok ⟨locked⟩

def aqResultsQueue (timeout : String) (locked : Bool) : Except String UniqueLock :=
  match acquire locked with
  | .ok l => .ok l
  | .error what => .error ("failed to acquire results queue within " ++ timeout ++ ": " ++ what)

inductive Point
  | idle
  /-- In `try_lock_for`. -/
  | acquiring (u : User)
  /-- Behind `aq_results_queue`. -/
  | inside (u : User) (l : UniqueLock)
  deriving DecidableEq, Repr

section Model

variable {Tid : Type} [DecidableEq Tid]

structure State (Tid : Type) where
  /-- The owner of `mut_results_`. -/
  mutex : Option Tid
  point : Tid → Point
  -- history
  /-- Accesses to the map: the thread, and the owner of the mutex then. -/
  touches : List (Tid × Option Tid)
  timedOut : List Tid
  /-- Calls of `aq_results_queue` that threw. -/
  failed : List (Tid × String)
  /-- Other exceptions that ended a user. -/
  thrown : List (Tid × String)

def State.init : State Tid := ⟨none, fun _ => .idle, [], [], [], []⟩

def State.goto (s : State Tid) (t : Tid) (p : Point) : State Tid :=
  { s with point := Function.update s.point t p }

inductive Action (Tid : Type)
  | call (t : Tid) (u : User)
  | lock (t : Tid)
  /-- `try_lock_for` returns `false`. -/
  | timeout (t : Tid)
  | touch (t : Tid)
  | release (t : Tid)
  deriving DecidableEq, Repr

/-- `aq_results_queue` returns its lock, or throws. -/
def returnLock (s : State Tid) (t : Tid) (u : User) : Except String UniqueLock → State Tid
  | .ok l => s.goto t (.inside u l)
  | .error what => { s.goto t .idle with failed := s.failed ++ [(t, what)] }

/-- The destructor of the lock unlocks what it owns.  `flush_results` calls `unlock` itself, which
throws without ownership. -/
def releaseLock (s : State Tid) (t : Tid) (u : User) (l : UniqueLock) : State Tid :=
  if l.ownsLock then { s.goto t .idle with mutex := none }
  else if u = .flushResults then
    { s.goto t .idle with thrown := s.thrown ++ [(t, "Operation not permitted")] }
  else s.goto t .idle

def step (limit : String) (s : State Tid) : Action Tid → Option (State Tid)
  | .call t u => if s.point t = .idle then some (s.goto t (.acquiring u)) else none
  | .lock t =>
    match s.point t with
    | .acquiring u =>
      -- before the time is over
      if s.mutex = none then
        some (returnLock { s with mutex := some t } t u (aqResultsQueue limit true))
      else none
    | _ => none
  | .timeout t =>
    match s.point t with
    | .acquiring u =>
      some (returnLock { s with timedOut := s.timedOut ++ [t] } t u (aqResultsQueue limit false))
    | _ => none
  | .touch t =>
    match s.point t with
    | .inside _ _ => some { s with touches := s.touches ++ [(t, s.mutex)] }
    | _ => none
  | .release t =>
    match s.point t with
    | .inside u l => some (releaseLock s t u l)
    | _ => none

/-- The threads behind `aq_results_queue` own the mutex, so there is one at most and the map is
touched by the owner only; attempts that timed out threw. -/
structure Guarded (s : State Tid) : Prop where
  owner : ∀ t u l, s.point t = .inside u l → s.mutex = some t
  exclusive : ∀ t t' u u' l l', s.point t = .inside u l → s.point t' = .inside u' l' → t = t'
  touched : ∀ e ∈ s.touches, e.2 = some e.1
  threw : s.failed.map Prod.fst = s.timedOut

/-- The mutex has an owner when a lock owns it, and this one only. -/
def OwnerHolds (s : State Tid) : Prop :=
  ∀ t, s.mutex = some t ↔ ∃ u l, s.point t = .inside u l ∧ l.ownsLock = true

def NoTimeout (_ : State Tid) : Action Tid → Prop
  | .timeout _ => False
  | _ => True

/-! ## Steps -/

variable {limit : String} {s s' : State Tid} {t : Tid} {u : User} {l : UniqueLock}

@[simp] theorem goto_point_self (p : Point) : (s.goto t p).point t = p := Function.update_self ..

theorem goto_point_of_ne {t' : Tid} (p : Point) (h : t' ≠ t) : (s.goto t p).point t' = s.point t' :=
  Function.update_of_ne h ..

/-- What each action does, and where it is enabled. -/
theorem step_cases {a : Action Tid} (h : step limit s a = some s') :
    (∃ t u, a = .call t u ∧ s.point t = .idle ∧ s' = s.goto t (.acquiring u)) ∨
    (∃ t u, a = .lock t ∧ s.point t = .acquiring u ∧ s.mutex = none ∧
      s' = { s.goto t (.inside u ⟨true⟩) with mutex := some t }) ∨
    (∃ t u, a = .timeout t ∧ s.point t = .acquiring u ∧
      s' = { s.goto t (.inside u ⟨false⟩) with timedOut := s.timedOut ++ [t] }) ∨
    (∃ t u l, a = .touch t ∧ s.point t = .inside u l ∧
      s' = { s with touches := s.touches ++ [(t, s.mutex)] }) ∨
    ∃ t u l, a = .release t ∧ s.point t = .inside u l ∧ s' = releaseLock s t u l := by
  cases a with
  | call t u =>
    obtain ⟨hidle, hs'⟩ := Option.ite_none_right_eq_some.mp h
    exact .inl ⟨t, u, rfl, hidle, (Option.some.inj hs').symm⟩
  | lock t =>
    simp only [step] at h
    split at h
    · next u hpoint =>
      obtain ⟨hfree, hs'⟩ := Option.ite_none_right_eq_some.mp h
      exact .inr (.inl ⟨t, u, rfl, hpoint, hfree, (Option.some.inj hs').symm⟩)
    · cases h
  | timeout t =>
    simp only [step] at h
    split at h
    · next u hpoint => exact .inr (.inr (.inl ⟨t, u, rfl, hpoint, (Option.some.inj h).symm⟩))
    · cases h
  | touch t =>
    simp only [step] at h
    split at h
    · next u l hpoint =>
      exact .inr (.inr (.inr (.inl ⟨t, u, l, rfl, hpoint, (Option.some.inj h).symm⟩)))
    · cases h
  | release t =>
    simp only [step] at h
    split at h
    · next u l hpoint =>
      exact .inr (.inr (.inr (.inr ⟨t, u, l, rfl, hpoint, (Option.some.inj h).symm⟩)))
    · cases h

/-! ## The owner -/

theorem releaseLock_point (s : State Tid) (t : Tid) (u : User) (l : UniqueLock) :
    (releaseLock s t u l).point = Function.update s.point t .idle := by
  unfold releaseLock
  split
  · rfl
  · split <;> rfl

theorem releaseLock_mutex (s : State Tid) (t : Tid) (u : User) (l : UniqueLock) :
    (releaseLock s t u l).mutex = if l.ownsLock then none else s.mutex := by
  unfold releaseLock
  split
  · rfl
  · split <;> rfl

theorem releaseLock_history (s : State Tid) (t : Tid) (u : User) (l : UniqueLock) :
    (releaseLock s t u l).touches = s.touches ∧ (releaseLock s t u l).failed = s.failed ∧
      (releaseLock s t u l).timedOut = s.timedOut := by
  unfold releaseLock
  split
  · exact ⟨rfl, rfl, rfl⟩
  · split <;> exact ⟨rfl, rfl, rfl⟩

/-- One thread goes to another point, and the mutex becomes or stays its own accordingly. -/
theorem OwnerHolds.update {p : Point} (h : OwnerHolds s)
    (hpoint : s'.point = Function.update s.point t p)
    (hother : ∀ t', t' ≠ t → (s'.mutex = some t' ↔ s.mutex = some t'))
    (hself : s'.mutex = some t ↔ ∃ u l, p = .inside u l ∧ l.ownsLock = true) : OwnerHolds s' := by
  intro t'
  rw [hpoint]
  by_cases ht : t' = t
  · rw [ht, Function.update_self]
    exact hself
  · rw [Function.update_of_ne ht, hother t' ht]
    exact h t'

theorem ownerHolds_step {a : Action Tid} (h : OwnerHolds s) (hstep : step limit s a = some s') :
    OwnerHolds s' := by
  rcases step_cases hstep with ⟨t, u, -, hpoint, rfl⟩ | ⟨t, u, -, hpoint, hfree, rfl⟩ |
    ⟨t, u, -, hpoint, rfl⟩ | ⟨t, u, l, -, -, rfl⟩ | ⟨t, u, l, -, hpoint, rfl⟩
  · refine h.update rfl (fun _ _ => Iff.rfl) ?_
    show s.mutex = some t ↔ _
    rw [h t, hpoint]
    simp
  · refine h.update rfl ?_ ?_
    · intro t' ht
      show some t = some t' ↔ s.mutex = some t'
      rw [hfree]
      simp [Ne.symm ht]
    · exact iff_of_true rfl ⟨u, ⟨true⟩, rfl, rfl⟩
  · refine h.update rfl (fun _ _ => Iff.rfl) ?_
    show s.mutex = some t ↔ _
    rw [h t, hpoint]
    simp
  · exact h
  · refine h.update (releaseLock_point s t u l) ?_ ?_
    · intro t' ht
      rw [releaseLock_mutex]
      split
      · next howns =>
        -- no other thread owned the mutex that is given back
        have hmine : s.mutex = some t := (h t).mpr ⟨u, l, hpoint, howns⟩
        rw [hmine]
        simp [Ne.symm ht]
      · exact Iff.rfl
    · rw [releaseLock_mutex]
      split
      · simp
      · next howns =>
        rw [h t, hpoint]
        simp [howns]

/-! ## Who is behind the lock -/

theorem Guarded.call (h : Guarded s) (t : Tid) (u : User) :
    Guarded (s.goto t (.acquiring u)) := by
  have hold : ∀ t' u' l', (s.goto t (.acquiring u)).point t' = .inside u' l' →
      s.point t' = .inside u' l' := by
    intro t' u' l' hinside
    by_cases ht : t' = t
    · rw [ht, goto_point_self] at hinside
      cases hinside
    · rwa [goto_point_of_ne _ ht] at hinside
  constructor
  · intro t' u' l' hinside
    exact h.owner t' u' l' (hold t' u' l' hinside)
  · intro t₁ t₂ u₁ u₂ l₁ l₂ h₁ h₂
    exact h.exclusive t₁ t₂ u₁ u₂ l₁ l₂ (hold t₁ u₁ l₁ h₁) (hold t₂ u₂ l₂ h₂)
  · exact h.touched
  · exact h.threw

/-- Where the mutex is free nobody is behind the lock. -/
theorem Guarded.lock (h : Guarded s) (hfree : s.mutex = none) (t : Tid) (u : User) :
    Guarded { s.goto t (.inside u ⟨true⟩) with mutex := some t } := by
  have honly : ∀ t' u' l', (s.goto t (.inside u ⟨true⟩)).point t' = .inside u' l' → t' = t := by
    intro t' u' l' hinside
    by_contra ht
    rw [goto_point_of_ne _ ht] at hinside
    -- whoever is behind the lock owns the mutex, which is free
    have howner := h.owner t' u' l' hinside
    rw [hfree] at howner
    cases howner
  constructor
  · intro t' u' l' hinside
    show some t = some t'
    rw [honly t' u' l' hinside]
  · intro t₁ t₂ u₁ u₂ l₁ l₂ h₁ h₂
    exact (honly t₁ u₁ l₁ h₁).trans (honly t₂ u₂ l₂ h₂).symm
  · exact h.touched
  · exact h.threw

omit [DecidableEq Tid] in
theorem Guarded.touch (h : Guarded s) (hpoint : s.point t = .inside u l) :
    Guarded { s with touches := s.touches ++ [(t, s.mutex)] } where
  owner := h.owner
  exclusive := h.exclusive
  touched := by
    intro e he
    cases List.mem_append.mp he with
    | inl hold => exact h.touched e hold
    | inr hnew =>
      rw [List.mem_singleton.mp hnew]
      exact h.owner t u l hpoint
  threw := h.threw

theorem Guarded.release (h : Guarded s) (hpoint : s.point t = .inside u l) :
    Guarded (releaseLock s t u l) := by
  have hnone : ∀ t' u' l', (releaseLock s t u l).point t' ≠ .inside u' l' := by
    intro t' u' l' hinside
    rw [releaseLock_point] at hinside
    by_cases ht : t' = t
    · rw [ht, Function.update_self] at hinside
      cases hinside
    · rw [Function.update_of_ne ht] at hinside
      exact ht (h.exclusive t' t u' u l' l hinside hpoint)
  obtain ⟨htouches, hfailed, htimedOut⟩ := releaseLock_history s t u l
  constructor
  · intro t' u' l' hinside
    exact absurd hinside (hnone t' u' l')
  · intro t₁ _ u₁ _ l₁ _ h₁ _
    exact absurd h₁ (hnone t₁ u₁ l₁)
  · rw [htouches]
    exact h.touched
  · rw [hfailed, htimedOut]
    exact h.threw

/-- A thread that has given up is behind the lock all the same. -/
theorem not_guarded_of_timeout (h : OwnerHolds s) (hpoint : s.point t = .acquiring u) :
    ¬Guarded { s.goto t (.inside u ⟨false⟩) with timedOut := s.timedOut ++ [t] } := by
  intro hguarded
  -- the owner of a mutex is behind the lock already, not waiting for it
  have hmine : s.mutex = some t := hguarded.owner t u ⟨false⟩ (goto_point_self _)
  obtain ⟨u', l', hinside, -⟩ := (h t).mp hmine
  rw [hpoint] at hinside
  cases hinside

theorem guarded_step_iff {a : Action Tid} (h : OwnerHolds s) (hguarded : Guarded s)
    (hstep : step limit s a = some s') : Guarded s' ↔ NoTimeout s a := by
  rcases step_cases hstep with ⟨t, u, rfl, hpoint, rfl⟩ | ⟨t, u, rfl, hpoint, hfree, rfl⟩ |
    ⟨t, u, rfl, hpoint, rfl⟩ | ⟨t, u, l, rfl, hpoint, rfl⟩ | ⟨t, u, l, rfl, hpoint, rfl⟩
  · exact iff_of_true (hguarded.call t u) trivial
  · exact iff_of_true (hguarded.lock hfree t u) trivial
  · exact iff_of_false (not_guarded_of_timeout h hpoint) id
  · exact iff_of_true (hguarded.touch hpoint) trivial
  · exact iff_of_true (hguarded.release hpoint) trivial

omit [DecidableEq Tid] in
theorem ownerHolds_init : OwnerHolds (State.init : State Tid) := by
  intro t
  apply iff_of_false
  · nofun
  · intro hinside
    obtain ⟨u, l, hpoint, -⟩ := hinside
    cases hpoint

omit [DecidableEq Tid] in
theorem guarded_init : Guarded (State.init : State Tid) where
  owner _ _ _ h := nomatch h
  exclusive _ _ _ _ _ _ h := nomatch h
  touched _ h := nomatch h
  threw := rfl

omit [DecidableEq Tid] in
theorem noTimeout_iff (s : State Tid) (a : Action Tid) : NoTimeout s a ↔ ∀ t, a ≠ .timeout t := by
  cases a with
  | timeout t => exact iff_of_false id fun h => h t rfl
  | call t u => exact iff_of_true trivial nofun
  | lock t => exact iff_of_true trivial nofun
  | touch t => exact iff_of_true trivial nofun
  | release t => exact iff_of_true trivial nofun

/-- In a run of any threads, whoever is behind `aq_results_queue` owns the mutex and is the only one
there, and what timed out has thrown, exactly when no attempt to take the mutex times out. -/
theorem always_guarded_iff (limit : String) {acts : List (Action Tid)}
    (hrun : run (step limit) State.init acts = some s) :
    Always (step limit) Guarded State.init acts ↔ ∀ t, Action.timeout t ∉ acts := by
  have hinv : ∀ (s : State Tid) a s', OwnerHolds s → step limit s a = some s' → OwnerHolds s' :=
    fun _ _ _ h hstep => ownerHolds_step h hstep
  have hiff : ∀ (s : State Tid) a s', OwnerHolds s → Guarded s → step limit s a = some s' →
      (Guarded s' ↔ NoTimeout s a) :=
    fun _ _ _ h hguarded hstep => guarded_step_iff h hguarded hstep
  rw [always_iff_conforms hinv hiff ownerHolds_init guarded_init hrun,
    conforms_iff_forall_mem noTimeout_iff hrun]
  constructor
  · intro h t ht
    exact h _ ht t rfl
  · intro h a ha t hat
    rw [hat] at ha
    exact h t ha

end Model

/-- The worker (0) creates a queue while a poll (1) looks one up. -/
def twoUsers : List (Action (Fin 2)) :=
  [.call 0 .createQueue, .lock 0, .call 1 .flushResults, .touch 0, .release 0, .lock 1, .touch 1,
    .release 1]

theorem twoUsers_guarded :
    ∃ s, run (step "5s") State.init twoUsers = some s ∧
      (Always (step "5s") Guarded State.init twoUsers ↔ ∀ t, Action.timeout t ∉ twoUsers) := by
  have hrun : (run (step "5s") State.init twoUsers).isSome := by decide
  obtain ⟨s, hs⟩ := Option.isSome_iff_exists.mp hrun
  exact ⟨s, hs, always_guarded_iff "5s" hs⟩

/-- The worker holds the lock for too long: the poll times out and reads the map all the same. -/
theorem timedOut_poll_touches_map :
    ∃ s, run (step "5s") State.init
        [.call 0 .createQueue, .lock 0, .touch 0, .call 1 .flushResults, .timeout 1, .touch 1] =
        some s ∧
      s.point 0 = .inside .createQueue ⟨true⟩ ∧ s.point 1 = .inside .flushResults ⟨false⟩ ∧
      s.touches = [((0 : Fin 2), some 0), (1, some 0)] ∧ s.failed = [] ∧ ¬Guarded s := by
  refine ⟨_, rfl, rfl, rfl, rfl, rfl, ?_⟩
  intro h
  have htouched := h.touched (1, some 0) (by decide)
  revert htouched
  decide

end Ra2yrcpp.CommandManager.ResultsLock
