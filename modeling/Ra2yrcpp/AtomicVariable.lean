import Mathlib.Algebra.Group.Action.Defs
import Mathlib.Algebra.Order.BigOperators.Group.Finset
import Ra2yrcpp.Reasoning.Transition

/-!
# `AtomicVariable`

A value with a mutex and a condition variable, which any number of threads read, store and wait for
at the same time.  What `acquire` returns is the mutex itself: its holder may write to the value,
and nobody is notified of that.
-/

open Ra2yrcpp.Reasoning

namespace Ra2yrcpp.AtomicVariable

variable {ι T : Type}

/-- `timed` says that the timeout is positive. -/
inductive Call (T : Type)
  | waitPred (p : T → Bool) (timed : Bool)
  | store (v : T)
  | get
  | acquire

/-- `wait`. -/
def Call.wait [DecidableEq T] (value : T) (timed : Bool) : Call T :=
  .waitPred (fun v => decide (v = value)) timed

/-- What a call returns with, or why a `wait_pred` returns. -/
inductive Answer (T : Type)
  | waited (p : T → Bool) (expired : Bool)
  | stored
  | value (v : T)

inductive Phase (T : Type)
  | outside
  /-- In the constructor of the `unique_lock`. -/
  | locking (c : Call T)
  | testing (p : T → Bool) (timed : Bool)
  /-- The predicate was false. -/
  | failed (p : T → Bool) (timed : Bool)
  | asleep (p : T → Bool) (timed : Bool)
  /-- About to lock the mutex again. -/
  | woken (p : T → Bool) (timed expired : Bool)
  | storing (v : T)
  /-- About to notify. -/
  | stored
  | reading
  /-- Has what `acquire` returned. -/
  | acquired
  /-- In the destructor of the `unique_lock`. -/
  | leaving (a : Answer T)

/-- The phase of a call that has locked the mutex. -/
def Call.locked : Call T → Phase T
  | .waitPred p timed => .testing p timed
  | .store v => .storing v
  | .get => .reading
  | .acquire => .acquired

/-- The phase after a `notify_all`. -/
def Phase.notified : Phase T → Phase T
  | .asleep p timed => .woken p timed false
  | φ => φ

structure State (ι T : Type) where
  value : T
  owner : Option ι := none
  phase : ι → Phase T := fun _ => .outside

def State.init (v : T) : State ι T := { value := v }

namespace State

variable [DecidableEq ι]

def goto (s : State ι T) (t : ι) (φ : Phase T) : State ι T :=
  { s with phase := Function.update s.phase t φ }

theorem goto_phase_self (s : State ι T) (t : ι) (φ : Phase T) : (s.goto t φ).phase t = φ := by
  unfold goto
  exact Function.update_self ..

theorem goto_phase_of_ne {t u : ι} (h : u ≠ t) (s : State ι T) (φ : Phase T) :
    (s.goto t φ).phase u = s.phase u := by
  unfold goto
  exact Function.update_of_ne h ..

def lock (s : State ι T) (t : ι) (φ : Phase T) : Option (State ι T) :=
  if s.owner = none then some { s.goto t φ with owner := some t } else none

def unlock (s : State ι T) (t : ι) (φ : Phase T) : State ι T :=
  { s.goto t φ with owner := none }

def notifyAll (s : State ι T) : State ι T :=
  { s with phase := fun u => (s.phase u).notified }

/-- A thread goes on by itself. -/
def next (s : State ι T) (t : ι) : Option (State ι T) :=
  match s.phase t with
  | .outside => none
  | .locking c => s.lock t c.locked
  | .testing p timed =>
    some (s.goto t (if p s.value then .leaving (.waited p false) else .failed p timed))
  | .failed p timed => some (s.unlock t (.asleep p timed))
  | .asleep _ _ => none
  | .woken p timed expired =>
    -- whatever the predicate says, `wait_for` returns after the timeout
    s.lock t (if expired then .leaving (.waited p true) else .testing p timed)
  | .storing v => some { s.goto t .stored with value := v }
  | .stored => some (s.notifyAll.goto t (.leaving .stored))
  | .reading => some (s.goto t (.leaving (.value s.value)))
  | .acquired => none
  | .leaving _ => some (s.unlock t .outside)

end State

inductive Move (T : Type)
  | call (c : Call T)
  | next
  /-- A wake-up without a notification. -/
  | wake
  | expire
  /-- A write through the pointer that `acquire` returned. -/
  | write (v : T)
  | release

section Runs

variable [DecidableEq ι]

def step (s : State ι T) (m : ι × Move T) : Option (State ι T) :=
  match m.2, s.phase m.1 with
  | .call c, .outside => some (s.goto m.1 (.locking c))
  | .next, _ => s.next m.1
  | .wake, .asleep p timed => some (s.goto m.1 (.woken p timed false))
  | .expire, .asleep p true => some (s.goto m.1 (.woken p true true))
  | .write v, .acquired => some { s with value := v }
  | .release, .acquired => some (s.unlock m.1 .outside)
  | _, _ => none

end Runs

/-- The phase has the mutex. -/
def Phase.holds : Phase T → Bool
  | .testing _ _ | .failed _ _ | .storing _ | .stored | .reading | .acquired | .leaving _ => true
  | .outside | .locking _ | .asleep _ _ | .woken _ _ _ => false

/-- A `wait_pred` that has not timed out has its predicate true, and a `get` has the value. -/
def Answer.Right (value : T) : Answer T → Prop
  | .waited p expired => expired = false → p value = true
  | .stored => True
  | .value v => v = value

/-- What a phase says about the value. -/
def Phase.Agrees (value : T) : Phase T → Prop
  | .failed p _ | .asleep p _ => p value = false
  | .leaving a => a.Right value
  | _ => True

/-! ## The mutex -/

section Mutex

variable [DecidableEq ι] {written : Prop} {s u : State ι T} {t : ι} {φ : Phase T}

/-- A thread that has not the mutex may sleep with a true predicate while another is about to
notify, and for good once somebody has written without a notification. -/
structure Inv (written : Prop) (s : State ι T) : Prop where
  owner : ∀ t, s.owner = some t ↔ (s.phase t).holds = true
  agrees : ∀ t, (s.phase t).Agrees s.value ∨
    (s.phase t).holds = false ∧ (written ∨ ∃ u, s.phase u = .stored)

omit [DecidableEq ι] in
theorem Inv.init (v : T) : Inv written (State.init v : State ι T) where
  owner _ := ⟨nofun, nofun⟩
  agrees _ := .inl trivial

omit [DecidableEq ι] in
theorem Inv.eq_of_holds (h : Inv written s) {t u : ι} (ht : (s.phase t).holds = true)
    (hu : (s.phase u).holds = true) : t = u :=
  Option.some.inj (((h.owner t).mpr ht).symm.trans ((h.owner u).mpr hu))

omit [DecidableEq ι] in
theorem Inv.not_holds (h : Inv written s) {t u : ι} (ht : (s.phase t).holds = true) (hu : u ≠ t) :
    (s.phase u).holds = false := by
  by_contra hnot
  exact hu (h.eq_of_holds (Bool.eq_true_of_not_eq_false hnot) ht)

omit [DecidableEq ι] in
theorem Inv.agrees_of_holds (h : Inv written s) (ht : (s.phase t).holds = true) :
    (s.phase t).Agrees s.value := by
  rcases h.agrees t with hagrees | ⟨hnot, -⟩
  · exact hagrees
  · rw [ht] at hnot
    cases hnot

/-- What the other threads say does not change where the value does not. -/
theorem Inv.agrees_update (h : Inv written s) (hstored : s.phase t ≠ .stored)
    (hφ : φ.Agrees s.value) (u : ι) :
    (Function.update s.phase t φ u).Agrees s.value ∨
      (Function.update s.phase t φ u).holds = false ∧
        (written ∨ ∃ w, Function.update s.phase t φ w = .stored) := by
  by_cases hu : u = t
  · subst hu
    rw [Function.update_self]
    exact .inl hφ
  · rw [Function.update_of_ne hu]
    refine (h.agrees u).imp id fun ⟨hnot, hwhy⟩ => ⟨hnot, hwhy.imp id fun ⟨w, hw⟩ => ⟨w, ?_⟩⟩
    have hne : w ≠ t := fun heq => hstored (heq ▸ hw)
    rwa [Function.update_of_ne hne]

theorem Inv.goto (h : Inv written s) (hholds : φ.holds = (s.phase t).holds)
    (hstored : s.phase t ≠ .stored) (hφ : φ.Agrees s.value) : Inv written (s.goto t φ) where
  owner u := by
    show s.owner = some u ↔ (Function.update s.phase t φ u).holds = true
    by_cases hu : u = t
    · subst hu
      rw [Function.update_self, hholds]
      exact h.owner u
    · rw [Function.update_of_ne hu]
      exact h.owner u
  agrees := h.agrees_update hstored hφ

theorem lock_eq_some : s.lock t φ = some u ↔
    s.owner = none ∧ { s.goto t φ with owner := some t } = u := by
  unfold State.lock
  rw [Option.ite_none_right_eq_some, Option.some.injEq]

theorem Inv.lock (h : Inv written s) (hholds : φ.holds = true) (hstored : s.phase t ≠ .stored)
    (hφ : φ.Agrees s.value) (hlock : s.lock t φ = some u) : Inv written u := by
  obtain ⟨hfree, rfl⟩ := lock_eq_some.mp hlock
  refine ⟨fun w => ?_, h.agrees_update hstored hφ⟩
  show some t = some w ↔ (Function.update s.phase t φ w).holds = true
  by_cases hw : w = t
  · subst hw
    rw [Function.update_self]
    exact iff_of_true rfl hholds
  · rw [Function.update_of_ne hw, ← h.owner w, hfree]
    exact iff_of_false (fun heq => hw (Option.some.inj heq).symm) nofun

theorem Inv.unlock (h : Inv written s) (hmine : (s.phase t).holds = true)
    (hholds : φ.holds = false) (hstored : s.phase t ≠ .stored) (hφ : φ.Agrees s.value) :
    Inv written (s.unlock t φ) where
  owner u := by
    show none = some u ↔ (Function.update s.phase t φ u).holds = true
    by_cases hu : u = t
    · subst hu
      rw [Function.update_self, hholds]
      exact iff_of_false nofun nofun
    · rw [Function.update_of_ne hu, h.not_holds hmine hu]
      exact iff_of_false nofun nofun
  agrees := h.agrees_update hstored hφ

/-- The assignment of `store`: the others may be asleep with a predicate that is true now. -/
theorem Inv.store (h : Inv written s) (hmine : (s.phase t).holds = true) (v : T) :
    Inv written { s.goto t .stored with value := v } where
  owner u := by
    show s.owner = some u ↔ (Function.update s.phase t .stored u).holds = true
    by_cases hu : u = t
    · subst hu
      rw [Function.update_self]
      exact iff_of_true ((h.owner u).mpr hmine) rfl
    · rw [Function.update_of_ne hu]
      exact h.owner u
  agrees u := by
    show (Function.update s.phase t .stored u).Agrees v ∨
      (Function.update s.phase t .stored u).holds = false ∧
        (written ∨ ∃ w, Function.update s.phase t .stored w = .stored)
    by_cases hu : u = t
    · subst hu
      rw [Function.update_self]
      exact .inl trivial
    · rw [Function.update_of_ne hu]
      exact .inr ⟨h.not_holds hmine hu, .inr ⟨t, Function.update_self _ _ _⟩⟩

omit [DecidableEq ι] in
theorem Inv.write (h : Inv written s) (hmine : s.phase t = .acquired) (hwritten : written)
    (v : T) : Inv written { s with value := v } where
  owner := h.owner
  agrees u := by
    have hholds : (s.phase t).holds = true := by rw [hmine]; rfl
    by_cases hu : u = t
    · subst hu
      show (s.phase u).Agrees v ∨ _
      rw [hmine]
      exact .inl trivial
    · exact .inr ⟨h.not_holds hholds hu, .inl hwritten⟩

omit [DecidableEq ι] in
theorem holds_notified (φ : Phase T) : φ.notified.holds = φ.holds := by cases φ <;> rfl

omit [DecidableEq ι] in
theorem agrees_notified {v : T} (h : φ.holds = false) : φ.notified.Agrees v := by
  cases φ <;> trivial

/-- The notification leaves nobody asleep. -/
theorem Inv.notify (h : Inv written s) (hmine : s.phase t = .stored) :
    Inv written (s.notifyAll.goto t (.leaving .stored)) := by
  have hholds : (s.phase t).holds = true := by rw [hmine]; rfl
  constructor
  · intro u
    show s.owner = some u ↔
      (Function.update (fun w => (s.phase w).notified) t (.leaving .stored) u).holds = true
    by_cases hu : u = t
    · subst hu
      rw [Function.update_self]
      exact iff_of_true ((h.owner u).mpr hholds) rfl
    · rw [Function.update_of_ne hu, holds_notified]
      exact h.owner u
  · intro u
    show (Function.update (fun w => (s.phase w).notified) t (.leaving .stored) u).Agrees s.value ∨ _
    by_cases hu : u = t
    · subst hu
      rw [Function.update_self]
      exact .inl trivial
    · rw [Function.update_of_ne hu]
      exact .inl (agrees_notified (h.not_holds hholds hu))

theorem locked_holds (c : Call T) : c.locked.holds = true := by cases c <;> rfl

theorem locked_agrees (c : Call T) (v : T) : c.locked.Agrees v := by cases c <;> trivial

theorem Inv.next (h : Inv written s) (hnext : s.next t = some u) : Inv written u := by
  unfold State.next at hnext
  split at hnext
  case h_1 | h_5 | h_10 => cases hnext
  case h_2 c hphase => exact h.lock (locked_holds c) (by simp [hphase]) (locked_agrees c _) hnext
  case h_3 p timed hphase =>
    cases hnext
    refine h.goto ?_ (by simp [hphase]) ?_
    · rw [hphase]
      split <;> rfl
    · split
      · next hp => exact fun _ => hp
      · next hp => exact Bool.eq_false_of_not_eq_true hp
  case h_4 p timed hphase =>
    -- it falls asleep with the mutex still locked since the test
    have hp := h.agrees_of_holds (t := t) (by rw [hphase]; rfl)
    rw [hphase] at hp
    cases hnext
    exact h.unlock (by rw [hphase]; rfl) rfl (by simp [hphase]) hp
  case h_6 p timed expired hphase =>
    -- after the timeout nothing is promised of the predicate
    refine h.lock ?_ (by simp [hphase]) ?_ hnext
    · split <;> rfl
    · split
      · exact fun hexpired => nomatch hexpired
      · trivial
  case h_7 v hphase =>
    cases hnext
    exact h.store (by rw [hphase]; rfl) v
  case h_8 hphase =>
    cases hnext
    exact h.notify hphase
  case h_9 hphase =>
    cases hnext
    exact h.goto (by rw [hphase]; rfl) (by simp [hphase]) rfl
  case h_11 a hphase =>
    cases hnext
    exact h.unlock (by rw [hphase]; rfl) rfl (by simp [hphase]) trivial

theorem Inv.step (h : Inv written s) {m : ι × Move T} (hm : ∀ v, m.2 = .write v → written)
    (hstep : step s m = some u) : Inv written u := by
  obtain ⟨t, m⟩ := m
  unfold AtomicVariable.step at hstep
  dsimp only at hstep hm
  split at hstep
  case h_1 c hphase =>
    cases hstep
    exact h.goto (by rw [hphase]; rfl) (by simp [hphase]) trivial
  case h_2 => exact h.next hstep
  case h_3 p timed hphase =>
    cases hstep
    exact h.goto (by rw [hphase]; rfl) (by simp [hphase]) trivial
  case h_4 p hphase =>
    cases hstep
    exact h.goto (by rw [hphase]; rfl) (by simp [hphase]) trivial
  case h_5 v hphase =>
    cases hstep
    exact h.write hphase (hm v rfl) v
  case h_6 hphase =>
    cases hstep
    exact h.unlock (by rw [hphase]; rfl) rfl (by simp [hphase]) trivial
  case h_7 => cases hstep

theorem Inv.run (h : Inv written s) {moves : List (ι × Move T)}
    (hwrites : ∀ m ∈ moves, ∀ v, m.2 = .write v → written)
    (hrun : Reasoning.run AtomicVariable.step s moves = some u) : Inv written u :=
  run_invariant_of_conforms (fun _ _ _ h hm hstep => Inv.step h hm hstep) h
    (conforms_of_forall_mem fun m hm _ => hwrites m hm) hrun

end Mutex

/-! ## The work that is left -/

/-- The steps that a call takes without another one to wait for, and those of the `n` threads that
it may wake up. -/
def Phase.rank (n : Nat) : Phase T → Nat
  | .outside | .asleep _ _ | .acquired => 0
  | .failed _ _ | .leaving _ | .locking .acquire => 1
  | .testing _ _ | .reading => 2
  | .woken _ _ _ | .locking (.waitPred _ _) | .locking .get => 3
  | .stored => 3 * n + 2
  | .storing _ => 3 * n + 3
  | .locking (.store _) => 3 * n + 4

theorem rank_le (n : Nat) (φ : Phase T) : φ.rank n ≤ 3 * n + 4 := by
  cases φ with
  | locking c => cases c <;> simp only [Phase.rank] <;> omega
  | _ =>
    simp only [Phase.rank]
    omega

theorem rank_locked_lt (n : Nat) (c : Call T) : c.locked.rank n < (Phase.locking c).rank n := by
  cases c <;> simp only [Call.locked, Phase.rank] <;> omega

theorem rank_notified_le (n : Nat) (φ : Phase T) : φ.notified.rank n ≤ φ.rank n + 3 := by
  cases φ with
  | asleep p timed => exact Nat.le_refl 3
  | _ => exact Nat.le_add_right _ 3

section Work

variable [Fintype ι]

def work (phase : ι → Phase T) : Nat := ∑ t, (phase t).rank (Fintype.card ι)

theorem work_le (phase : ι → Phase T) :
    work phase ≤ Fintype.card ι * (3 * Fintype.card ι + 4) := by
  have h := Finset.sum_le_card_nsmul Finset.univ
    (fun t => (phase t).rank (Fintype.card ι)) _ fun t _ => rank_le _ _
  rwa [smul_eq_mul, Finset.card_univ] at h

variable [DecidableEq ι] {s u : State ι T} {t : ι} {φ : Phase T}

theorem work_update_lt {phase : ι → Phase T}
    (h : φ.rank (Fintype.card ι) < (phase t).rank (Fintype.card ι)) :
    work (Function.update phase t φ) < work phase := by
  refine Finset.sum_lt_sum (fun w _ => ?_) ⟨t, Finset.mem_univ t, ?_⟩
  · by_cases hw : w = t
    · subst hw
      rw [Function.update_self]
      exact Nat.le_of_lt h
    · rw [Function.update_of_ne hw]
  · rwa [Function.update_self]

/-- A notification costs no more than the thread that notifies has left for it. -/
theorem work_notify_lt {phase : ι → Phase T} (h : phase t = .stored) :
    work (Function.update (fun w => (phase w).notified) t (.leaving .stored)) < work phase := by
  unfold work
  rw [← Finset.add_sum_erase _ _ (Finset.mem_univ t),
    ← Finset.add_sum_erase _ (fun w => (phase w).rank _) (Finset.mem_univ t),
    Function.update_self, h]
  have hothers : ∑ w ∈ Finset.univ.erase t,
      (Function.update (fun w => (phase w).notified) t (.leaving .stored) w).rank
        (Fintype.card ι) ≤
      ∑ w ∈ Finset.univ.erase t, ((phase w).rank (Fintype.card ι) + 3) := by
    refine Finset.sum_le_sum fun w hw => ?_
    rw [Function.update_of_ne (Finset.ne_of_mem_erase hw)]
    exact rank_notified_le _ _
  rw [Finset.sum_add_distrib, Finset.sum_const, smul_eq_mul,
    Finset.card_erase_of_mem (Finset.mem_univ t), Finset.card_univ] at hothers
  have hleaving : (Phase.leaving .stored : Phase T).rank (Fintype.card ι) = 1 := rfl
  have hstored : (Phase.stored : Phase T).rank (Fintype.card ι) = 3 * Fintype.card ι + 2 := rfl
  omega

theorem work_lock_lt (h : φ.rank (Fintype.card ι) < (s.phase t).rank (Fintype.card ι))
    (hlock : s.lock t φ = some u) : work u.phase < work s.phase := by
  obtain ⟨-, rfl⟩ := lock_eq_some.mp hlock
  exact work_update_lt h

theorem work_next_lt (hnext : s.next t = some u) : work u.phase < work s.phase := by
  unfold State.next at hnext
  split at hnext
  case h_1 | h_5 | h_10 => cases hnext
  case h_2 c hphase => exact work_lock_lt (by rw [hphase]; exact rank_locked_lt _ c) hnext
  case h_3 p timed hphase =>
    cases hnext
    refine work_update_lt ?_
    rw [hphase]
    split <;> exact Nat.lt_succ_self 1
  case h_6 p timed expired hphase =>
    refine work_lock_lt ?_ hnext
    rw [hphase]
    split
    · exact Nat.lt_of_succ_lt (Nat.lt_succ_self 2)
    · exact Nat.lt_succ_self 2
  case h_8 hphase =>
    cases hnext
    exact work_notify_lt hphase
  case h_4 hphase | h_7 hphase | h_9 hphase | h_11 hphase =>
    cases hnext
    refine work_update_lt ?_
    rw [hphase]
    simp only [Phase.rank]
    omega

theorem length_le_work {ts : List ι}
    (hrun : run step s (ts.map fun t => (t, .next)) = some u) : ts.length ≤ work s.phase := by
  induction ts generalizing s with
  | nil => exact Nat.zero_le _
  | cons t ts ih =>
    obtain ⟨w, hstep, hrest⟩ := run_cons_eq_some.mp hrun
    have hlt : work w.phase < work s.phase := work_next_lt hstep
    have hlen := ih hrest
    rw [List.length_cons]
    omega

end Work

/-! ## No wake-up is lost -/

section Settled

variable [DecidableEq ι] {s : State ι T}

/-- Everybody has returned, or waits for something that is not the case. -/
def State.Settled (s : State ι T) : Prop :=
  ∀ t, s.phase t = .outside ∨ ∃ p timed, s.phase t = .asleep p timed ∧ p s.value = false

/-- A thread that has the mutex goes on, unless it has got it from `acquire`. -/
theorem next_ne_none {t : ι} (h : (s.phase t).holds = true) (hnot : s.phase t ≠ .acquired) :
    s.next t ≠ none := by
  unfold State.next
  split <;> simp_all [Phase.holds]

theorem Inv.settled (h : Inv False s) (hstuck : ∀ t, s.next t = none)
    (hacquired : ∀ t, s.phase t ≠ .acquired) : s.Settled := by
  -- the mutex is free, or its owner would go on
  have hnobody : ∀ t, (s.phase t).holds = false := fun t =>
    Bool.eq_false_of_not_eq_true fun hholds => next_ne_none hholds (hacquired t) (hstuck t)
  have hfree : s.owner = none := by
    rcases howner : s.owner with _ | t
    · rfl
    · have hholds := (h.owner t).mp howner
      rw [hnobody t] at hholds
      cases hholds
  have hlock : ∀ t φ, s.lock t φ ≠ none := by
    intro t φ
    unfold State.lock
    rw [if_pos hfree]
    exact nofun
  intro t
  have hnext := hstuck t
  have hnot := hnobody t
  have hagrees := h.agrees t
  unfold State.next at hnext
  rcases hphase : s.phase t with _ | c | _ | _ | ⟨p, timed⟩ | _ | _ | _ | _ | _ | _ <;>
    rw [hphase] at hnext hnot hagrees
  case outside => exact .inl rfl
  case locking => exact absurd hnext (hlock t _)
  case woken => exact absurd hnext (hlock t _)
  case asleep =>
    refine .inr ⟨p, timed, rfl, ?_⟩
    rcases hagrees with hp | ⟨-, hwritten | ⟨w, hw⟩⟩
    · exact hp
    · exact hwritten.elim
    · -- nobody is about to notify
      have hholds := hnobody w
      rw [hw] at hholds
      cases hholds
  all_goals cases hnot

/-- However the threads are interleaved, at most one has the mutex, a `get` returns the value, and a
`wait_pred` returns only with its predicate true, unless its timeout has passed.  If nobody has
written through `acquire`, no wake-up is lost: the calls that are under way go on for a bounded
number of steps, in any order, and then only those wait whose predicate is false. -/
theorem waits_answered [Fintype ι] (v : T) {moves : List (ι × Move T)}
    (hrun : run step (State.init v) moves = some s) :
    (∀ t u, (s.phase t).holds = true → (s.phase u).holds = true → t = u) ∧
      (∀ t a, s.phase t = .leaving a → a.Right s.value) ∧
      ((∀ m ∈ moves, ∀ w, m.2 ≠ .write w) → ∀ (ts : List ι) (u : State ι T),
        run step s (ts.map fun t => (t, .next)) = some u →
          ts.length ≤ Fintype.card ι * (3 * Fintype.card ι + 4) ∧
            ((∀ t, u.next t = none) → (∀ t, u.phase t ≠ .acquired) → u.Settled)) := by
  have hinv : Inv True s := (Inv.init v).run (fun _ _ _ _ => trivial) hrun
  refine ⟨fun t u => hinv.eq_of_holds, fun t a hphase => ?_, fun hwrites ts u hnexts => ⟨?_, ?_⟩⟩
  · have hagrees := hinv.agrees_of_holds (t := t) (by rw [hphase]; rfl)
    rwa [hphase] at hagrees
  · exact (length_le_work hnexts).trans (work_le _)
  · intro hstuck hacquired
    have hunwritten : Inv False s := (Inv.init v).run hwrites hrun
    have hkept : Inv False u := hunwritten.run (fun m hm w hw => by
      obtain ⟨t, -, rfl⟩ := List.mem_map.mp hm
      cases hw) hnexts
    exact hkept.settled hstuck hacquired

/-- One thread waits until the other has stored, which it has. -/
def oneWaiter : List (Bool × Move Bool) :=
  [(false, .call (.wait true false)), (false, .next), (false, .next), (false, .next),
    (true, .call (.store true)), (true, .next), (true, .next), (true, .next), (true, .next)]

theorem oneWaiter_answered :
    ∃ s u : State Bool Bool, run step (State.init false) oneWaiter = some s ∧
      run step s ([false, false, false].map fun t => (t, .next)) = some u ∧ u.Settled := by
  have hrun : run step (State.init false) oneWaiter = some _ := rfl
  obtain ⟨-, -, hends⟩ := waits_answered false hrun
  refine ⟨_, _, rfl, rfl, (hends (by simp [oneWaiter]) [false, false, false] _ rfl).2 ?_ ?_⟩
  · intro t
    cases t <;> rfl
  · intro t
    cases t <;> nofun

end Settled

end Ra2yrcpp.AtomicVariable
