import Ra2yrcpp.AtomicVariable

/-!
# `IOService::post`

Any number of threads post functions to the thread of an io service.  With `wait`, `post_` has a
flag `done` on its stack: the io thread stores it after the function, and the thread that posts
waits for it and then returns, which destroys the flag.
-/

open Ra2yrcpp.Reasoning

namespace Ra2yrcpp.IoService

open AtomicVariable (Phase)

variable {ι φ : Type}

/-- The two threads that use a flag. -/
inductive Party
  | poster
  | service
  deriving DecidableEq

abbrev Done := AtomicVariable.State Party Bool

structure Job (ι φ : Type) where
  thread : ι
  fn : φ
  wait : Bool

/-- Where a thread is in `post`. -/
inductive Poster (φ : Type)
  | outside
  | posting (fn : φ) (wait : Bool)
  /-- `do_post` has returned. -/
  | posted
  /-- In `done.wait(true)`. -/
  | waiting

inductive Io (ι φ : Type)
  | idle
  | running (j : Job ι φ)
  /-- In `done.store(true)`, with the flag of the thread. -/
  | setting (t : ι)

/-- The io thread after a step with the flag of the thread. -/
def Io.after (t : ι) : Phase Bool → Io ι φ
  | .outside => .idle
  | _ => .setting t

/-- `posted` and `ran` are histories. -/
structure State (ι φ : Type) where
  queue : List (Job ι φ) := []
  io : Io ι φ := .idle
  poster : ι → Poster φ := fun _ => .outside
  /-- The flags that are on the stack of their thread. -/
  done : ι → Option Done := fun _ => none
  /-- The io thread has used a flag that was gone. -/
  corrupt : Bool := false
  posted : List (Job ι φ) := []
  ran : List (Job ι φ) := []

def State.init : State ι φ := {}

namespace State

variable [DecidableEq ι]

def post (s : State ι φ) (t : ι) (fn : φ) (wait : Bool) : Option (State ι φ) :=
  match s.poster t with
  | .outside => some { s with poster := Function.update s.poster t (.posting fn wait) }
  | _ => none

def push (s : State ι φ) (j : Job ι φ) : State ι φ :=
  { s with queue := s.queue ++ [j], posted := s.posted ++ [j] }

def doPost (s : State ι φ) (t : ι) : Option (State ι φ) :=
  match s.poster t with
  | .posting fn wait =>
    some { s.push ⟨t, fn, wait⟩ with
      poster := Function.update s.poster t (if wait then .posted else .outside)
      done := if wait then Function.update s.done t (some (.init false)) else s.done }
  | _ => none

/-- The call of `done.wait(true)`. -/
def wait (s : State ι φ) (t : ι) : Option (State ι φ) :=
  match s.poster t, s.done t with
  | .posted, some D =>
    (AtomicVariable.step D (.poster, .call (.wait true false))).map fun D =>
      { s with
        poster := Function.update s.poster t .waiting
        done := Function.update s.done t (some D) }
  | _, _ => none

/-- A thread goes on in `done.wait(true)`, and when that returns so does `post_`. -/
def await (s : State ι φ) (t : ι) (m : AtomicVariable.Move Bool) : Option (State ι φ) :=
  match s.poster t, s.done t with
  | .waiting, some D =>
    (AtomicVariable.step D (.poster, m)).map fun D =>
      match D.phase .poster with
      | .outside =>
        { s with
          poster := Function.update s.poster t .outside
          done := Function.update s.done t none }
      | _ => { s with done := Function.update s.done t (some D) }
  | _, _ => none

def take (s : State ι φ) : Option (State ι φ) :=
  match s.io, s.queue with
  | .idle, j :: queue => some { s with io := .running j, queue := queue }
  | _, _ => none

/-- The io thread uses the flag of `t`. -/
def useDone (s : State ι φ) (t : ι) (m : AtomicVariable.Move Bool) : Option (State ι φ) :=
  match s.done t with
  | none => some { s with corrupt := true }
  | some D =>
    (AtomicVariable.step D (.service, m)).map fun D =>
      { s with
        io := .after t (D.phase .service)
        done := Function.update s.done t (some D) }

/-- The function has returned. -/
def returned (s : State ι φ) : Option (State ι φ) :=
  match s.io with
  | .running j =>
    if j.wait then { s with ran := s.ran ++ [j] }.useDone j.thread (.call (.store true))
    else some { s with io := .idle, ran := s.ran ++ [j] }
  | _ => none

def store (s : State ι φ) (m : AtomicVariable.Move Bool) : Option (State ι φ) :=
  match s.io with
  | .setting t => s.useDone t m
  | _ => none

end State

inductive Move (ι φ : Type)
  | post (t : ι) (fn : φ) (wait : Bool)
  | doPost (t : ι)
  | wait (t : ι)
  | await (t : ι) (m : AtomicVariable.Move Bool)
  | take
  | returned
  | store (m : AtomicVariable.Move Bool)

def State.move [DecidableEq ι] (s : State ι φ) : Move ι φ → Option (State ι φ)
  | .post t fn wait => s.post t fn wait
  | .doPost t => s.doPost t
  | .wait t => s.wait t
  | .await t m => s.await t m
  | .take => s.take
  | .returned => s.returned
  | .store m => s.store m

def step [DecidableEq ι] (s : State ι φ) (a : Move ι φ) : Option (State ι φ) :=
  if s.corrupt then none else s.move a

/-! ## One flag -/

/-- The phases of `done.wait(true)`. -/
def Waits : Phase Bool → Prop
  | .locking (.waitPred p timed) | .testing p timed | .failed p timed | .asleep p timed =>
    p = (fun v => decide (v = true)) ∧ timed = false
  | .woken p timed expired =>
    p = (fun v => decide (v = true)) ∧ timed = false ∧ expired = false
  | .leaving (.waited p expired) => p = (fun v => decide (v = true)) ∧ expired = false
  | _ => False

/-- The phases of `done.store(true)`, each with the value of the flag. -/
def Stores (value : Bool) : Phase Bool → Prop
  | .locking (.store v) | .storing v => v = true ∧ value = false
  | .stored | .leaving .stored => value = true
  | _ => False

theorem service_ne_poster : Party.service ≠ Party.poster := nofun

section Flag

variable {D D' : Done} {m : AtomicVariable.Move Bool}

/-- The flag is set while the thread returns. -/
def Returns (D : Done) : Prop :=
  ∃ p, D.phase .poster = .leaving (.waited p false) ∧ p = fun v => decide (v = true)

/-- A move of the thread that waits. -/
theorem waits_step (h : Waits (D.phase .poster))
    (hstep : AtomicVariable.step D (.poster, m) = some D') :
    D'.value = D.value ∧ D'.phase .service = D.phase .service ∧
      (Waits (D'.phase .poster) ∨ D'.phase .poster = .outside ∧ Returns D) := by
  have hgoto : ∀ ψ, (D.goto .poster ψ).value = D.value ∧
      (D.goto .poster ψ).phase .service = D.phase .service ∧
      (D.goto .poster ψ).phase .poster = ψ := fun ψ =>
    ⟨rfl, D.goto_phase_of_ne service_ne_poster ψ, D.goto_phase_self _ ψ⟩
  have hmoved : ∀ ψ, Waits ψ → D'.value = (D.goto .poster ψ).value →
      D'.phase = (D.goto .poster ψ).phase →
      D'.value = D.value ∧ D'.phase .service = D.phase .service ∧
        (Waits (D'.phase .poster) ∨ D'.phase .poster = .outside ∧ Returns D) := by
    intro ψ hψ hvalue hphase
    rw [hvalue, hphase, (hgoto ψ).2.1, (hgoto ψ).2.2]
    exact ⟨rfl, rfl, .inl hψ⟩
  unfold AtomicVariable.step at hstep
  dsimp only at hstep
  split at hstep
  case h_2 =>
    unfold AtomicVariable.State.next at hstep
    split at hstep
    case h_2 c hphase =>
      rw [hphase] at h
      obtain ⟨-, rfl⟩ := AtomicVariable.lock_eq_some.mp hstep
      cases c with
      | waitPred p timed => exact hmoved (.testing p timed) h rfl rfl
      | _ => exact h.elim
    case h_3 p timed hphase =>
      rw [hphase] at h
      cases hstep
      refine hmoved _ ?_ rfl rfl
      split
      · exact ⟨h.1, rfl⟩
      · exact h
    case h_4 p timed hphase =>
      rw [hphase] at h
      cases hstep
      exact hmoved (.asleep p timed) h rfl rfl
    case h_6 p timed expired hphase =>
      rw [hphase] at h
      obtain ⟨hp, htimed, rfl⟩ := h
      obtain ⟨-, rfl⟩ := AtomicVariable.lock_eq_some.mp hstep
      exact hmoved (.testing p timed) ⟨hp, htimed⟩ rfl rfl
    case h_11 a hphase =>
      -- the only answer of an untimed wait
      cases hstep
      refine ⟨rfl, (hgoto .outside).2.1, .inr ⟨(hgoto .outside).2.2, ?_⟩⟩
      rw [hphase] at h
      cases a with
      | waited p expired =>
        obtain ⟨hp, rfl⟩ := h
        exact ⟨p, hphase, hp⟩
      | _ => exact h.elim
    case h_1 | h_5 | h_10 => cases hstep
    case h_7 hphase | h_8 hphase | h_9 hphase =>
      rw [hphase] at h
      exact h.elim
  case h_3 p timed hphase =>
    rw [hphase] at h
    cases hstep
    exact hmoved (.woken p timed false) ⟨h.1, h.2, rfl⟩ rfl rfl
  case h_4 p hphase =>
    rw [hphase] at h
    cases h.2
  case h_1 hphase | h_5 hphase | h_6 hphase =>
    rw [hphase] at h
    exact h.elim
  case h_7 => cases hstep

/-- A move of the io thread: it has set the flag when it is done with it. -/
theorem stores_step (h : Stores D.value (D.phase .service))
    (hstep : AtomicVariable.step D (.service, m) = some D') :
    (D'.phase .poster = D.phase .poster ∨ D'.phase .poster = (D.phase .poster).notified) ∧
      (Stores D'.value (D'.phase .service) ∨ D'.phase .service = .outside ∧ D'.value = true) := by
  have hgoto : ∀ ψ, (D.goto .service ψ).phase .poster = D.phase .poster ∧
      (D.goto .service ψ).phase .service = ψ := fun ψ =>
    ⟨D.goto_phase_of_ne service_ne_poster.symm ψ, D.goto_phase_self _ ψ⟩
  have hmoved : ∀ ψ, Stores D'.value ψ → D'.phase = (D.goto .service ψ).phase →
      (D'.phase .poster = D.phase .poster ∨ D'.phase .poster = (D.phase .poster).notified) ∧
        (Stores D'.value (D'.phase .service) ∨
          D'.phase .service = .outside ∧ D'.value = true) := by
    intro ψ hψ hphase
    rw [hphase, (hgoto ψ).1, (hgoto ψ).2]
    exact ⟨.inl rfl, .inl hψ⟩
  unfold AtomicVariable.step at hstep
  dsimp only at hstep
  split at hstep
  case h_2 =>
    unfold AtomicVariable.State.next at hstep
    split at hstep
    case h_2 c hphase =>
      rw [hphase] at h
      obtain ⟨-, rfl⟩ := AtomicVariable.lock_eq_some.mp hstep
      cases c with
      | store v => exact hmoved (.storing v) h rfl
      | _ => exact h.elim
    case h_7 v hphase =>
      rw [hphase] at h
      cases hstep
      exact hmoved .stored h.1 rfl
    case h_8 hphase =>
      -- the notification is the only step that moves the other thread
      rw [hphase] at h
      cases hstep
      refine ⟨.inr (D.notifyAll.goto_phase_of_ne service_ne_poster.symm _), .inl ?_⟩
      rw [D.notifyAll.goto_phase_self]
      exact h
    case h_11 a hphase =>
      rw [hphase] at h
      cases hstep
      refine ⟨.inl (hgoto .outside).1, .inr ⟨(hgoto .outside).2, ?_⟩⟩
      cases a with
      | stored => exact h
      | _ => exact h.elim
    case h_1 | h_5 | h_10 => cases hstep
    case h_3 hphase | h_4 hphase | h_6 hphase | h_9 hphase =>
      rw [hphase] at h
      exact h.elim
  case h_1 hphase | h_3 hphase | h_4 hphase | h_5 hphase | h_6 hphase =>
    rw [hphase] at h
    exact h.elim
  case h_7 => cases hstep

/-- A notification does not end a wait. -/
theorem waits_notified {ψ : Phase Bool} (h : Waits ψ) : Waits ψ.notified := by
  cases ψ with
  | asleep p timed => exact ⟨h.1, h.2, rfl⟩
  | _ => exact h

theorem ne_write {t : Party} (h : D.phase t ≠ .acquired)
    (hstep : AtomicVariable.step D (t, m) = some D') (v : Bool) : m ≠ .write v := by
  rintro rfl
  unfold AtomicVariable.step at hstep
  dsimp only at hstep
  split at hstep
  case h_5 hphase => exact h hphase
  case h_7 => cases hstep
  all_goals contradiction

theorem step_call {t : Party} {c : AtomicVariable.Call Bool} (h : D.phase t = .outside) :
    AtomicVariable.step D (t, .call c) = some (D.goto t (.locking c)) := by
  unfold AtomicVariable.step
  dsimp only
  rw [h]

/-- Where the io thread is with a flag that is alive: it has yet to come to the function
(`pending`), stores the flag, or has stored it. -/
def ServiceAt (pending : Nat) (sets : Bool) (D : Done) : Prop :=
  pending = 1 ∧ sets = false ∧ D.phase .service = .outside ∧ D.value = false ∨
    pending = 0 ∧ sets = true ∧ Stores D.value (D.phase .service) ∨
    pending = 0 ∧ sets = false ∧ D.phase .service = .outside ∧ D.value = true

theorem ServiceAt.congr {pending : Nat} {sets : Bool} (h : ServiceAt pending sets D)
    (hvalue : D'.value = D.value) (hphase : D'.phase .service = D.phase .service) :
    ServiceAt pending sets D' := by
  unfold ServiceAt
  rw [hvalue, hphase]
  exact h

theorem ServiceAt.of_pending {n : Nat} {sets : Bool} (h : ServiceAt (n + 1) sets D) :
    n = 0 ∧ D.phase .service = .outside ∧ D.value = false := by
  rcases h with ⟨hone, -, houtside, hvalue⟩ | ⟨hzero, -⟩ | ⟨hzero, -⟩
  · exact ⟨Nat.succ.inj hone, houtside, hvalue⟩
  · exact absurd hzero (Nat.succ_ne_zero _)
  · exact absurd hzero (Nat.succ_ne_zero _)

theorem ServiceAt.of_sets {pending : Nat} (h : ServiceAt pending true D) :
    pending = 0 ∧ Stores D.value (D.phase .service) := by
  rcases h with ⟨-, hfalse, -⟩ | ⟨hpending, -, hstores⟩ | ⟨-, hfalse, -⟩
  · cases hfalse
  · exact ⟨hpending, hstores⟩
  · cases hfalse

/-- A wait returns only when the io thread is done with the flag. -/
theorem serviceAt_returns {pending : Nat} {sets : Bool} (hinv : AtomicVariable.Inv False D)
    (h : ServiceAt pending sets D) (hreturns : Returns D) : pending = 0 ∧ sets = false := by
  obtain ⟨p, hphase, rfl⟩ := hreturns
  have hholds : (D.phase .poster).holds = true := by rw [hphase]; rfl
  have hvalue : D.value = true := by
    have hagrees := hinv.agrees_of_holds hholds
    rw [hphase] at hagrees
    exact of_decide_eq_true (hagrees rfl)
  have hservice := hinv.not_holds hholds (u := .service) nofun
  rcases h with ⟨-, -, -, hfalse⟩ | ⟨-, -, hstores⟩ | ⟨hpending, hsets, -, -⟩
  · rw [hvalue] at hfalse
    cases hfalse
  · -- the flag is set, so the io thread has the mutex
    unfold Stores at hstores
    split at hstores
    case h_1 | h_2 =>
      rw [hvalue] at hstores
      cases hstores.2
    case h_3 hphase' | h_4 hphase' =>
      rw [hphase'] at hservice
      cases hservice
    case h_5 => exact hstores.elim
  · exact ⟨hpending, hsets⟩

end Flag

/-! ## All threads -/

namespace State

/-- The functions that have not returned, the first one first. -/
def jobs (s : State ι φ) : List (Job ι φ) :=
  match s.io with
  | .running j => j :: s.queue
  | _ => s.queue

end State

section Threads

variable [DecidableEq ι]

/-- The job is one that the thread waits for. -/
def Job.isOf (t : ι) (j : Job ι φ) : Bool := j.wait && decide (j.thread = t)

def Io.sets (t : ι) : Io ι φ → Bool
  | .setting u => decide (u = t)
  | _ => false

def State.pending (s : State ι φ) (t : ι) : Nat := s.jobs.countP (Job.isOf t)

/-- A thread and its flag. -/
def Matches (pending : Nat) (sets : Bool) : Poster φ → Option Done → Prop
  | .outside, none | .posting _ _, none => pending = 0 ∧ sets = false
  | .posted, some D =>
    AtomicVariable.Inv False D ∧ D.phase .poster = .outside ∧ ServiceAt pending sets D
  | .waiting, some D =>
    AtomicVariable.Inv False D ∧ Waits (D.phase .poster) ∧ ServiceAt pending sets D
  | _, _ => False

theorem Matches.of_outside {pending : Nat} {sets : Bool} {d : Option Done}
    (h : Matches pending sets (.outside : Poster φ) d) :
    d = none ∧ pending = 0 ∧ sets = false := by
  cases d with
  | none => exact ⟨rfl, h⟩
  | some D => exact h.elim

theorem Matches.of_posting {pending : Nat} {sets wait : Bool} {fn : φ} {d : Option Done}
    (h : Matches pending sets (.posting fn wait) d) :
    d = none ∧ pending = 0 ∧ sets = false := by
  cases d with
  | none => exact ⟨rfl, h⟩
  | some D => exact h.elim

theorem Matches.of_none {pending : Nat} {sets : Bool} {ψ : Poster φ}
    (h : Matches pending sets ψ none) : pending = 0 ∧ sets = false := by
  cases ψ with
  | outside | posting => exact h
  | posted | waiting => exact h.elim

/-- The io thread moves on with the flag, and leaves the thread alone but for a notification. -/
theorem Matches.flag {pending : Nat} {sets : Bool} {ψ : Poster φ} {D : Done}
    (h : Matches pending sets ψ (some D)) :
    AtomicVariable.Inv False D ∧ ServiceAt pending sets D ∧
      ∀ {D' : Done} {pending' : Nat} {sets' : Bool}, AtomicVariable.Inv False D' →
        (D'.phase .poster = D.phase .poster ∨ D'.phase .poster = (D.phase .poster).notified) →
        ServiceAt pending' sets' D' → Matches pending' sets' ψ (some D') := by
  cases ψ with
  | outside | posting => exact h.elim
  | posted =>
    obtain ⟨hinv, houtside, hservice⟩ := h
    refine ⟨hinv, hservice, fun hinv' hposter hservice' => ⟨hinv', ?_, hservice'⟩⟩
    rcases hposter with hposter | hposter <;> rw [hposter, houtside]
    rfl
  | waiting =>
    obtain ⟨hinv, hwaits, hservice⟩ := h
    refine ⟨hinv, hservice, fun hinv' hposter hservice' => ⟨hinv', ?_, hservice'⟩⟩
    rcases hposter with hposter | hposter <;> rw [hposter]
    · exact hwaits
    · exact waits_notified hwaits

structure Inv (s : State ι φ) : Prop where
  corrupt : s.corrupt = false
  order : s.posted = s.ran ++ s.jobs
  each : ∀ t, Matches (s.pending t) (s.io.sets t) (s.poster t) (s.done t)

theorem Inv.init : Inv (State.init : State ι φ) where
  corrupt := rfl
  order := rfl
  each _ := ⟨rfl, rfl⟩

variable {s s' : State ι φ} {t : ι}

/-- A step of one thread, or of the io thread for one. -/
theorem Inv.of_step (h : Inv s) (hcorrupt : s'.corrupt = false)
    (horder : s'.posted = s'.ran ++ s'.jobs)
    (hothers : ∀ u, u ≠ t → s'.pending u = s.pending u ∧ s'.io.sets u = s.io.sets u ∧
      s'.poster u = s.poster u ∧ s'.done u = s.done u)
    (hmine : Matches (s'.pending t) (s'.io.sets t) (s'.poster t) (s'.done t)) : Inv s' where
  corrupt := hcorrupt
  order := horder
  each u := by
    by_cases hu : u = t
    · subst hu
      exact hmine
    · obtain ⟨hpending, hsets, hposter, hdone⟩ := hothers u hu
      rw [hpending, hsets, hposter, hdone]
      exact h.each u

theorem Inv.post (h : Inv s) {fn : φ} {wait : Bool} (hstep : s.post t fn wait = some s') :
    Inv s' := by
  unfold State.post at hstep
  split at hstep
  · next hposter =>
    cases hstep
    have hmine := h.each t
    rw [hposter] at hmine
    refine h.of_step (t := t) h.corrupt h.order
      (fun u hu => ⟨rfl, rfl, Function.update_of_ne hu _ _, rfl⟩) ?_
    obtain ⟨hdone, haway⟩ := hmine.of_outside
    show Matches (s.pending t) (s.io.sets t) (Function.update s.poster t _ t) (s.done t)
    rw [Function.update_self, hdone]
    exact haway
  · cases hstep

theorem isOf_of_ne {u : ι} (h : u ≠ t) (fn : φ) (wait : Bool) :
    (Job.mk t fn wait).isOf u = false := by
  unfold Job.isOf
  rw [decide_eq_false (Ne.symm h), Bool.and_false]

theorem isOf_self (fn : φ) (wait : Bool) : (Job.mk t fn wait).isOf t = wait := by
  unfold Job.isOf
  rw [decide_eq_true rfl, Bool.and_true]

omit [DecidableEq ι] in
theorem jobs_push (s : State ι φ) (j : Job ι φ) : (s.push j).jobs = s.jobs ++ [j] := by
  unfold State.push State.jobs
  cases s.io <;> rfl

theorem pending_push (s : State ι φ) (j : Job ι φ) (u : ι) :
    (s.push j).pending u = s.pending u + if j.isOf u then 1 else 0 := by
  unfold State.pending
  rw [jobs_push, List.countP_append, List.countP_singleton]

theorem Inv.doPost (h : Inv s) (hstep : s.doPost t = some s') : Inv s' := by
  unfold State.doPost at hstep
  split at hstep
  · next fn wait hposter =>
    cases hstep
    have hmine := h.each t
    rw [hposter] at hmine
    obtain ⟨hdone, hpending, hsets⟩ := hmine.of_posting
    have hcount := pending_push s ⟨t, fn, wait⟩ t
    rw [isOf_self, hpending, Nat.zero_add] at hcount
    refine h.of_step (t := t) h.corrupt ?_
      (fun u hu => ⟨?_, rfl, Function.update_of_ne hu _ _, ?_⟩) ?_
    · show s.posted ++ [_] = s.ran ++ (s.push ⟨t, fn, wait⟩).jobs
      rw [jobs_push, h.order, List.append_assoc]
    · refine (pending_push s ⟨t, fn, wait⟩ u).trans ?_
      rw [isOf_of_ne hu]
      rfl
    · cases wait
      · rfl
      · exact Function.update_of_ne hu _ _
    · cases wait with
      | false =>
        show Matches ((s.push ⟨t, fn, false⟩).pending t) (s.io.sets t)
          (Function.update s.poster t .outside t) (s.done t)
        rw [hcount, Function.update_self, hdone]
        exact ⟨rfl, hsets⟩
      | true =>
        show Matches ((s.push ⟨t, fn, true⟩).pending t) (s.io.sets t)
          (Function.update s.poster t .posted t) (Function.update s.done t (some (.init false)) t)
        rw [hcount, Function.update_self, Function.update_self]
        exact ⟨.init false, rfl, .inl ⟨rfl, hsets, rfl, rfl⟩⟩
  · cases hstep

theorem Inv.wait (h : Inv s) (hstep : s.wait t = some s') : Inv s' := by
  unfold State.wait at hstep
  split at hstep
  · next D hposter hdone =>
    have hmine := h.each t
    rw [hposter, hdone] at hmine
    obtain ⟨hinv, houtside, hservice⟩ := hmine
    rw [step_call houtside] at hstep
    cases hstep
    refine h.of_step (t := t) h.corrupt h.order (fun u hu =>
      ⟨rfl, rfl, Function.update_of_ne hu _ _, Function.update_of_ne hu _ _⟩) ?_
    show Matches (s.pending t) (s.io.sets t) (Function.update s.poster t .waiting t)
      (Function.update s.done t (some (D.goto .poster _)) t)
    rw [Function.update_self, Function.update_self]
    refine ⟨hinv.goto (by rw [houtside]; rfl) (by rw [houtside]; nofun) trivial, ?_,
      hservice.congr rfl (D.goto_phase_of_ne service_ne_poster _)⟩
    rw [D.goto_phase_self]
    exact ⟨rfl, rfl⟩
  · cases hstep

theorem Inv.await (h : Inv s) {m : AtomicVariable.Move Bool} (hstep : s.await t m = some s') :
    Inv s' := by
  unfold State.await at hstep
  split at hstep
  · next D hposter hdone =>
    have hmine := h.each t
    rw [hposter, hdone] at hmine
    obtain ⟨hinv, hwaits, hservice⟩ := hmine
    obtain ⟨D', hmove, rfl⟩ := Option.map_eq_some_iff.mp hstep
    have hnot : D.phase .poster ≠ .acquired := fun heq => by
      rw [heq] at hwaits
      exact hwaits
    have hinv' := hinv.step (fun v hv => ne_write hnot hmove v hv) hmove
    obtain ⟨hvalue, hphase, hwaits' | ⟨houtside, hreturns⟩⟩ := waits_step hwaits hmove
    · split
      · next houtside =>
        rw [houtside] at hwaits'
        exact hwaits'.elim
      · refine h.of_step (t := t) h.corrupt h.order (fun u hu =>
          ⟨rfl, rfl, rfl, Function.update_of_ne hu _ _⟩) ?_
        show Matches (s.pending t) (s.io.sets t) (s.poster t) (Function.update s.done t (some D') t)
        rw [Function.update_self, hposter]
        exact ⟨hinv', hwaits', hservice.congr hvalue hphase⟩
    · -- `post_` returns, and its flag is gone
      rw [houtside]
      refine h.of_step (t := t) h.corrupt h.order (fun u hu =>
        ⟨rfl, rfl, Function.update_of_ne hu _ _, Function.update_of_ne hu _ _⟩) ?_
      show Matches (s.pending t) (s.io.sets t) (Function.update s.poster t .outside t)
        (Function.update s.done t none t)
      rw [Function.update_self, Function.update_self]
      exact serviceAt_returns hinv hservice hreturns
  · cases hstep

theorem Inv.take (h : Inv s) (hstep : s.take = some s') : Inv s' := by
  unfold State.take at hstep
  split at hstep
  · next j queue hio hqueue =>
    cases hstep
    have hjobs : s.jobs = j :: queue := by
      unfold State.jobs
      rw [hio, hqueue]
    have horder := h.order
    rw [hjobs] at horder
    refine ⟨h.corrupt, horder, fun u => ?_⟩
    have hmine := h.each u
    unfold State.pending at hmine
    rw [hjobs, hio] at hmine
    exact hmine
  · cases hstep

omit [DecidableEq ι] in
theorem jobs_running {j : Job ι φ} (hio : s.io = .running j) : s.jobs = j :: s.queue := by
  unfold State.jobs
  rw [hio]

theorem pending_running {j : Job ι φ} (hio : s.io = .running j) (u : ι) :
    s.pending u = s.queue.countP (Job.isOf u) + if j.isOf u then 1 else 0 := by
  unfold State.pending
  rw [jobs_running hio, List.countP_cons]

theorem Inv.returned (h : Inv s) (hstep : s.returned = some s') : Inv s' := by
  unfold State.returned at hstep
  split at hstep
  · next j hio =>
    obtain ⟨t, fn, wait⟩ := j
    have horder : s.posted = (s.ran ++ [⟨t, fn, wait⟩]) ++ s.queue := by
      rw [h.order, jobs_running hio, List.append_assoc, List.singleton_append]
    have hpending := pending_running hio
    have hsets : ∀ u, s.io.sets u = false := fun u => by rw [hio]; rfl
    have hothers : ∀ u, u ≠ t → s.queue.countP (Job.isOf u) = s.pending u := by
      intro u hu
      rw [hpending, isOf_of_ne hu]
      rfl
    have hmine := h.each t
    rw [hpending t, isOf_self, hsets] at hmine
    cases wait with
    | false =>
      cases hstep
      exact h.of_step (t := t) h.corrupt horder
        (fun u hu => ⟨hothers u hu, (hsets u).symm, rfl, rfl⟩) hmine
    | true =>
      -- the thread waits, so its flag is alive
      rw [if_pos rfl] at hstep
      unfold State.useDone at hstep
      dsimp only at hstep
      cases hdone : s.done t with
      | none =>
        rw [hdone] at hmine
        exact absurd hmine.of_none.1 (Nat.succ_ne_zero _)
      | some D =>
        rw [hdone] at hmine hstep
        obtain ⟨hinv, hservice, hmoves⟩ := hmine.flag
        obtain ⟨hcount, houtside, hvalue⟩ := hservice.of_pending
        dsimp only at hstep
        rw [step_call houtside, Option.map_some, D.goto_phase_self] at hstep
        cases hstep
        refine h.of_step (t := t) h.corrupt horder (fun u hu =>
          ⟨hothers u hu, ?_, rfl, Function.update_of_ne hu _ _⟩) ?_
        · rw [hsets]
          exact decide_eq_false (Ne.symm hu)
        · show Matches (s.queue.countP (Job.isOf t)) (decide (t = t)) (s.poster t)
            (Function.update s.done t (some (D.goto .service _)) t)
          rw [Function.update_self, hcount, decide_eq_true rfl]
          refine hmoves (hinv.goto (by rw [houtside]; rfl) (by rw [houtside]; nofun) trivial)
            (.inl (D.goto_phase_of_ne service_ne_poster.symm _))
            (.inr (.inl ⟨rfl, rfl, ?_⟩))
          rw [D.goto_phase_self]
          exact ⟨rfl, hvalue⟩
  · cases hstep

theorem Inv.store (h : Inv s) {m : AtomicVariable.Move Bool} (hstep : s.store m = some s') :
    Inv s' := by
  unfold State.store at hstep
  split at hstep
  · next t hio =>
    have hjobs : s.jobs = s.queue := by
      unfold State.jobs
      rw [hio]
    have hmine := h.each t
    have hsets : s.io.sets t = true := by
      rw [hio]
      exact decide_eq_true rfl
    have hothers : ∀ u, u ≠ t → s.io.sets u = false := by
      intro u hu
      rw [hio]
      exact decide_eq_false (Ne.symm hu)
    rw [hsets] at hmine
    unfold State.useDone at hstep
    cases hdone : s.done t with
    | none =>
      rw [hdone] at hmine
      exact nomatch hmine.of_none.2
    | some D =>
      rw [hdone] at hmine hstep
      obtain ⟨hinv, hservice, hmoves⟩ := hmine.flag
      obtain ⟨hpending, hstores⟩ := hservice.of_sets
      obtain ⟨D', hmove, rfl⟩ := Option.map_eq_some_iff.mp hstep
      have hnot : D.phase .service ≠ .acquired := fun heq => by
        rw [heq] at hstores
        exact hstores
      have hinv' := hinv.step (fun v hv => ne_write hnot hmove v hv) hmove
      obtain ⟨hposter, hstores' | ⟨houtside, hvalue⟩⟩ := stores_step hstores hmove
      · have hio' : Io.after t (D'.phase .service) = s.io := by
          unfold Io.after
          split
          · next houtside =>
            rw [houtside] at hstores'
            exact hstores'.elim
          · exact hio.symm
        rw [hio']
        refine h.of_step (t := t) h.corrupt h.order (fun u hu =>
          ⟨rfl, rfl, rfl, Function.update_of_ne hu _ _⟩) ?_
        show Matches (s.pending t) (s.io.sets t) (s.poster t)
          (Function.update s.done t (some D') t)
        rw [Function.update_self, hpending, hsets]
        exact hmoves hinv' hposter (.inr (.inl ⟨rfl, rfl, hstores'⟩))
      · -- the store is over, and the io thread is free again
        rw [houtside]
        have horder := h.order
        rw [hjobs] at horder
        unfold State.pending at hpending
        rw [hjobs] at hpending
        refine h.of_step (t := t) h.corrupt horder (fun u hu =>
          ⟨?_, (hothers u hu).symm, rfl, Function.update_of_ne hu _ _⟩) ?_
        · unfold State.pending
          rw [hjobs]
          rfl
        · show Matches (s.queue.countP (Job.isOf t)) false (s.poster t)
            (Function.update s.done t (some D') t)
          rw [Function.update_self, hpending]
          exact hmoves hinv' hposter (.inr (.inr ⟨rfl, rfl, houtside, hvalue⟩))
  · cases hstep

theorem Inv.step (h : Inv s) {a : Move ι φ} (hstep : step s a = some s') : Inv s' := by
  unfold IoService.step at hstep
  rw [h.corrupt, if_neg nofun] at hstep
  cases a with
  | post t fn wait => exact h.post hstep
  | doPost t => exact h.doPost hstep
  | wait t => exact h.wait hstep
  | await t m => exact h.await hstep
  | take => exact h.take hstep
  | returned => exact h.returned hstep
  | store m => exact h.store hstep

theorem inv_run {moves : List (Move ι φ)} (hrun : run IoService.step State.init moves = some s) :
    Inv s :=
  run_invariant (fun _ _ _ h hstep => Inv.step h hstep) .init hrun

/-! ## Nobody waits for ever -/

/-- All that a thread can do is to post another function. -/
def State.Stuck (s : State ι φ) : Prop :=
  ∀ a, (∀ t fn wait, a ≠ Move.post t fn wait) → IoService.step s a = none

theorem Inv.blocked (h : Inv s) (hstuck : s.Stuck) {a : Move ι φ}
    (ha : ∀ t fn wait, a ≠ Move.post t fn wait) : s.move a = none := by
  have hnone := hstuck a ha
  unfold IoService.step at hnone
  rwa [h.corrupt, if_neg nofun] at hnone

theorem Inv.outside_or_waiting (h : Inv s) (hstuck : s.Stuck) (t : ι) :
    s.poster t = .outside ∨ ∃ D, s.done t = some D ∧ AtomicVariable.Inv False D ∧
      Waits (D.phase .poster) ∧ D.next .poster = none := by
  have hmine := h.each t
  have hpost : s.doPost t = none := h.blocked hstuck (a := .doPost t) nofun
  have hwait : s.wait t = none := h.blocked hstuck (a := .wait t) nofun
  have hawait : s.await t .next = none := h.blocked hstuck (a := .await t .next) nofun
  unfold State.doPost at hpost
  unfold State.wait at hwait
  unfold State.await at hawait
  rcases hposter : s.poster t with _ | ⟨fn, wait⟩ | _ | _ <;>
    rcases hdone : s.done t with _ | D <;>
    rw [hposter] at hmine hpost hwait hawait <;> rw [hdone] at hmine hwait hawait
  case outside.none | outside.some => exact .inl rfl
  case posting.none | posting.some => cases hpost
  case posted.none | waiting.none => exact hmine.elim
  case posted.some =>
    dsimp only at hwait
    rw [step_call hmine.2.1] at hwait
    cases hwait
  case waiting.some =>
    exact .inr ⟨D, rfl, hmine.1, hmine.2.1, Option.map_eq_none_iff.mp hawait⟩

/-- Where the io thread cannot go on with a flag either, nobody has it locked. -/
theorem Inv.settled (h : Inv s) (hstuck : s.Stuck) {t : ι} {D : Done} (hdone : s.done t = some D)
    (hservice : D.next .service = none) (hacquired : D.phase .service ≠ .acquired) :
    D.Settled := by
  obtain ⟨hinv, -, -⟩ := (hdone ▸ h.each t : Matches _ _ _ (some D)).flag
  rcases h.outside_or_waiting hstuck t with houtside | ⟨D', hdone', -, hwaits, hposter⟩
  · have hmine := h.each t
    rw [houtside, hdone] at hmine
    exact hmine.elim
  · rw [hdone] at hdone'
    cases hdone'
    refine hinv.settled (fun u => ?_) fun u => ?_
    · cases u
      · exact hposter
      · exact hservice
    · cases u
      · intro hphase
        rw [hphase] at hwaits
        exact hwaits
      · exact hacquired

/-- The io thread has nothing to do: whoever waits for a flag that it stores goes on, or it does. -/
theorem Inv.io_idle (h : Inv s) (hstuck : s.Stuck) : s.io = .idle := by
  have hreturned : s.returned = none := h.blocked hstuck (a := .returned) nofun
  have hstore : s.store .next = none := h.blocked hstuck (a := .store .next) nofun
  unfold State.returned at hreturned
  unfold State.store at hstore
  cases hio : s.io with
  | idle => rfl
  | running j =>
    rw [hio] at hreturned
    obtain ⟨t, fn, wait⟩ := j
    cases wait with
    | false => cases hreturned
    | true =>
      have hmine := h.each t
      dsimp only at hreturned
      rw [if_pos rfl] at hreturned
      unfold State.useDone at hreturned
      dsimp only at hreturned
      cases hdone : s.done t with
      | none =>
        rw [hdone] at hreturned
        cases hreturned
      | some D =>
        rw [hdone] at hmine hreturned
        obtain ⟨-, hservice, -⟩ := hmine.flag
        rw [pending_running hio, isOf_self] at hservice
        obtain ⟨-, houtside, -⟩ := hservice.of_pending
        dsimp only at hreturned
        rw [step_call houtside] at hreturned
        cases hreturned
  | setting t =>
    rw [hio] at hstore
    have hmine := h.each t
    rw [hio] at hmine
    dsimp only at hstore
    unfold State.useDone at hstore
    cases hdone : s.done t with
    | none =>
      rw [hdone] at hstore
      cases hstore
    | some D =>
      rw [hdone] at hmine hstore
      obtain ⟨-, hservice, -⟩ := hmine.flag
      rw [show (Io.setting t : Io ι φ).sets t = true from decide_eq_true rfl] at hservice
      obtain ⟨-, hstores⟩ := hservice.of_sets
      have hsettled := h.settled hstuck hdone (Option.map_eq_none_iff.mp hstore) (fun heq => by
        rw [heq] at hstores
        exact hstores)
      rcases hsettled .service with hphase | ⟨p, timed, hphase, -⟩ <;> rw [hphase] at hstores <;>
        exact hstores.elim

theorem Inv.finished (h : Inv s) (hstuck : s.Stuck) :
    s.jobs = [] ∧ ∀ t, s.poster t = .outside := by
  have hio := h.io_idle hstuck
  have htake : s.take = none := h.blocked hstuck (a := .take) nofun
  have hjobs : s.jobs = [] := by
    unfold State.take at htake
    unfold State.jobs
    rw [hio] at htake ⊢
    cases hqueue : s.queue with
    | nil => rfl
    | cons j queue =>
      rw [hqueue] at htake
      cases htake
  refine ⟨hjobs, fun t => ?_⟩
  rcases h.outside_or_waiting hstuck t with houtside | ⟨D, hdone, hinv, hwaits, hposter⟩
  · exact houtside
  · have hmine := h.each t
    unfold State.pending at hmine
    rw [hdone, hjobs, hio] at hmine
    obtain ⟨-, hservice, -⟩ := hmine.flag
    rcases hservice with ⟨hzero, -⟩ | ⟨-, hfalse, -⟩ | ⟨-, -, houtside, hvalue⟩
    · cases hzero
    · cases hfalse
    · -- its flag is set, so it would not have gone to sleep
      have hsettled := h.settled hstuck hdone (by
        unfold AtomicVariable.State.next
        rw [houtside]) (by rw [houtside]; nofun)
      rcases hsettled .poster with hphase | ⟨p, timed, hphase, hp⟩ <;> rw [hphase] at hwaits
      · exact hwaits.elim
      · obtain ⟨rfl, -⟩ := hwaits
        rw [hvalue] at hp
        cases hp

/-- Whatever threads post at the same time, the functions return in the order in which they were
posted, and `post` with `wait` returns only when its function has returned and the io thread is done
with its flag, which it never uses when it is gone.  Nobody waits for ever: while a thread is in
`post` or a function has not returned, some thread can go on. -/
theorem post_returns {moves : List (Move ι φ)}
    (hrun : run IoService.step State.init moves = some s) :
    s.corrupt = false ∧ s.posted = s.ran ++ s.jobs ∧
      (∀ t, s.poster t = .outside →
        (∀ j ∈ s.jobs, j.thread = t → j.wait = false) ∧ s.io.sets t = false) ∧
      (s.Stuck → s.ran = s.posted ∧ ∀ t, s.poster t = .outside) := by
  have hinv := inv_run hrun
  refine ⟨hinv.corrupt, hinv.order, fun t houtside => ?_, fun hstuck => ?_⟩
  · have hmine := hinv.each t
    rw [houtside] at hmine
    obtain ⟨-, hpending, hsets⟩ := hmine.of_outside
    refine ⟨fun j hj hthread => ?_, hsets⟩
    have hnot := List.countP_eq_zero.mp hpending j hj
    unfold Job.isOf at hnot
    rw [decide_eq_true hthread, Bool.and_true] at hnot
    exact Bool.eq_false_of_not_eq_true hnot
  · obtain ⟨hjobs, houtside⟩ := hinv.finished hstuck
    refine ⟨?_, houtside⟩
    rw [hinv.order, hjobs, List.append_nil]

/-- The first function is waited for, and the waiting thread sleeps when its flag is set. -/
def twoPosts : List (Move Bool Nat) :=
  [.post false 1 true, .doPost false, .wait false, .await false .next, .await false .next,
    .await false .next, .post true 2 false, .doPost true, .take, .returned, .store .next,
    .store .next, .store .next, .store .next, .await false .next, .await false .next,
    .await false .next, .take, .returned]

theorem twoPosts_returned :
    ∃ s : State Bool Nat, run IoService.step State.init twoPosts = some s ∧
      s.poster false = .outside ∧ s.posted = s.ran := by
  have hrun : run IoService.step (State.init : State Bool Nat) twoPosts = some _ := rfl
  obtain ⟨-, horder, -, -⟩ := post_returns hrun
  exact ⟨_, rfl, rfl, horder⟩

end Threads

end Ra2yrcpp.IoService
