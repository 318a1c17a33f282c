import Ra2yrcpp.CommandManager.IoWait

/-!
# Stopping the command manager

`execute_create_queue` and `execute_destroy_queue` wait until the worker has stored a result code.
`SHUTDOWN` is behind all of these commands in the work queue, so the worker leaves none of them there
when it exits; but a command that is enqueued after that is never taken.
-/

open Ra2yrcpp.Reasoning

namespace Ra2yrcpp.CommandManager

variable {handlers : String → Option Handler} {s t : State} {a : Action} {p : CommandPtr}

def IoThread.waits : IoThread → List CommandPtr
  | .waiting p => [p]
  | _ => []

/-- The commands that somebody waits for in `execute_create_queue` or `execute_destroy_queue`. -/
def State.callers (s : State) : List CommandPtr := s.waiting ++ s.io.waits

/-- Nobody waits for a result code once the worker has left its loop. -/
def NobodyWaits (s : State) : Prop :=
  s.worker = .exited → ∀ p ∈ s.callers, (s.cmds p).resultCode ≠ .none

instance (s : State) : Decidable (NobodyWaits s) :=
  inferInstanceAs (Decidable (_ = _ → ∀ p ∈ s.callers, _ ≠ _))

/-- `CommandManager::shutdown`, up to the exit of the worker. -/
def shutdown (p : CommandPtr) : List Action :=
  [.makeBuiltin 0 0 .shutdown, .enqueue p, .work, .work]

/-- A connection is closed after the manager was shut down. -/
def closeAfterShutdown : List Action :=
  connect 1 ++ shutdown 1 ++ [.ioMakes 1 0 .destroyQueue, .ioEnqueues]

theorem io_waits_after_shutdown :
    ∃ s, run (step fun _ => none) State.init closeAfterShutdown = some s ∧ ¬NobodyWaits s ∧
      work s = none ∧ ioReturns s = none := by
  refine ⟨(run (step fun _ => none) State.init closeAfterShutdown).get (by decide), by simp, ?_⟩
  decide

/-! ## The condition -/

/-- The action with which a caller of `execute_create_queue` or `execute_destroy_queue` starts to
wait. -/
def State.waitsFrom (s : State) : Action → Bool
  | .ioEnqueues => true
  | .enqueue p => decide ((s.cmds p).base.type ≠ .shutdown)
  | _ => false

/-- No such command is enqueued once the worker has left its loop. -/
def EnqueuedInTime (s : State) (a : Action) : Prop := s.waitsFrom a = true → s.worker ≠ .exited

instance (s : State) (a : Action) : Decidable (EnqueuedInTime s a) :=
  inferInstanceAs (Decidable (_ = true → _ ≠ _))

/-! ## Where a command is that somebody waits for -/

/-- The command is in the work queue, or the worker executes it. -/
def Pending (s : State) (p : CommandPtr) : Prop := p ∈ s.workQueue ∨ ∃ b, s.worker = .builtin p b

structure Enqueued (s : State) (p : CommandPtr) : Prop where
  lt : p < s.nextPtr
  builtin : (s.cmds p).base.type ≠ .user
  notShutdown : (s.cmds p).base.type ≠ .shutdown
  pending : (s.cmds p).resultCode = .none → Pending s p

theorem Enqueued.frame (h : Enqueued s p) (hk : Keeps s t)
    (hpending : (t.cmds p).resultCode = .none → Pending s p → Pending t p) : Enqueued t p where
  lt := Nat.lt_of_lt_of_le h.lt hk.next
  builtin := by
    rw [hk.base h.lt]
    exact h.builtin
  notShutdown := by
    rw [hk.base h.lt]
    exact h.notShutdown
  pending hnone := hpending hnone (h.pending (hk.code p h.lt h.builtin hnone))

/-- The worker stays as it is, and so does what is in its queue. -/
theorem Enqueued.sameWorker (h : Enqueued s p) (hk : Keeps s t)
    (hqueue : ∀ q ∈ s.workQueue, q ∈ t.workQueue) (hworker : t.worker = s.worker) : Enqueued t p := by
  apply h.frame hk
  intro _ hp
  unfold Pending
  rw [hworker]
  exact hp.imp_left (hqueue p)

/-- The worker holds a user command, so what is waited for is in the queue. -/
theorem Enqueued.ofUser (h : Enqueued s p) (hk : Keeps s t) {q : CommandPtr} {st : Stage}
    (hst : s.worker = .user q st) (hqueue : t.workQueue = s.workQueue) : Enqueued t p := by
  apply h.frame hk
  intro _ hpending
  unfold Pending at hpending
  rw [hst] at hpending
  apply Or.inl
  rw [hqueue]
  simpa using hpending

/-- The worker holds a built-in command and keeps it, or is done with it. -/
theorem Enqueued.ofBuiltin (h : Enqueued s p) (hk : Keeps s t) {q : CommandPtr} {b : Bool}
    (hb : s.worker = .builtin q b) (hqueue : t.workQueue = s.workQueue)
    (hheld : q = p → (t.cmds q).resultCode = .none → ∃ b, t.worker = .builtin q b) :
    Enqueued t p := by
  apply h.frame hk
  intro hnone hpending
  unfold Pending at hpending ⊢
  rw [hqueue]
  apply hpending.imp_right
  intro hp
  rw [hb] at hp
  have he : q = p := by simpa using hp
  rw [← he] at hnone ⊢
  exact hheld he hnone

theorem Enqueued.take (h : Enqueued s p) (hw : Wf s) {q : CommandPtr} {rest : List CommandPtr}
    (hidle : s.worker = .idle) (hq : s.workQueue = q :: rest) :
    Enqueued { s with
      workQueue := Heap.pop (queueCompare s.cmds) s.workQueue
      worker := if (s.cmds q).base.type = .user then .user q .taken else .builtin q false } p := by
  refine h.frame (keeps_of_cmds rfl rfl) fun _ hpending => ?_
  unfold Pending at hpending
  rw [hidle] at hpending
  have hmem : p ∈ q :: rest := by
    rw [← hq]
    simpa using hpending
  cases List.mem_cons.mp hmem with
  | inl he =>
    apply Or.inr
    rw [← he]
    exact ⟨false, if_neg h.builtin⟩
  | inr hrest => exact Or.inl ((hw.pop_perm hq).mem_iff.mpr hrest)

theorem Enqueued.step (h : Enqueued s p) (hw : Wf s) (heff : Effect handlers s a t) :
    Enqueued t p := by
  have hk := heff.keeps hw
  have hpush : ∀ q r, r ∈ s.workQueue → r ∈ Heap.push (queueCompare s.cmds) s.workQueue q :=
    fun q r hr => mem_push.mpr (Or.inr hr)
  cases heff with
  | emplace q hmade hty hlock => exact h.sameWorker hk (hpush q) rfl
  | enqueue q waiting hmade hty hio hlock => exact h.sameWorker hk (hpush q) rfl
  | ioEnqueues q hio hlock => exact h.sameWorker hk (hpush q) rfl
  | take q rest hidle hq => exact h.take hw hidle hq
  | createQueue q hb hty =>
    obtain ⟨_, _, heq⟩ := createQueue_frame s (s.cmds q).base.queueId (s.cmds q).base.queueSize
    rw [heq] at hk ⊢
    exact h.ofBuiltin hk hb rfl fun _ _ => ⟨true, rfl⟩
  | destroyQueue q hb hty =>
    obtain ⟨_, _, heq⟩ := destroyQueue_frame s (s.cmds q).base.queueId
    rw [heq] at hk ⊢
    exact h.ofBuiltin hk hb rfl fun _ _ => ⟨true, rfl⟩
  | shutdown q hb hty =>
    -- nobody waits for this command
    exact h.ofBuiltin hk hb rfl fun he _ => absurd (he ▸ hty) h.notShutdown
  | finishBuiltin q hb =>
    refine h.ofBuiltin hk hb rfl fun _ hnone => ?_
    -- the result code is there
    change (Function.update s.cmds q _ q).resultCode = .none at hnone
    rw [Function.update_self] at hnone
    cases hnone
  | userMove a q st st' hd c hst hh hmove hposted hassign => exact h.ofUser hk hst rfl
  | putWork q m hst => exact h.ofUser hk hst rfl
  | recordPending q hst => exact h.ofUser hk hst rfl
  | store t q hst hstore =>
    obtain ⟨_, _, rfl⟩ := storeResult_frame hstore
    exact h.ofUser hk hst rfl
  | popResults t qid createdAt late hpop =>
    obtain ⟨rq, pc, -, -, rfl⟩ := popResults_cases hw.rings hpop
    exact h.sameWorker hk (fun _ => id) rfl
  | _ => exact h.sameWorker hk (fun _ => id) rfl

/-! ## The work queue behind the worker -/

/-- The rank below which nothing is left in the work queue: that of the built-in command which the
worker executes, and that of `SHUTDOWN` once it has left its loop. -/
def State.floor (s : State) : Nat :=
  match s.worker with
  | .builtin q _ => (s.cmds q).base.type.val
  | .exited => CommandType.shutdown.val
  | _ => 0

def Floored (s : State) : Prop := ∀ p ∈ s.workQueue, s.floor ≤ (s.cmds p).base.type.val

theorem floor_of_unlocked (hlock : s.worker.locksQueue = false) (hexit : s.worker ≠ .exited) :
    s.floor = 0 := by
  unfold State.floor
  cases hworker : s.worker with
  | builtin q b =>
    rw [hworker] at hlock
    cases hlock
  | exited => exact absurd hworker hexit
  | _ => rfl

theorem floor_congr (hworker : t.worker = s.worker)
    (hbase : ∀ q b, s.worker = .builtin q b → (t.cmds q).base = (s.cmds q).base) :
    t.floor = s.floor := by
  unfold State.floor
  rw [hworker]
  cases hw : s.worker with
  | builtin q b => exact congrArg (fun base => base.type.val) (hbase q b hw)
  | _ => rfl

/-- The commands in the queue are some of those that were there, and the floor does not rise. -/
theorem Floored.frame (h : Floored s) (hw : Wf s) (hfloor : t.floor ≤ s.floor)
    (hqueue : ∀ p ∈ t.workQueue, p ∈ s.workQueue)
    (hbase : ∀ p, p < s.nextPtr → (t.cmds p).base = (s.cmds p).base) : Floored t := by
  intro p hp
  have hmem := hqueue p hp
  rw [hbase p (hw.lt_of_copies (copies_pos_of_workQueue hmem))]
  exact Nat.le_trans hfloor (h p hmem)

theorem Floored.sameWorker (h : Floored s) (hw : Wf s) (hworker : t.worker = s.worker)
    (hqueue : t.workQueue = s.workQueue)
    (hbase : ∀ p, p < s.nextPtr → (t.cmds p).base = (s.cmds p).base) : Floored t := by
  refine h.frame hw (Nat.le_of_eq (floor_congr hworker ?_)) (fun p hp => hqueue ▸ hp) hbase
  intro q b hb
  apply hbase q
  apply hw.lt_of_copies
  apply copies_pos_of_held
  rw [hb]
  exact List.mem_singleton_self q

/-- A command is pushed while the worker does not hold the lock of the queue. -/
theorem Floored.enqueue (h : Floored s) {q : CommandPtr} (hlock : s.worker.locksQueue = false)
    (hq : s.worker = .exited → CommandType.shutdown.val ≤ (s.cmds q).base.type.val) :
    Floored (enqueueCommand s q) := by
  intro p hp
  cases mem_push.mp hp with
  | inr hmem => exact h p hmem
  | inl he =>
    rw [he]
    by_cases hexit : s.worker = .exited
    · have hfloor : s.floor = CommandType.shutdown.val := by
        unfold State.floor
        rw [hexit]
      show s.floor ≤ (s.cmds q).base.type.val
      rw [hfloor]
      exact hq hexit
    · show s.floor ≤ (s.cmds q).base.type.val
      rw [floor_of_unlocked hlock hexit]
      exact Nat.zero_le _

/-- The worker takes the first command, and none of the others is ahead of it. -/
theorem Floored.take (hw : Wf s) {q : CommandPtr} {rest : List CommandPtr}
    (hq : s.workQueue = q :: rest) :
    Floored { s with
      workQueue := Heap.pop (queueCompare s.cmds) s.workQueue
      worker := if (s.cmds q).base.type = .user then .user q .taken else .builtin q false } := by
  intro p hp
  have hheap := hw.heap
  rw [hq] at hheap
  have hle : before s.cmds q p :=
    hheap.top_le (queueCompare_ranks s.cmds) p
      (List.mem_cons_of_mem q ((hw.pop_perm hq).mem_iff.mp hp))
  unfold State.floor
  by_cases hty : (s.cmds q).base.type = .user
  · simp [hty]
  · simpa [hty, before] using hle

theorem floored_step (h : Floored s) (hw : Wf s) (hok : EnqueuedInTime s a)
    (heff : Effect handlers s a t) : Floored t := by
  have hbase : ∀ p, p < s.nextPtr → (t.cmds p).base = (s.cmds p).base := fun p => (heff.keeps hw).base
  -- what the worker executes is the floor, before and after
  have hfloor : ∀ q b, s.worker = .builtin q b → (s.cmds q).base.type.val ≤ s.floor := by
    intro q b hb
    unfold State.floor
    rw [hb]
  cases heff with
  | emplace q hmade hty hlock =>
    apply h.enqueue hlock
    intro _
    rw [hty]
    decide
  | enqueue q waiting hmade hty hio hlock =>
    apply h.enqueue hlock
    intro hexit
    by_cases hsd : (s.cmds q).base.type = .shutdown
    · rw [hsd]
    · exact absurd hexit (hok (by simp [State.waitsFrom, hsd]))
  | ioEnqueues q hio hlock =>
    apply h.enqueue hlock
    intro hexit
    exact absurd hexit (hok rfl)
  | take q rest hidle hq => exact Floored.take hw hq
  | createQueue q hb hty =>
    obtain ⟨_, _, heq⟩ := createQueue_frame s (s.cmds q).base.queueId (s.cmds q).base.queueSize
    rw [heq] at hbase ⊢
    exact h.frame hw (hfloor q false hb) (fun _ => id) hbase
  | destroyQueue q hb hty =>
    obtain ⟨_, _, heq⟩ := destroyQueue_frame s (s.cmds q).base.queueId
    rw [heq] at hbase ⊢
    exact h.frame hw (hfloor q false hb) (fun _ => id) hbase
  | shutdown q hb hty =>
    refine h.frame hw ?_ (fun _ => id) hbase
    show CommandType.shutdown.val ≤ s.floor
    rw [← hty]
    exact hfloor q false hb
  | finishBuiltin q hb => exact h.frame hw (Nat.zero_le _) (fun _ => id) hbase
  | userMove a q st st' hd c hst hh hmove hposted hassign =>
    exact h.frame hw (Nat.zero_le _) (fun _ => id) hbase
  | putWork q m hst => exact h.frame hw (Nat.zero_le _) (fun _ => id) hbase
  | recordPending q hst => exact h.frame hw (Nat.zero_le _) (fun _ => id) hbase
  | store t q hst hstore =>
    obtain ⟨_, _, rfl⟩ := storeResult_frame hstore
    exact h.frame hw (Nat.zero_le _) (fun _ => id) hbase
  | popResults t qid createdAt late hpop =>
    obtain ⟨rq, pc, -, -, rfl⟩ := popResults_cases hw.rings hpop
    exact h.sameWorker hw rfl rfl hbase
  | _ => exact h.sameWorker hw rfl rfl hbase

/-! ## Who waits -/

structure Callers (s : State) : Prop where
  enqueued : ∀ p ∈ s.callers, Enqueued s p
  io : ∀ p, s.io = .made p → (s.cmds p).base.type ≠ .shutdown
  floored : Floored s

theorem callers_init : Callers State.init where
  enqueued _ h := by cases h
  io _ h := by cases h
  floored _ h := by cases h

/-- Every command that is waited for is ahead of `SHUTDOWN`. -/
theorem Callers.nobodyWaits (h : Callers s) : NobodyWaits s := by
  intro hexit p hp hnone
  have henq := h.enqueued p hp
  cases henq.pending hnone with
  | inr hb =>
    obtain ⟨b, hb⟩ := hb
    rw [hexit] at hb
    cases hb
  | inl hmem =>
    have hfloor := h.floored p hmem
    have hexited : s.floor = CommandType.shutdown.val := by
      unfold State.floor
      rw [hexit]
    rw [hexited] at hfloor
    cases hty : (s.cmds p).base.type with
    | user => exact henq.builtin hty
    | shutdown => exact henq.notShutdown hty
    | _ =>
      rw [hty] at hfloor
      exact absurd hfloor (by decide)

/-- A step other than an `enqueue` adds no caller but the io thread. -/
theorem mem_callers_of_effect (heff : Effect handlers s a t) (hw : Wf s) (ha : ∀ q, a ≠ .enqueue q)
    (hp : p ∈ t.callers) :
    p ∈ s.callers ∨ s.io = .made p ∧ p ∈ t.workQueue := by
  have hwaiting : ∀ q, q ∈ s.waiting → q ∈ s.callers := fun q hq => List.mem_append_left _ hq
  cases heff with
  | makeBuiltin a q size ty io ha hty hio =>
    cases hio with
    | inl hio =>
      rw [hio] at hp
      exact Or.inl hp
    | inr hio =>
      rw [hio.1] at hp
      exact Or.inl (hwaiting p (by
        simpa [State.callers, IoThread.waits, makeBuiltinCommand, State.setCommand] using hp))
  | enqueue q waiting hmade hty hio hlock => exact absurd rfl (ha q)
  | ioEnqueues q hio hlock =>
    cases List.mem_append.mp hp with
    | inl hmem => exact Or.inl (hwaiting p hmem)
    | inr hmem =>
      have he : p = q := List.mem_singleton.mp hmem
      rw [he]
      exact Or.inr ⟨hio, mem_push.mpr (Or.inl rfl)⟩
  | returns q =>
    cases List.mem_append.mp hp with
    | inl hmem => exact Or.inl (hwaiting p (List.mem_of_mem_erase hmem))
    | inr hmem => exact Or.inl (List.mem_append_right _ hmem)
  | ioReturns q hio hcode =>
    exact Or.inl (hwaiting p (by simpa [State.callers, IoThread.waits] using hp))
  | createQueue q hb hty =>
    obtain ⟨_, _, heq⟩ := createQueue_frame s (s.cmds q).base.queueId (s.cmds q).base.queueSize
    rw [heq] at hp
    exact Or.inl hp
  | destroyQueue q hb hty =>
    obtain ⟨_, _, heq⟩ := destroyQueue_frame s (s.cmds q).base.queueId
    rw [heq] at hp
    exact Or.inl hp
  | store t q hst hstore =>
    obtain ⟨_, _, rfl⟩ := storeResult_frame hstore
    exact Or.inl hp
  | popResults t qid createdAt late hpop =>
    obtain ⟨rq, pc, -, -, rfl⟩ := popResults_cases hw.rings hpop
    exact Or.inl hp
  | _ => exact Or.inl hp

theorem enqueue_eq_some {q : CommandPtr} (h : step handlers s (.enqueue q) = some t) :
    q ∈ s.made ∧ (s.cmds q).base.type ≠ .user ∧
      t = { enqueueCommand s q with
        waiting := if (s.cmds q).base.type = .shutdown then s.waiting else s.waiting ++ [q] } := by
  unfold step at h
  rw [Option.ite_none_right_eq_some] at h
  exact ⟨h.1.1, h.1.2.1, (Option.some.inj h.2).symm⟩

theorem Enqueued.ofMade (hw : Wf s) (heff : Effect handlers s a t) (hmade : p ∈ s.made)
    (huser : (s.cmds p).base.type ≠ .user) (hshutdown : (s.cmds p).base.type ≠ .shutdown)
    (hqueue : p ∈ t.workQueue) : Enqueued t p := by
  have hlt := hw.lt_of_copies (copies_pos_of_made hmade)
  have hbase := (heff.keeps hw).base hlt
  constructor
  · exact Nat.lt_of_lt_of_le hlt (heff.keeps hw).next
  · rw [hbase]
    exact huser
  · rw [hbase]
    exact hshutdown
  · exact fun _ => Or.inl hqueue

/-- Who starts to wait has enqueued a command that is neither a user's nor `SHUTDOWN`. -/
theorem enqueued_step (h : Callers s) (hw : Wf s) (hstep : step handlers s a = some t)
    (hp : p ∈ t.callers) : Enqueued t p := by
  have heff := step_effect hstep
  by_cases ha : ∃ q, a = .enqueue q
  · obtain ⟨q, rfl⟩ := ha
    obtain ⟨hmade, huser, rfl⟩ := enqueue_eq_some hstep
    cases List.mem_append.mp hp with
    | inr hmem => exact (h.enqueued p (List.mem_append_right _ hmem)).step hw heff
    | inl hmem =>
      dsimp only at hmem
      split at hmem
      · exact (h.enqueued p (List.mem_append_left _ hmem)).step hw heff
      · next hty =>
        cases List.mem_append.mp hmem with
        | inl hold => exact (h.enqueued p (List.mem_append_left _ hold)).step hw heff
        | inr hnew =>
          have he : p = q := List.mem_singleton.mp hnew
          rw [he]
          exact Enqueued.ofMade hw heff hmade huser hty (mem_push.mpr (Or.inl rfl))
  · cases mem_callers_of_effect heff hw (fun q he => ha ⟨q, he⟩) hp with
    | inl hold => exact (h.enqueued p hold).step hw heff
    | inr hnew =>
      have hio := hw.io p hnew.1
      exact Enqueued.ofMade hw heff hio.1 hio.2 (h.io p hnew.1) hnew.2

theorem io_made_step (h : Callers s) (hw : Wf s) (heff : Effect handlers s a t)
    (hio : t.io = .made p) : (t.cmds p).base.type ≠ .shutdown := by
  have hold : s.io = .made p → (t.cmds p).base.type ≠ .shutdown := by
    intro hs
    rw [(heff.keeps hw).base (hw.lt_of_copies (copies_pos_of_made (hw.io p hs).1))]
    exact h.io p hs
  cases heff with
  | makeBuiltin a q size ty io ha hty hnew =>
    cases hnew with
    | inl heq => exact hold (heq.symm.trans hio)
    | inr hnew =>
      have hp : s.nextPtr = p := IoThread.made.inj (hnew.1.symm.trans hio)
      change (Function.update s.cmds s.nextPtr _ p).base.type ≠ .shutdown
      rw [hp, Function.update_self]
      exact hnew.2.2
  | ioEnqueues q hq hlock => cases hio
  | ioReturns q hq hcode => cases hio
  | createQueue q hb hty =>
    obtain ⟨_, _, heq⟩ := createQueue_frame s (s.cmds q).base.queueId (s.cmds q).base.queueSize
    rw [heq] at hio hold ⊢
    exact hold hio
  | destroyQueue q hb hty =>
    obtain ⟨_, _, heq⟩ := destroyQueue_frame s (s.cmds q).base.queueId
    rw [heq] at hio hold ⊢
    exact hold hio
  | store t q hst hstore =>
    obtain ⟨_, _, rfl⟩ := storeResult_frame hstore
    exact hold hio
  | popResults t qid createdAt late hpop =>
    obtain ⟨rq, pc, -, -, rfl⟩ := popResults_cases hw.rings hpop
    exact hold hio
  | _ => exact hold hio

/-- In every run in which no command of `execute_create_queue` or `execute_destroy_queue` is enqueued
after the worker has left its loop, nobody waits for one then. -/
theorem nobody_waits {acts : List Action}
    (hok : Conforms (step handlers) EnqueuedInTime State.init acts)
    (hrun : run (step handlers) State.init acts = some s) : NobodyWaits s := by
  have hstep : ∀ s a t, Wf s ∧ Callers s → EnqueuedInTime s a → step handlers s a = some t →
      Wf t ∧ Callers t := by
    intro s a t hs hok h
    have heff := step_effect h
    exact ⟨wf_step hs.1 heff, fun _ => enqueued_step hs.2 hs.1 h, fun _ => io_made_step hs.2 hs.1 heff,
      floored_step hs.2.floored hs.1 hok heff⟩
  exact (run_invariant_of_conforms hstep ⟨wf_init, callers_init⟩ hok hrun).2.nobodyWaits

/-- A second connection is closed while `SHUTDOWN` is already in the work queue. -/
def closeBeforeExit : List Action :=
  connect 1 ++ [.makeBuiltin 0 0 .shutdown, .enqueue 1, .ioMakes 1 0 .destroyQueue, .ioEnqueues] ++
    List.replicate 5 .work

theorem closeBeforeExit_nobodyWaits :
    ∃ s, run (step fun _ => none) State.init closeBeforeExit = some s ∧ s.worker = .exited ∧
      s.callers = [2] ∧ NobodyWaits s := by
  have hrun : run (step fun _ => none) State.init closeBeforeExit =
      some ((run (step fun _ => none) State.init closeBeforeExit).get (by decide)) := by
    simp
  have hok : Conforms (step fun _ => none) EnqueuedInTime State.init closeBeforeExit := by
    decide
  exact ⟨_, hrun, by decide, by decide, nobody_waits hok hrun⟩

end Ra2yrcpp.CommandManager
