import Ra2yrcpp.CommandManager.Ledger

/-!
# Queue ids that are used again

A queue id is the socket number of a connection.  Built-in commands overtake the commands of clients
in the work queue, so the queue of a new connection can be created while commands of an old one with
the same socket are still waiting, and their results end up in it.
-/

open Ra2yrcpp.Reasoning

namespace Ra2yrcpp.CommandManager

variable {handlers : String → Option Handler} {s t : State} {a : Action} {p : CommandPtr}

/-- Every result in a queue is of a command that was enqueued after the queue had been created. -/
def NoLeak (s : State) : Prop :=
  ∀ id rq, s.results.lookup id = some rq → ∀ p ∈ rq.contents, rq.createdAt < s.enqueuedAt p

/-! ## A socket number that is used again -/

/-- A client sends a command and disconnects before the worker takes it; the next client gets the
same socket number. -/
def reconnected : List Action :=
  connect 1 ++ [.makeCommand "StoreValue" [7] 1 false false, .emplace 1] ++ disconnect 1 ++
    connect 1 ++ List.replicate 4 .work ++ [.fnReturns [8]] ++ List.replicate 6 .work

theorem result_leaks_to_reconnected :
    ∃ s, run (step fun _ => some plainHandler) State.init reconnected = some s ∧
      s.stored = [1] ∧ ¬ NoLeak s := by
  refine ⟨(run (step fun _ => some plainHandler) State.init reconnected).get (by decide), by simp,
    by decide, fun h => ?_⟩
  have hlt := h 1 _ (Option.some_get (by decide)).symm 1 (by decide)
  exact absurd hlt (by decide)

/-! ## Queues created without a backlog -/

/-- The id of the queue that a step creates. -/
def State.creates (s : State) : Action → Option QueueId
  | .work =>
    match s.worker with
    | .builtin p false =>
      if (s.cmds p).base.type = .createQueue ∧ (s.cmds p).base.queueId ∉ s.results then
        some (s.cmds p).base.queueId
      else none
    | _ => none
  | _ => none

/-- When a queue is created, no command for its id waits in the work queue, other than such whose
result will be discarded. -/
def NoBacklog (s : State) (a : Action) : Prop :=
  ∀ id ∈ s.creates a, ∀ p ∈ s.workQueue, (s.cmds p).base.type = .user →
    (s.cmds p).base.queueId = id → (s.cmds p).discardResult = true

instance (s : State) (a : Action) : Decidable (NoBacklog s a) :=
  inferInstanceAs (Decidable (∀ id ∈ s.creates a, ∀ p ∈ s.workQueue,
    (s.cmds p).base.type = .user → (s.cmds p).base.queueId = id → (s.cmds p).discardResult = true))

/-- The command is on its way to the queue with this id. -/
def State.bound (s : State) (p : CommandPtr) (id : QueueId) : Prop :=
  (p ∈ s.workQueue ∨ p ∈ s.worker.held) ∧ (s.cmds p).base.type = .user ∧
    (s.cmds p).base.queueId = id ∧ (s.cmds p).discardResult = false

structure Fresh (s : State) : Prop where
  stored : NoLeak s
  clock : ∀ id rq, s.results.lookup id = some rq → rq.createdAt < s.clock
  bound : ∀ id rq, s.results.lookup id = some rq → ∀ p, s.bound p id → rq.createdAt < s.enqueuedAt p

theorem fresh_init : Fresh State.init where
  stored _ _ h := by cases h
  clock _ _ h := by cases h
  bound _ _ h := by cases h

/-- Steps after which the queues are those of before, or have lost results. -/
theorem Fresh.frame (h : Fresh s)
    (hresults : ∀ id rq, t.results.lookup id = some rq → ∃ rq', s.results.lookup id = some rq' ∧
      rq.createdAt = rq'.createdAt ∧ ∀ p ∈ rq.contents, p ∈ rq'.contents ∨ s.bound p id)
    (hclock : s.clock ≤ t.clock) (henqueued : ∀ p, p ∈ s.stored ∨ p ∈ s.workQueue ∨
      p ∈ s.worker.held → t.enqueuedAt p = s.enqueuedAt p)
    (hbound : ∀ p id, t.bound p id → s.bound p id) : Fresh t where
  stored id rq hl p hp := by
    obtain ⟨rq', hl', heq, hsub⟩ := hresults id rq hl
    rw [heq]
    rcases hsub p hp with hp | hb
    · rw [henqueued p (Or.inl (mem_stored.mpr ⟨id, rq', hl', hp⟩))]
      exact h.stored id rq' hl' p hp
    · rw [henqueued p (Or.inr hb.1)]
      exact h.bound id rq' hl' p hb
  clock id rq hl := by
    obtain ⟨rq', hl', heq, -⟩ := hresults id rq hl
    rw [heq]
    exact Nat.lt_of_lt_of_le (h.clock id rq' hl') hclock
  bound id rq hl p hb := by
    obtain ⟨rq', hl', heq, -⟩ := hresults id rq hl
    have hb' := hbound p id hb
    rw [heq, henqueued p (Or.inr hb'.1)]
    exact h.bound id rq' hl' p hb'

theorem Quiet.bound (hq : Quiet s t) {id : QueueId} (h : t.bound p id) : s.bound p id := by
  obtain ⟨hmem, hty, hid, hd⟩ := h
  rw [hq.workQueue, hq.held] at hmem
  rw [hq.base] at hty hid
  rw [(hq.same p).2.2] at hd
  exact ⟨hmem, hty, hid, hd⟩

theorem Fresh.quiet (h : Fresh s) (hq : Quiet s t) (hclock : t.clock = s.clock)
    (henqueued : t.enqueuedAt = s.enqueuedAt) : Fresh t := by
  apply h.frame
  · intro id rq hl
    rw [hq.results] at hl
    exact ⟨rq, hl, rfl, fun p hp => Or.inl hp⟩
  · exact Nat.le_of_eq hclock.symm
  · exact fun p _ => by rw [henqueued]
  · exact fun p id hb => hq.bound hb

/-! ## Steps -/

theorem Fresh.make (h : Fresh s) (hw : Wf s) (c : Command) :
    Fresh { s with
      cmds := Function.update s.cmds s.nextPtr c
      nextPtr := s.nextPtr + 1
      made := s.made ++ [s.nextPtr] } := by
  apply h.frame
  · exact fun id rq hl => ⟨rq, hl, rfl, fun p hp => Or.inl hp⟩
  · exact Nat.le_refl _
  · exact fun _ _ => rfl
  · rintro p id ⟨hmem, hb⟩
    have hlt : p < s.nextPtr := by
      rcases hmem with hmem | hmem
      · exact hw.lt_of_copies (copies_pos_of_workQueue hmem)
      · exact hw.lt_of_copies (copies_pos_of_held hmem)
    dsimp only at hb
    rw [Function.update_of_ne (Nat.ne_of_lt hlt)] at hb
    exact ⟨hmem, hb⟩

/-- A command enters the work queue later than any queue was created. -/
theorem Fresh.enqueue (h : Fresh s) (hw : Wf s) (hmade : p ∈ s.made) :
    Fresh (enqueueCommand s p) := by
  -- the other commands keep their time
  have hother : ∀ q, q ∈ s.stored ∨ q ∈ s.workQueue ∨ q ∈ s.worker.held → q ≠ p := by
    rintro q hq rfl
    rcases hq with hq | hq | hq
    · exact (hw.done_alone (Or.inl hq)).2.1 hmade
    · exact hw.queued_alone hq hmade
    · exact (hw.held_alone hq).1 hmade
  have htime : ∀ q, q ≠ p → (enqueueCommand s p).enqueuedAt q = s.enqueuedAt q :=
    fun q hq => Function.update_of_ne hq ..
  refine ⟨fun id rq hl q hq => ?_, fun id rq hl => ?_, fun id rq hl q hb => ?_⟩
  · rw [htime q (hother q (Or.inl (mem_stored.mpr ⟨id, rq, hl, hq⟩)))]
    exact h.stored id rq hl q hq
  · exact Nat.lt_succ_of_lt (h.clock id rq hl)
  · by_cases hqp : q = p
    · subst hqp
      change rq.createdAt < Function.update s.enqueuedAt q s.clock q
      rw [Function.update_self]
      exact h.clock id rq hl
    · rw [htime q hqp]
      obtain ⟨hmem, hrest⟩ := hb
      refine h.bound id rq hl q ⟨?_, hrest⟩
      rcases hmem with hmem | hmem
      · exact Or.inl ((mem_push.mp hmem).resolve_left hqp)
      · exact Or.inr hmem

theorem Fresh.take (h : Fresh s) (hw : Wf s) {rest : List CommandPtr}
    (hq : s.workQueue = p :: rest) :
    Fresh { s with
      workQueue := Heap.pop (queueCompare s.cmds) s.workQueue
      worker := if (s.cmds p).base.type = .user then .user p .taken else .builtin p false } := by
  apply h.frame
  · exact fun id rq hl => ⟨rq, hl, rfl, fun p hp => Or.inl hp⟩
  · exact Nat.le_refl _
  · exact fun _ _ => rfl
  -- what the worker holds now was in the work queue
  · rintro q id ⟨hmem, hb⟩
    refine ⟨Or.inl ?_, hb⟩
    rw [hq]
    rcases hmem with hmem | hmem
    · exact List.mem_cons_of_mem _ ((hw.pop_perm hq).mem_iff.mp hmem)
    · dsimp only at hmem
      rw [held_taken] at hmem
      rw [List.mem_singleton.mp hmem]
      exact List.mem_cons_self

theorem Fresh.createQueue (h : Fresh s) (hw : Wf s) (hb : s.worker = .builtin p false)
    (hty : (s.cmds p).base.type = .createQueue) (hok : NoBacklog s .work) (n : Nat) :
    Fresh (createQueue s (s.cmds p).base.queueId n) := by
  rcases createQueue_cases s (s.cmds p).base.queueId n with ⟨rq, -, heq⟩ | ⟨hnot, heq⟩
  · rw [heq]
    exact h
  · rw [heq]
    -- without a backlog no command is on its way to the new queue
    have hfree : ∀ q, ¬ s.bound q (s.cmds p).base.queueId := by
      rintro q ⟨hmem, huser, hid, hd⟩
      rcases hmem with hmem | hmem
      · have hcreates : s.creates .work = some (s.cmds p).base.queueId := by
          unfold State.creates
          rw [hb]
          exact if_pos ⟨hty, hnot⟩
        rw [hok _ hcreates q hmem huser hid] at hd
        cases hd
      -- the worker holds the CREATE_QUEUE command itself
      · rw [hb] at hmem
        rw [List.mem_singleton.mp hmem] at huser
        exact hw.builtin p false hb huser
    refine ⟨fun id rq hl q hq => ?_, fun id rq hl => ?_, fun id rq hl q hbound => ?_⟩
    · rcases lookup_insert_cases hl with ⟨-, rfl⟩ | ⟨-, hl⟩
      · cases hq
      · exact h.stored id rq hl q hq
    · rcases lookup_insert_cases hl with ⟨-, rfl⟩ | ⟨-, hl⟩
      · exact Nat.lt_succ_self _
      · exact Nat.lt_succ_of_lt (h.clock id rq hl)
    · rcases lookup_insert_cases hl with ⟨rfl, -⟩ | ⟨-, hl⟩
      · exact absurd hbound (hfree q)
      · exact h.bound id rq hl q hbound

theorem Fresh.destroyQueue (h : Fresh s) (id : QueueId) : Fresh (destroyQueue s id) := by
  rcases destroyQueue_cases s id with ⟨-, heq⟩ | ⟨rq, -, heq⟩
  · rw [heq]
    exact h
  · rw [heq]
    apply h.frame
    · exact fun i rq' hl => ⟨rq', lookup_of_lookup_erase hl, rfl, fun p hp => Or.inl hp⟩
    · exact Nat.le_refl _
    · exact fun _ _ => rfl
    · exact fun _ _ hb => hb

/-- The worker lets its command go. -/
theorem bound_of_released (hqueue : t.workQueue = s.workQueue) (hheld : t.worker.held = [])
    (hsame : ∀ p, (s.cmds p).Same (t.cmds p)) {id : QueueId} (h : t.bound p id) : s.bound p id := by
  obtain ⟨hmem, hty, hid, hd⟩ := h
  rw [hqueue, hheld] at hmem
  rw [(hsame p).1] at hty hid
  rw [(hsame p).2.2] at hd
  exact ⟨Or.inl (hmem.resolve_right List.not_mem_nil), hty, hid, hd⟩

theorem Fresh.released (h : Fresh s) (hresults : t.results = s.results) (hclock : t.clock = s.clock)
    (henqueued : t.enqueuedAt = s.enqueuedAt) (hqueue : t.workQueue = s.workQueue)
    (hheld : t.worker.held = []) (hsame : ∀ p, (s.cmds p).Same (t.cmds p)) : Fresh t := by
  apply h.frame
  · intro id rq hl
    rw [hresults] at hl
    exact ⟨rq, hl, rfl, fun p hp => Or.inl hp⟩
  · exact Nat.le_of_eq hclock.symm
  · exact fun p _ => by rw [henqueued]
  · exact fun _ _ hb => bound_of_released hqueue hheld hsame hb

theorem Fresh.store (h : Fresh s) (hw : Wf s) (hst : s.worker = .user p .storing)
    (hstore : storeResult s p = some t) : Fresh t := by
  rcases storeResult_cases hstore with ⟨-, rfl⟩ | ⟨-, -, rfl⟩ | ⟨rq, hd, hl, rfl⟩
  · exact h.released rfl rfl rfl rfl rfl fun _ => Command.Same.refl _
  · exact h.released rfl rfl rfl rfl rfl fun _ => Command.Same.refl _
  · apply h.frame
    · intro id rq' hl'
      rcases lookup_insert_cases hl' with ⟨rfl, rfl⟩ | ⟨-, hl'⟩
      · -- the result that joins its queue was bound for it
        refine ⟨rq, hl, rfl, fun q hq => ?_⟩
        rcases RingBuffer.mem_emplace hq with hq | rfl
        · exact Or.inl hq
        · exact Or.inr ⟨Or.inr (mem_held_of_user hst), hw.user q _ hst, rfl, hd⟩
      · exact ⟨rq', hl', rfl, fun q hq => Or.inl hq⟩
    · exact Nat.le_refl _
    · exact fun _ _ => rfl
    · intro q id hb
      refine bound_of_released ?_ ?_ ?_ hb
      · rfl
      · rfl
      · exact fun _ => Command.Same.refl _

theorem Fresh.pop (h : Fresh s) (hw : Wf s) {id : QueueId} {createdAt : Nat}
    {late : List CommandPtr} (hpop : popResults s id createdAt late = some t) : Fresh t := by
  obtain ⟨rq, pc, hl, -, rfl⟩ := popResults_cases hw.rings hpop
  apply h.frame
  · intro i rq' hl'
    rcases lookup_insert_cases hl' with ⟨rfl, rfl⟩ | ⟨-, hl'⟩
    · exact ⟨rq, hl, rfl, fun q hq => Or.inl (List.mem_reverse.mp (List.mem_filter.mp hq).1)⟩
    · exact ⟨rq', hl', rfl, fun q hq => Or.inl hq⟩
  · exact Nat.le_refl _
  · exact fun _ _ => rfl
  · exact fun _ _ hb => hb

theorem fresh_step (h : Fresh s) (hw : Wf s) (hok : NoBacklog s a) (heff : Effect handlers s a t) :
    Fresh t := by
  cases heff with
  | makeUser name data q discard done hd =>
    exact (h.make hw _).quiet (quiet_of_eq rfl fun _ h => h) rfl rfl
  | makeBuiltin a q size ty io ha hty hio =>
    have hmake := h.make hw (Command.make ⟨"", q, 0, size, ty⟩ none [] false)
    exact ⟨hmake.stored, hmake.clock, hmake.bound⟩
  | emplace p hmade hty hlock =>
    exact (h.enqueue hw hmade).quiet (quiet_of_eq rfl fun _ h => h) rfl rfl
  | enqueue p waiting hmade hty hio hlock =>
    exact (h.enqueue hw hmade).quiet (quiet_of_eq rfl fun _ h => h) rfl rfl
  | ioEnqueues p hio hlock =>
    exact (h.enqueue hw (hw.io p hio).1).quiet (quiet_of_eq rfl fun _ h => by cases h) rfl rfl
  | ioReturns p hio hcode => exact h.quiet (quiet_of_eq rfl fun _ h => by cases h) rfl rfl
  | take p rest hidle hq => exact h.take hw hq
  | createQueue p hb hty =>
    exact (h.createQueue hw hb hty hok _).quiet
      (quiet_builtin ((createQueue_worker ..).trans hb)) rfl rfl
  | destroyQueue p hb hty =>
    exact (h.destroyQueue _).quiet (quiet_builtin ((destroyQueue_worker ..).trans hb)) rfl rfl
  | shutdown p hb hty => exact h.released rfl rfl rfl rfl rfl fun _ => Command.Same.refl _
  | finishBuiltin p hb =>
    have hsame : (s.cmds p).Same { s.cmds p with resultCode := .ok } := ⟨rfl, rfl, rfl⟩
    exact h.released rfl rfl rfl rfl rfl (same_update hsame)
  | userMove a p st st' hd c hst hh hmove hposted hassign =>
    exact h.quiet (quiet_advance hst hmove.base_eq) rfl rfl
  | putWork p m hst => exact h.quiet (quiet_putWork hst _) rfl rfl
  | recordPending p hst => exact h.quiet (quiet_recordPending hst _) rfl rfl
  | store t p hst hstore => exact h.store hw hst hstore
  | popResults t id createdAt late hpop => exact h.pop hw hpop
  | handlerPacks p any hgame howned => exact h.quiet (quiet_handlerPacks s p any _) rfl rfl
  | finishItem p pt c pt' hgame howned hmove => exact h.quiet (quiet_finishItem hmove _) rfl rfl
  | _ => exact h.quiet (quiet_of_eq rfl fun _ h => h) rfl rfl

/-- In every run in which no queue is created over a backlog of its id, a queue only ever holds
results of commands that were enqueued after it was created. -/
theorem no_leak_without_backlog {acts : List Action}
    (hok : Conforms (step handlers) NoBacklog State.init acts)
    (hrun : run (step handlers) State.init acts = some s) : NoLeak s := by
  have hstep : ∀ s a t, Wf s ∧ Fresh s → NoBacklog s a → step handlers s a = some t →
      Wf t ∧ Fresh t := fun s a t hinv hok h =>
    ⟨wf_step hinv.1 (step_effect h), fresh_step hinv.2 hinv.1 hok (step_effect h)⟩
  exact (run_invariant_of_conforms hstep ⟨wf_init, fresh_init⟩ hok hrun).2.stored

/-- The same two clients, the second one after the worker has run the command of the first. -/
def reconnectedLater : List Action :=
  connect 1 ++ [.makeCommand "StoreValue" [7] 1 false false, .emplace 1] ++
    List.replicate 4 .work ++ [.fnReturns [8]] ++ List.replicate 6 .work ++ disconnect 1 ++ connect 1 ++
    [.makeCommand "StoreValue" [9] 1 false false, .emplace 4] ++ List.replicate 4 .work ++
    [.fnReturns [9]] ++ List.replicate 6 .work

theorem reconnectedLater_noLeak :
    ∃ s, run (step fun _ => some plainHandler) State.init reconnectedLater = some s ∧
      s.stored = [4] ∧ NoLeak s := by
  have hrun : run (step fun _ => some plainHandler) State.init reconnectedLater =
      some ((run (step fun _ => some plainHandler) State.init reconnectedLater).get
        (by decide)) := by
    simp
  have hok : Conforms (step fun _ => some plainHandler) NoBacklog State.init reconnectedLater := by
    decide
  exact ⟨_, hrun, by decide, no_leak_without_backlog hok hrun⟩

end Ra2yrcpp.CommandManager
