import Ra2yrcpp.CommandManager.Ledger

/-!
# Blocking commands

A `CLIENT_COMMAND` with `blocking` set: `process_request` enqueues the command and flushes the result
queue of its connection, waiting until the queue is not empty.  The threads that serve such requests
run beside all the threads of the manager.
-/

open Ra2yrcpp.Reasoning

namespace Ra2yrcpp.CommandManager.Blocking

/-- Where `process_request` is: the command is made, it is enqueued, or `flush_results` has looked
the queue up and waits. -/
inductive Point
  | made
  | enqueued
  | waiting (createdAt : Nat)
  deriving DecidableEq, Repr

structure Request where
  ptr : CommandPtr
  queueId : QueueId
  /-- The id in the acknowledgement. -/
  taskId : TaskId
  point : Point
  deriving DecidableEq, Repr

/-- A response with `PollResults`. -/
structure Answer where
  ptr : CommandPtr
  taskId : TaskId
  /-- `cfg::POLL_BLOCKING_TIMEOUT` was over before the queue had a result. -/
  timedOut : Bool
  /-- The worker was done with the command when the response was made. -/
  completed : Bool
  results : List CommandResult
  deriving DecidableEq, Repr

structure Service where
  mgr : State
  requests : List Request
  answers : List Answer

def Service.init : Service := ⟨State.init, [], []⟩

/-- The worker is done with the command. -/
def Completed (s : State) (p : CommandPtr) : Prop :=
  p ∈ s.stored ∨ p ∈ s.flushed.map Flushed.ptr ∨ p ∈ s.dropped.map Prod.fst

instance (s : State) (p : CommandPtr) : Decidable (Completed s p) :=
  inferInstanceAs (Decidable (_ ∨ _ ∨ _))

/-- Handlers that can set the flag `pending`. -/
def isAsync (c : Command) : Bool :=
  c.handler.any fun h => h.async || decide (h.body = .gameloop)

namespace Service

def find (S : Service) (p : CommandPtr) : Option Request := S.requests.find? fun r => r.ptr == p

def setPoint (S : Service) (p : CommandPtr) (pt : Point) : Service :=
  { S with requests := S.requests.map fun r => if r.ptr = p then { r with point := pt } else r }

def close (S : Service) (p : CommandPtr) : Service :=
  { S with requests := S.requests.filter fun r => decide (r.ptr ≠ p) }

/-- `flush_results` returns to `process_request`, with what the pop has taken from the queue. -/
def answer (S : Service) (r : Request) (timedOut : Bool) (m : State) : Service :=
  { S.close r.ptr with
    mgr := m
    answers := S.answers ++
      [{ ptr := r.ptr
         taskId := r.taskId
         timedOut := timedOut
         completed := decide (Completed S.mgr r.ptr)
         results := (m.flushed.drop S.mgr.flushed.length).map Flushed.result }] }

end Service

inductive Action
  /-- A step of the manager that is not of a blocking request. -/
  | manager (a : CommandManager.Action)
  | request (name : String) (data : Any) (q : QueueId)
  | enqueue (p : CommandPtr)
  | lookup (p : CommandPtr)
  | pop (p : CommandPtr) (late : List CommandPtr)
  | timeout (p : CommandPtr)
  deriving DecidableEq, Repr

/-- The command of a request is enqueued by its own thread. -/
def Service.reserves (S : Service) : CommandManager.Action → Bool
  | .emplace p => (S.find p).isSome
  | _ => false

def step (handlers : String → Option Handler) (S : Service) : Action → Option Service
  | .manager a =>
    if S.reserves a then none
    else (CommandManager.step handlers S.mgr a).map fun m => { S with mgr := m }
  | .request name data q =>
    (CommandManager.step handlers S.mgr (.makeCommand name data q false false)).map fun m =>
      { S with
        mgr := m
        requests := if (handlers name).isSome then
            S.requests ++ [⟨S.mgr.nextPtr, q, nextCounter S.mgr, .made⟩]
          else S.requests }
  | .enqueue p =>
    match S.find p with
    | some ⟨_, _, _, .made⟩ =>
      (CommandManager.step handlers S.mgr (.emplace p)).map fun m =>
        { S.setPoint p .enqueued with mgr := m }
    | _ => none
  | .lookup p =>
    match S.find p with
    | some ⟨_, q, _, .enqueued⟩ =>
      match S.mgr.results.lookup q with
      -- `std::out_of_range`: the response is an error
      | none => some (S.close p)
      | some rq =>
        (CommandManager.step handlers S.mgr (.lookupQueue q)).map fun m =>
          { S.setPoint p (.waiting rq.createdAt) with mgr := m }
    | _ => none
  -- `wait_for` returns true as soon as the queue is not empty
  | .pop p late =>
    match S.find p with
    | some ⟨ptr, q, task, .waiting createdAt⟩ =>
      match S.mgr.results.lookup q with
      | none => none
      | some rq =>
        if rq.contents ≠ [] ∧ ∀ x ∈ late, isAsync (S.mgr.cmds x) = true then
          (CommandManager.step handlers S.mgr (.popResults q createdAt late)).map
            (S.answer ⟨ptr, q, task, .waiting createdAt⟩ false)
        else none
    | _ => none
  | .timeout p =>
    match S.find p with
    | some ⟨ptr, q, task, .waiting createdAt⟩ =>
      match S.mgr.results.lookup q with
      | none => none
      | some rq =>
        if rq.contents = [] then
          (CommandManager.step handlers S.mgr (.popResults q createdAt [])).map
            (S.answer ⟨ptr, q, task, .waiting createdAt⟩ true)
        else none
    | _ => none

/-- The worker completes the command within the wait: before its end where the time was over, and at
any time where the response was made earlier. -/
def Answer.CompletedInTime (a : Answer) (s : State) : Prop :=
  if a.timedOut then a.completed = true else Completed s a.ptr

instance (a : Answer) (s : State) : Decidable (a.CompletedInTime s) :=
  inferInstanceAs (Decidable (if a.timedOut then a.completed = true else Completed s a.ptr))

/-- Every response contains the result of its own command, if that was completed within the wait. -/
def OwnResults (S : Service) : Prop :=
  ∀ a ∈ S.answers, a.CompletedInTime S.mgr → a.taskId ∈ a.results.map CommandResult.commandId

instance (S : Service) : Decidable (OwnResults S) :=
  inferInstanceAs (Decidable (∀ a ∈ S.answers, a.CompletedInTime S.mgr →
    a.taskId ∈ a.results.map CommandResult.commandId))

/-! ## A result that was there before -/

/-- The worker executes a plain command. -/
def execute (m : Message) : List Action :=
  List.replicate 4 (.manager .work) ++ [.manager (.fnReturns m)] ++
    List.replicate 6 (.manager .work)

/-- A client has not polled the result of its first command when it sends a blocking one. -/
def unpolledResult : List Action :=
  (connect 1).map .manager ++
    [.manager (.makeCommand "StoreValue" [7] 1 false false), .manager (.emplace 1)] ++ execute [8] ++
    [.request "GetValue" [9] 1, .enqueue 2, .lookup 2, .pop 2 []] ++ execute [10]

theorem unpolledResult_answered :
    ∃ S, run (step fun _ => some plainHandler) Service.init unpolledResult = some S ∧
      ¬OwnResults S := by
  refine ⟨(run (step fun _ => some plainHandler) Service.init unpolledResult).get (by decide),
    by simp, ?_⟩
  decide

/-! ## Requests that have their queue to themselves -/

/-- The command whose result a step stores. -/
def stores (s : State) : CommandManager.Action → Option CommandPtr
  | .work =>
    match s.worker with
    | .user p .storing => if (s.cmds p).discardResult then none else some p
    | _ => none
  | _ => none

/-- The id of the queue that a step destroys. -/
def destroys (s : State) : CommandManager.Action → Option QueueId
  | .work =>
    match s.worker with
    | .builtin p false =>
      if (s.cmds p).base.type = .destroyQueue then some (s.cmds p).base.queueId else none
    | _ => none
  | _ => none

/-- The id of the queue that a step flushes. -/
def flushes : CommandManager.Action → Option QueueId
  | .popResults id _ _ => some id
  | _ => none

/-- A step of the manager leaves the queue to the request: another command of the queue is not stored
before the command of the request, and does not evict it, nobody else takes it, and the queue is not
destroyed. -/
def Spares (s : State) (r : Request) (a : CommandManager.Action) : Prop :=
  (∀ p ∈ stores s a, p ≠ r.ptr → (s.cmds p).base.queueId = r.queueId →
    ∀ rq ∈ s.results.lookup r.queueId, r.ptr ∈ rq.contents ∧ rq.q.q.evicted ≠ some r.ptr) ∧
  (∀ id ∈ flushes a, id = r.queueId → ∀ rq ∈ s.results.lookup r.queueId, r.ptr ∉ rq.contents) ∧
  ∀ id ∈ destroys s a, id ≠ r.queueId

instance (s : State) (r : Request) (a : CommandManager.Action) : Decidable (Spares s r a) :=
  inferInstanceAs (Decidable (_ ∧ _ ∧ _))

/-- A blocking command with a synchronous handler is enqueued while its queue is empty and no other
request waits for it, and until it is answered the steps of the manager leave the queue to it. -/
def Undisturbed (S : Service) : Action → Prop
  | .manager a => ∀ r ∈ S.requests, r.point ≠ .made → Spares S.mgr r a
  | .enqueue p =>
    isAsync (S.mgr.cmds p) = false ∧
      (∃ rq ∈ S.mgr.results.lookup (S.mgr.cmds p).base.queueId, rq.contents = []) ∧
      ∀ r ∈ S.requests, r.point ≠ .made → r.queueId ≠ (S.mgr.cmds p).base.queueId
  | _ => True

instance (S : Service) : DecidablePred (Undisturbed S)
  | .manager a => inferInstanceAs (Decidable (∀ r ∈ S.requests, r.point ≠ .made → Spares S.mgr r a))
  | .enqueue p =>
    inferInstanceAs (Decidable (isAsync (S.mgr.cmds p) = false ∧
      (∃ rq ∈ S.mgr.results.lookup (S.mgr.cmds p).base.queueId, rq.contents = []) ∧
      ∀ r ∈ S.requests, r.point ≠ .made → r.queueId ≠ (S.mgr.cmds p).base.queueId))
  | .request _ _ _ | .lookup _ | .pop _ _ | .timeout _ => isTrue trivial

variable {handlers : String → Option Handler} {s t : State} {a : CommandManager.Action}
  {p : CommandPtr} {r : Request}

/-- Only asynchronous commands are ever pending. -/
structure Flags (s : State) : Prop where
  pending : ∀ p, (s.cmds p).pending = true → isAsync (s.cmds p) = true
  allocated : ∀ p m, s.worker = .user p (.allocated m) → isAsync (s.cmds p) = true

theorem flags_init : Flags State.init where
  pending _ h := by cases h
  allocated _ _ h := by cases h

theorem isAsync_same {c c' : Command} (h : c.Same c') : isAsync c' = isAsync c := by
  unfold isAsync
  rw [h.2.1]

theorem Flags.setCommand (h : Flags s) {c : Command} (hc : (s.cmds p).Same c)
    (hpending : c.pending = true → isAsync (s.cmds p) = true) (q : CommandPtr)
    (hq : (Function.update s.cmds p c q).pending = true) :
    isAsync (Function.update s.cmds p c q) = true := by
  rw [isAsync_same (same_update hc q)]
  by_cases hqp : q = p
  · subst hqp
    rw [Function.update_self] at hq
    exact hpending hq
  · rw [Function.update_of_ne hqp] at hq
    exact h.pending q hq

theorem Flags.frame (h : Flags s) (hcmds : t.cmds = s.cmds)
    (hworker : ∀ p m, t.worker = .user p (.allocated m) → s.worker = .user p (.allocated m)) :
    Flags t where
  pending p hp := by
    rw [hcmds] at hp ⊢
    exact h.pending p hp
  allocated p m hp := by
    rw [hcmds]
    exact h.allocated p m (hworker p m hp)

theorem Flags.make (h : Flags s) (hw : Wf s) {c : Command} (hc : c.pending = false)
    (hcmds : t.cmds = Function.update s.cmds s.nextPtr c) (hworker : t.worker = s.worker) :
    Flags t where
  pending q hq := by
    rw [hcmds] at hq ⊢
    by_cases hnew : q = s.nextPtr
    · subst hnew
      rw [Function.update_self, hc] at hq
      cases hq
    · rw [Function.update_of_ne hnew] at hq ⊢
      exact h.pending q hq
  allocated q m hq := by
    rw [hworker] at hq
    have hlt := hw.lt_of_copies (copies_pos_of_held (mem_held_of_user hq))
    rw [hcmds, Function.update_of_ne (Nat.ne_of_lt hlt)]
    exact h.allocated q m hq

theorem UserMove.flags {h : Handler} {c c' : Command} {st st' : Stage} (hmove : UserMove h c st c' st')
    (hh : st.foreign = false → c.handler = some h)
    (halloc : ∀ m, st = .allocated m → isAsync c = true) :
    (c'.pending = true → c.pending = true ∨ isAsync c = true) ∧
      ∀ m, st' = .allocated m → isAsync c = true := by
  cases hmove with
  | allocate m hasync =>
    refine ⟨fun hp => .inl ?_, fun _ _ => ?_⟩
    · unfold Command.saveCommandResult at hp
      split at hp <;> exact hp
    · unfold isAsync
      rw [hh rfl, Option.any_some, hasync, Bool.true_or]
  | setPending m => exact ⟨fun _ => .inr (halloc m rfl), nofun⟩
  | setAsyncHandler m hbody =>
    refine ⟨fun _ => .inr ?_, nofun⟩
    unfold isAsync
    rw [hh rfl, Option.any_some, decide_eq_true hbody, Bool.or_true]
  | _ => exact ⟨fun hp => .inl hp, nofun⟩

theorem Flags.advance (h : Flags s) {c : Command} {st' : Stage} (hc : (s.cmds p).Same c)
    (hpending : c.pending = true → isAsync (s.cmds p) = true)
    (halloc : ∀ m, st' = .allocated m → isAsync (s.cmds p) = true)
    (hcmds : t.cmds = Function.update s.cmds p c) (hworker : t.worker = .user p st') : Flags t where
  pending q hq := by
    rw [hcmds] at hq ⊢
    exact h.setCommand hc hpending q hq
  allocated q m hq := by
    rw [hworker] at hq
    obtain ⟨rfl, rfl⟩ := Worker.user.inj hq
    rw [hcmds, isAsync_same (same_update hc p)]
    exact halloc m rfl

theorem Flags.sameWorker (h : Flags s) {c : Command} (hc : (s.cmds p).Same c)
    (hpending : c.pending = true → (s.cmds p).pending = true)
    (hcmds : t.cmds = Function.update s.cmds p c)
    (hworker : ∀ p m, t.worker = .user p (.allocated m) → s.worker = .user p (.allocated m)) :
    Flags t where
  pending q hq := by
    rw [hcmds] at hq ⊢
    exact h.setCommand hc (fun hp => h.pending p (hpending hp)) q hq
  allocated q m hq := by
    rw [hcmds, isAsync_same (same_update hc q)]
    exact h.allocated q m (hworker q m hq)

theorem GameMove.pending {c c' : Command} {pt : GamePoint} {pt' : Option GamePoint}
    (hmove : GameMove c pt c' pt') (h : c'.pending = true) : c.pending = true := by
  cases hmove with
  | assign => exact h
  | storeError => exact h
  | clearPending => cases h

theorem flags_step (h : Flags s) (hw : Wf s) (heff : Effect handlers s a t) : Flags t := by
  cases heff with
  | makeUser name data q discard done hd => exact h.make hw rfl rfl rfl
  | makeBuiltin a q size ty io ha hty hio => exact h.make hw rfl rfl rfl
  | take p rest hidle hq =>
    refine h.frame rfl fun q m hworker => ?_
    dsimp only at hworker
    split at hworker <;> cases hworker
  | createQueue p hb hty =>
    refine h.frame ?_ nofun
    obtain ⟨_, _, heq⟩ := createQueue_frame s (s.cmds p).base.queueId (s.cmds p).base.queueSize
    rw [heq]
  | destroyQueue p hb hty =>
    refine h.frame ?_ nofun
    obtain ⟨_, _, heq⟩ := destroyQueue_frame s (s.cmds p).base.queueId
    rw [heq]
  | shutdown p hb hty => exact h.frame rfl nofun
  | finishBuiltin p hb =>
    have hsame : (s.cmds p).Same { s.cmds p with resultCode := .ok } := ⟨rfl, rfl, rfl⟩
    exact h.sameWorker hsame id rfl nofun
  | userMove a p st st' hd c hst hh hmove hposted hassign =>
    have hflags := UserMove.flags hmove hh fun m hm => h.allocated p m (hm ▸ hst)
    refine h.advance hmove.base_eq (fun hp => ?_) hflags.2 rfl rfl
    rcases hflags.1 hp with hp | hp
    · exact h.pending p hp
    · exact hp
  | putWork p m hst =>
    refine h.advance (Command.Same.refl _) (h.pending p) ?_ rfl rfl
    exact nofun
  | recordPending p hst =>
    refine h.advance (Command.Same.refl _) (h.pending p) ?_ rfl rfl
    exact nofun
  | store t p hst hstore =>
    obtain ⟨_, _, rfl⟩ := storeResult_frame hstore
    exact h.frame rfl nofun
  | popResults t id createdAt late hpop =>
    obtain ⟨rq, pc, -, -, rfl⟩ := popResults_cases hw.rings hpop
    exact h.frame rfl fun _ _ hq => hq
  | handlerPacks p any hgame howned =>
    have hsame : (s.cmds p).Same { s.cmds p with M := any } := ⟨rfl, rfl, rfl⟩
    exact h.sameWorker hsame id rfl fun _ _ hq => hq
  | finishItem p pt c pt' hgame howned hmove =>
    exact h.sameWorker hmove.base_eq (GameMove.pending hmove) rfl fun _ _ hq => hq
  | _ => exact h.frame rfl fun _ _ hq => hq

/-! ### The command of a request -/

/-- What stays as `make_command` left it. -/
structure Known (s : State) (r : Request) : Prop where
  lt : r.ptr < s.nextPtr
  type : (s.cmds r.ptr).base.type = .user
  queueId : (s.cmds r.ptr).base.queueId = r.queueId
  taskId : (s.cmds r.ptr).base.taskId = r.taskId
  kept : (s.cmds r.ptr).discardResult = false

theorem Known.frame (h : Known s r) (hnext : s.nextPtr ≤ t.nextPtr)
    (hsame : (s.cmds r.ptr).Same (t.cmds r.ptr)) : Known t r where
  lt := Nat.lt_of_lt_of_le h.lt hnext
  type := by rw [hsame.1]; exact h.type
  queueId := by rw [hsame.1]; exact h.queueId
  taskId := by rw [hsame.1]; exact h.taskId
  kept := by rw [hsame.2.2]; exact h.kept

theorem Known.congr (h : Known s r) {r' : Request} (hptr : r'.ptr = r.ptr)
    (hqueue : r'.queueId = r.queueId) (htask : r'.taskId = r.taskId) : Known s r' where
  lt := by rw [hptr]; exact h.lt
  type := by rw [hptr]; exact h.type
  queueId := by rw [hptr, hqueue]; exact h.queueId
  taskId := by rw [hptr, htask]; exact h.taskId
  kept := by rw [hptr]; exact h.kept

theorem Known.step (h : Known s r) (hw : Wf s) (heff : Effect handlers s a t) : Known t r := by
  have hkeeps := heff.keeps hw
  exact h.frame hkeeps.next (hkeeps.same r.ptr h.lt)

/-- A command of a client stays with the thread that made it until that thread enqueues it. -/
theorem made_step (h : p ∈ s.made) (hty : (s.cmds p).base.type = .user) (hw : Wf s)
    (heff : Effect handlers s a t) (ha : a ≠ .emplace p) : p ∈ t.made := by
  cases heff with
  | makeUser name data q discard done hd => exact List.mem_append_left _ h
  | makeBuiltin a q size ty io hwork hbuiltin hio => exact List.mem_append_left _ h
  | emplace q hmade hq hlock =>
    have hne : p ≠ q := fun heq => ha (heq ▸ rfl)
    exact (List.mem_erase_of_ne hne).mpr h
  | enqueue q waiting hmade hq hio hlock =>
    have hne : p ≠ q := fun heq => hq (heq ▸ hty)
    exact (List.mem_erase_of_ne hne).mpr h
  | ioEnqueues q hio hlock =>
    have hne : p ≠ q := fun heq => (hw.io q hio).2 (heq ▸ hty)
    exact (List.mem_erase_of_ne hne).mpr h
  | createQueue q hb hq =>
    obtain ⟨_, _, heq⟩ := createQueue_frame s (s.cmds q).base.queueId (s.cmds q).base.queueSize
    rw [heq]
    exact h
  | destroyQueue q hb hq =>
    obtain ⟨_, _, heq⟩ := destroyQueue_frame s (s.cmds q).base.queueId
    rw [heq]
    exact h
  | store t q hst hstore =>
    obtain ⟨_, _, rfl⟩ := storeResult_frame hstore
    exact h
  | popResults t id createdAt late hpop =>
    obtain ⟨rq, pc, -, -, rfl⟩ := popResults_cases hw.rings hpop
    exact h
  | _ => exact h

/-- The command is in its queue, or on its way to it and the queue is empty. -/
structure Served (s : State) (r : Request) : Prop where
  sync : isAsync (s.cmds r.ptr) = false
  place : ∃ rq, s.results.lookup r.queueId = some rq ∧
    (r.ptr ∈ rq.contents ∨
      rq.contents = [] ∧ (r.ptr ∈ s.workQueue ∨ r.ptr ∈ s.worker.held))

theorem Served.frame (h : Served s r) (hsame : (s.cmds r.ptr).Same (t.cmds r.ptr))
    (hresults : t.results.lookup r.queueId = s.results.lookup r.queueId)
    (hway : r.ptr ∈ s.workQueue ∨ r.ptr ∈ s.worker.held →
      r.ptr ∈ t.workQueue ∨ r.ptr ∈ t.worker.held) : Served t r where
  sync := by rw [isAsync_same hsame]; exact h.sync
  place := by
    obtain ⟨rq, hl, hplace⟩ := h.place
    exact ⟨rq, hresults.trans hl, hplace.imp id fun ⟨hempty, hp⟩ => ⟨hempty, hway hp⟩⟩

theorem Served.congr (h : Served s r) {r' : Request} (hptr : r'.ptr = r.ptr)
    (hqueue : r'.queueId = r.queueId) : Served s r' where
  sync := by rw [hptr]; exact h.sync
  place := by rw [hptr, hqueue]; exact h.place

/-- A command that was enqueued is not made any more. -/
theorem Served.notMem_made (h : Served s r) (hw : Wf s) : r.ptr ∉ s.made := by
  obtain ⟨rq, hl, hp | ⟨-, hp | hp⟩⟩ := h.place
  · exact (hw.done_alone (Or.inl (mem_stored.mpr ⟨_, rq, hl, hp⟩))).2.1
  · exact hw.queued_alone hp
  · exact (hw.held_alone hp).1

theorem Served.quiet (h : Served s r) (hq : Quiet s t) : Served t r := by
  apply h.frame (hq.same r.ptr)
  · rw [hq.results]
  · rw [hq.workQueue, hq.held]
    exact id

theorem Served.enqueue (h : Served s r) (q : CommandPtr) : Served (enqueueCommand s q) r := by
  refine h.frame (Command.Same.refl _) rfl ?_
  rintro (hp | hp)
  · exact .inl (mem_push.mpr (.inr hp))
  · exact .inr hp

theorem Served.take (h : Served s r) (hw : Wf s) {rest : List CommandPtr}
    (hidle : s.worker = .idle) (hq : s.workQueue = p :: rest) :
    Served { s with
      workQueue := Heap.pop (queueCompare s.cmds) s.workQueue
      worker := if (s.cmds p).base.type = .user then .user p .taken else .builtin p false } r := by
  refine h.frame (Command.Same.refl _) rfl ?_
  rintro (hp | hp)
  · show r.ptr ∈ Heap.pop (queueCompare s.cmds) s.workQueue ∨ r.ptr ∈ Worker.held (ite _ _ _)
    rw [held_taken, (hw.pop_perm hq).mem_iff]
    rw [hq, List.mem_cons] at hp
    rcases hp with rfl | hp
    · exact .inr List.mem_cons_self
    · exact .inl hp
  · rw [hidle] at hp
    cases hp

/-- The worker is done with a built-in command. -/
theorem Served.builtin (h : Served s r) (hk : Known s r) (hw : Wf s) {b : Bool}
    (hb : s.worker = .builtin p b) (hsame : (s.cmds r.ptr).Same (t.cmds r.ptr))
    (hresults : t.results.lookup r.queueId = s.results.lookup r.queueId)
    (hqueue : t.workQueue = s.workQueue) : Served t r := by
  apply h.frame hsame hresults
  rintro (hp | hp)
  · exact .inl (hqueue ▸ hp)
  · rw [hb] at hp
    obtain rfl := List.mem_singleton.mp hp
    exact absurd hk.type (hw.builtin _ b hb)

theorem Served.store (h : Served s r) (hk : Known s r) (hst : s.worker = .user p .storing)
    (hok : Spares s r .work) (hstore : storeResult s p = some t) : Served t r := by
  obtain ⟨rq, hl, hplace⟩ := h.place
  -- a command that was dropped is not that of the request
  have hway : p ≠ r.ptr → r.ptr ∈ s.workQueue ∨ r.ptr ∈ s.worker.held → r.ptr ∈ s.workQueue := by
    rintro hne (hp | hp)
    · exact hp
    · rw [hst] at hp
      exact absurd (List.mem_singleton.mp hp).symm hne
  rcases storeResult_cases hstore with ⟨hdiscard, rfl⟩ | ⟨-, hnone, rfl⟩ | ⟨rq', hkept, hl', rfl⟩
  · have hne : p ≠ r.ptr := by
      rintro rfl
      rw [hk.kept] at hdiscard
      cases hdiscard
    exact h.frame (Command.Same.refl _) rfl fun hp => .inl (hway hne hp)
  · have hne : p ≠ r.ptr := by
      rintro rfl
      rw [hk.queueId, hl] at hnone
      cases hnone
    exact h.frame (Command.Same.refl _) rfl fun hp => .inl (hway hne hp)
  · by_cases hq : (s.cmds p).base.queueId = r.queueId
    · rw [hq] at hl' ⊢
      obtain rfl : rq' = rq := Option.some.inj (hl'.symm.trans hl)
      refine ⟨h.sync, _, AList.lookup_insert _, .inl ?_⟩
      by_cases hne : p = r.ptr
      · rw [← hne]
        exact RingBuffer.mem_emplace_self _ _
      · have hstores : stores s .work = some p := by
          simp only [stores, hst]
          rw [hkept]
          rfl
        obtain ⟨hmem, hevicted⟩ := hok.1 p hstores hne hq rq' hl'
        exact RingBuffer.mem_emplace_of_mem hmem hevicted p
    · have hne : p ≠ r.ptr := by
        rintro rfl
        exact hq hk.queueId
      refine h.frame (Command.Same.refl _) ?_ fun hp => .inl (hway hne hp)
      exact AList.lookup_insert_ne (Ne.symm hq)

/-- A flush of another queue, or one that does not find the command. -/
theorem Served.pop (h : Served s r) (hw : Wf s) {id : QueueId} {createdAt : Nat}
    {late : List CommandPtr} (hok : Spares s r (.popResults id createdAt late))
    (hpop : popResults s id createdAt late = some t) : Served t r := by
  obtain ⟨rq, pc, hl, -, rfl⟩ := popResults_cases hw.rings hpop
  by_cases hq : id = r.queueId
  · subst hq
    obtain ⟨rq', hl', hplace⟩ := h.place
    obtain rfl : rq' = rq := Option.some.inj (hl'.symm.trans hl)
    obtain ⟨hempty, hway⟩ := hplace.resolve_left (hok.2.1 _ rfl rfl rq' hl)
    refine ⟨h.sync, _, AList.lookup_insert _, .inr ⟨?_, hway⟩⟩
    show rq'.contents.reverse.filter _ = []
    rw [hempty]
    rfl
  · refine h.frame (Command.Same.refl _) ?_ fun hp => hp
    exact AList.lookup_insert_ne (Ne.symm hq)

theorem Served.step (h : Served s r) (hk : Known s r) (hw : Wf s) (hok : Spares s r a)
    (heff : Effect handlers s a t) : Served t r := by
  have hsame := (heff.keeps hw).same r.ptr hk.lt
  cases heff with
  | makeUser name data q discard done hd => exact h.frame hsame rfl id
  | makeBuiltin a q size ty io ha hty hio => exact h.frame hsame rfl id
  | emplace p hmade hty hlock =>
    exact (h.enqueue p).quiet (quiet_of_eq rfl fun _ h => h)
  | enqueue p waiting hmade hty hio hlock =>
    exact (h.enqueue p).quiet (quiet_of_eq rfl fun _ h => h)
  | ioEnqueues p hio hlock =>
    exact (h.enqueue p).quiet (quiet_of_eq rfl fun _ h => by cases h)
  | ioReturns p hio hcode => exact h.quiet (quiet_of_eq rfl fun _ h => by cases h)
  | take p rest hidle hq => exact h.take hw hidle hq
  | createQueue p hb hty =>
    obtain ⟨rq, hl, -⟩ := h.place
    refine h.builtin hk hw hb hsame ?_ ?_
    · rcases createQueue_cases s (s.cmds p).base.queueId (s.cmds p).base.queueSize with
        ⟨_, -, heq⟩ | ⟨hnew, heq⟩ <;> rw [heq]
      refine AList.lookup_insert_ne fun hq => hnew ?_
      rw [← hq]
      exact AList.lookup_isSome.mp (by rw [hl]; rfl)
    · obtain ⟨_, _, heq⟩ := createQueue_frame s (s.cmds p).base.queueId (s.cmds p).base.queueSize
      rw [heq]
  | destroyQueue p hb hty =>
    have hdestroys : destroys s .work = some (s.cmds p).base.queueId := by
      simp only [destroys, hb]
      rw [if_pos hty]
    refine h.builtin hk hw hb hsame ?_ ?_
    · rcases destroyQueue_cases s (s.cmds p).base.queueId with ⟨-, heq⟩ | ⟨_, -, heq⟩ <;> rw [heq]
      exact AList.lookup_erase_ne (Ne.symm (hok.2.2 _ hdestroys))
    · obtain ⟨_, _, heq⟩ := destroyQueue_frame s (s.cmds p).base.queueId
      rw [heq]
  | shutdown p hb hty => exact h.builtin hk hw hb hsame rfl rfl
  | finishBuiltin p hb => exact h.builtin hk hw hb hsame rfl rfl
  | userMove a p st st' hd c hst hh hmove hposted hassign =>
    exact h.quiet (quiet_advance hst hmove.base_eq)
  | putWork p m hst => exact h.quiet (quiet_putWork hst _)
  | recordPending p hst => exact h.quiet (quiet_recordPending hst _)
  | store t p hst hstore => exact h.store hk hst hok hstore
  | popResults t id createdAt late hpop => exact h.pop hw hok hpop
  | handlerPacks p any hgame howned => exact h.quiet (quiet_handlerPacks s p any _)
  | finishItem p pt c pt' hgame howned hmove => exact h.quiet (quiet_finishItem hmove _)
  | _ => exact h.quiet (quiet_of_eq rfl fun _ h => h)

/-- The command enters the work queue while its result queue is empty. -/
theorem served_of_emplace (hk : Known s r) (hsync : isAsync (s.cmds r.ptr) = false)
    (hempty : ∃ rq ∈ s.results.lookup (s.cmds r.ptr).base.queueId, rq.contents = [])
    (hstep : CommandManager.step handlers s (.emplace r.ptr) = some t) : Served t r := by
  obtain ⟨-, ht⟩ := Option.ite_none_right_eq_some.mp hstep
  obtain rfl := Option.some.inj ht
  obtain ⟨rq, hl, hempty⟩ := hempty
  rw [hk.queueId] at hl
  exact ⟨hsync, rq, hl, .inr ⟨hempty, .inl (mem_push.mpr (.inl rfl))⟩⟩

/-! ### Runs -/

/-- A response that came in time has the result; one that came late had none to give. -/
def Answer.Own (a : Answer) : Prop :=
  if a.timedOut then a.completed = false else a.taskId ∈ a.results.map CommandResult.commandId

structure Inv (S : Service) : Prop where
  wf : Wf S.mgr
  flags : Flags S.mgr
  known : ∀ r ∈ S.requests, Known S.mgr r
  made : ∀ r ∈ S.requests, r.point = .made → r.ptr ∈ S.mgr.made
  served : ∀ r ∈ S.requests, r.point ≠ .made → Served S.mgr r
  alone : ∀ r ∈ S.requests, ∀ r' ∈ S.requests, r.point ≠ .made → r'.point ≠ .made →
    r.queueId = r'.queueId → r.ptr = r'.ptr
  answers : ∀ a ∈ S.answers, a.Own

theorem inv_init : Inv Service.init where
  wf := wf_init
  flags := flags_init
  known _ h := by cases h
  made _ h := by cases h
  served _ h := by cases h
  alone _ h := by cases h
  answers _ h := by cases h

variable {S T : Service}

theorem find_spec (h : S.find p = some r) : r ∈ S.requests ∧ r.ptr = p :=
  ⟨List.mem_of_find?_eq_some h, by simpa using List.find?_some h⟩

/-- The manager takes a step, and every request stays where it is. -/
theorem Inv.manager (h : Inv S) (hstep : CommandManager.step handlers S.mgr a = some t)
    (hmade : ∀ r ∈ S.requests, r.point = .made → a ≠ .emplace r.ptr)
    (hok : ∀ r ∈ S.requests, r.point ≠ .made → Spares S.mgr r a) : Inv { S with mgr := t } where
  wf := wf_step h.wf (step_effect hstep)
  flags := flags_step h.flags h.wf (step_effect hstep)
  known r hr := (h.known r hr).step h.wf (step_effect hstep)
  made r hr hpt :=
    made_step (h.made r hr hpt) (h.known r hr).type h.wf (step_effect hstep) (hmade r hr hpt)
  served r hr hpt := (h.served r hr hpt).step (h.known r hr) h.wf (hok r hr hpt) (step_effect hstep)
  alone := h.alone
  answers := h.answers

/-- Requests leave, or go on from one point behind the enqueueing to another. -/
theorem Inv.requests (h : Inv S) {requests : List Request} {answers : List Answer}
    (hcases : ∀ r ∈ requests, ∃ r' ∈ S.requests, r.ptr = r'.ptr ∧ r.queueId = r'.queueId ∧
      r.taskId = r'.taskId ∧ (r.point = .made ↔ r'.point = .made))
    (hanswers : ∀ a ∈ answers, a.Own) :
    Inv { S with requests := requests, answers := answers } where
  wf := h.wf
  flags := h.flags
  known r hr := by
    obtain ⟨r', hr', hptr, hqueue, htask, -⟩ := hcases r hr
    exact (h.known r' hr').congr hptr hqueue htask
  made r hr hpt := by
    obtain ⟨r', hr', hptr, -, -, hpoint⟩ := hcases r hr
    rw [hptr]
    exact h.made r' hr' (hpoint.mp hpt)
  served r hr hpt := by
    obtain ⟨r', hr', hptr, hqueue, -, hpoint⟩ := hcases r hr
    exact (h.served r' hr' fun hmade => hpt (hpoint.mpr hmade)).congr hptr hqueue
  alone r hr r' hr' hpt hpt' hq := by
    obtain ⟨r₁, hr₁, hptr₁, hqueue₁, -, hpoint₁⟩ := hcases r hr
    obtain ⟨r₂, hr₂, hptr₂, hqueue₂, -, hpoint₂⟩ := hcases r' hr'
    rw [hptr₁, hptr₂]
    rw [hqueue₁, hqueue₂] at hq
    exact h.alone r₁ hr₁ r₂ hr₂ (fun hmade => hpt (hpoint₁.mpr hmade))
      (fun hmade => hpt' (hpoint₂.mpr hmade)) hq
  answers := hanswers

theorem Inv.close (h : Inv S) (p : CommandPtr) {answers : List Answer}
    (hanswers : ∀ a ∈ answers, a.Own) : Inv { S.close p with answers := answers } := by
  refine h.requests (fun r hr => ?_) hanswers
  exact ⟨r, (List.mem_filter.mp hr).1, rfl, rfl, rfl, Iff.rfl⟩

theorem Inv.goOn (h : Inv S) (hr : r ∈ S.requests) (hpt : r.point ≠ .made) {pt : Point}
    (hpt' : pt ≠ .made) : Inv (S.setPoint r.ptr pt) := by
  refine h.requests (fun r' hr' => ?_) h.answers
  obtain ⟨r₀, hr₀, rfl⟩ := List.mem_map.mp hr'
  refine ⟨r₀, hr₀, ?_⟩
  split
  · next heq =>
    -- a request with the same command cannot be at its beginning
    have hmade : r₀.point ≠ .made := fun hmade =>
      (h.served r hr hpt).notMem_made h.wf (heq ▸ h.made r₀ hr₀ hmade)
    exact ⟨rfl, rfl, rfl, iff_of_false hpt' hmade⟩
  · exact ⟨rfl, rfl, rfl, Iff.rfl⟩

theorem Inv.enqueue (h : Inv S) (hok : Undisturbed S (.enqueue r.ptr))
    (hstep : CommandManager.step handlers S.mgr (.emplace r.ptr) = some t) :
    Inv { S.setPoint r.ptr .enqueued with mgr := t } := by
  obtain ⟨hsync, hempty, halone⟩ := hok
  have heff := step_effect hstep
  have hcases : ∀ r' ∈ (S.setPoint r.ptr .enqueued).requests, ∃ r₀ ∈ S.requests,
      r'.ptr = r₀.ptr ∧ r'.queueId = r₀.queueId ∧ r'.taskId = r₀.taskId ∧
        (r₀.ptr = r.ptr ∧ r'.point = .enqueued ∨ r₀.ptr ≠ r.ptr ∧ r'.point = r₀.point) := by
    intro r' hr'
    obtain ⟨r₀, hr₀, rfl⟩ := List.mem_map.mp hr'
    refine ⟨r₀, hr₀, ?_⟩
    split
    · next heq => exact ⟨rfl, rfl, rfl, .inl ⟨heq, rfl⟩⟩
    · next hne => exact ⟨rfl, rfl, rfl, .inr ⟨hne, rfl⟩⟩
  refine ⟨wf_step h.wf heff, flags_step h.flags h.wf heff, ?_, ?_, ?_, ?_, h.answers⟩
  · intro r' hr'
    obtain ⟨r₀, hr₀, hptr, hqueue, htask, -⟩ := hcases r' hr'
    exact ((h.known r₀ hr₀).step h.wf heff).congr hptr hqueue htask
  · intro r' hr' hpt
    obtain ⟨r₀, hr₀, hptr, -, -, ⟨-, hpoint⟩ | ⟨hne, hpoint⟩⟩ := hcases r' hr'
    · cases hpoint.symm.trans hpt
    · rw [hptr]
      exact made_step (h.made r₀ hr₀ (hpoint ▸ hpt)) (h.known r₀ hr₀).type h.wf heff
        fun heq => hne (CommandManager.Action.emplace.inj heq).symm
  · intro r' hr' hpt
    obtain ⟨r₀, hr₀, hptr, hqueue, -, ⟨heq, -⟩ | ⟨-, hpoint⟩⟩ := hcases r' hr'
    · rw [← heq] at hsync hempty hstep
      exact (served_of_emplace (h.known r₀ hr₀) hsync hempty hstep).congr hptr hqueue
    · have hs := h.served r₀ hr₀ (hpoint ▸ hpt)
      have hspares : Spares S.mgr r₀ (.emplace r.ptr) := ⟨nofun, nofun, nofun⟩
      exact (hs.step (h.known r₀ hr₀) h.wf hspares heff).congr hptr hqueue
  · intro r₁ hr₁ r₂ hr₂ hpt₁ hpt₂ hq
    obtain ⟨s₁, hs₁, hptr₁, hqueue₁, -, hpoint₁⟩ := hcases r₁ hr₁
    obtain ⟨s₂, hs₂, hptr₂, hqueue₂, -, hpoint₂⟩ := hcases r₂ hr₂
    rw [hptr₁, hptr₂]
    rw [hqueue₁, hqueue₂] at hq
    rcases hpoint₁ with ⟨heq₁, -⟩ | ⟨-, hpoint₁⟩ <;> rcases hpoint₂ with ⟨heq₂, -⟩ | ⟨-, hpoint₂⟩
    · exact heq₁.trans heq₂.symm
    · have hqueue := (h.known s₁ hs₁).queueId
      rw [heq₁, hq] at hqueue
      exact absurd hqueue.symm (halone s₂ hs₂ (hpoint₂ ▸ hpt₂))
    · have hqueue := (h.known s₂ hs₂).queueId
      rw [heq₂, ← hq] at hqueue
      exact absurd hqueue.symm (halone s₁ hs₁ (hpoint₁ ▸ hpt₁))
    · exact h.alone s₁ hs₁ s₂ hs₂ (hpoint₁ ▸ hpt₁) (hpoint₂ ▸ hpt₂) hq

/-- `process_request` makes the command of a new request. -/
theorem Inv.addRequest (h : Inv S) (hk : Known S.mgr r) (hmade : r.ptr ∈ S.mgr.made)
    (hpt : r.point = .made) : Inv { S with requests := S.requests ++ [r] } := by
  have hcases : ∀ r' ∈ S.requests ++ [r], r' ∈ S.requests ∨ r' = r := by
    intro r' hr'
    exact (List.mem_append.mp hr').imp_right List.mem_singleton.mp
  have hold : ∀ r' ∈ S.requests ++ [r], r'.point ≠ .made → r' ∈ S.requests := by
    intro r' hr' hpt'
    refine (hcases r' hr').resolve_right ?_
    rintro rfl
    exact hpt' hpt
  refine ⟨h.wf, h.flags, ?_, ?_, ?_, ?_, h.answers⟩
  · intro r' hr'
    rcases hcases r' hr' with hr' | rfl
    · exact h.known r' hr'
    · exact hk
  · intro r' hr' hpt'
    rcases hcases r' hr' with hr' | rfl
    · exact h.made r' hr' hpt'
    · exact hmade
  · exact fun r' hr' hpt' => h.served r' (hold r' hr' hpt') hpt'
  · exact fun r₁ hr₁ r₂ hr₂ hpt₁ hpt₂ =>
      h.alone r₁ (hold r₁ hr₁ hpt₁) r₂ (hold r₂ hr₂ hpt₂) hpt₁ hpt₂

/-- What a pop of the queue of a request adds to the response. -/
theorem flushed_of_pop (hw : Wf s) {id : QueueId} {createdAt : Nat} {late : List CommandPtr}
    {rq : ResultQueue} (hl : s.results.lookup id = some rq)
    (hstep : CommandManager.step handlers s (.popResults id createdAt late) = some t) :
    (t.flushed.drop s.flushed.length).map Flushed.result =
      (rq.contents.reverse.filter (s.ready late)).reverse.map fun p => (s.cmds p).toResult := by
  obtain ⟨rq', pc, hl', -, rfl⟩ := popResults_cases hw.rings hstep
  obtain rfl : rq' = rq := Option.some.inj (hl'.symm.trans hl)
  simp

theorem commandId_toResult (c : Command) : c.toResult.commandId = c.base.taskId := by
  unfold Command.toResult
  split <;> rfl

theorem own_of_pop (h : Inv S) (hr : r ∈ S.requests) (hpt : r.point ≠ .made) {createdAt : Nat}
    {late : List CommandPtr} {rq : ResultQueue} (hl : S.mgr.results.lookup r.queueId = some rq)
    (hnonempty : rq.contents ≠ []) (hlate : ∀ x ∈ late, isAsync (S.mgr.cmds x) = true)
    (hstep : CommandManager.step handlers S.mgr (.popResults r.queueId createdAt late) = some t) :
    r.taskId ∈ ((t.flushed.drop S.mgr.flushed.length).map Flushed.result).map
      CommandResult.commandId := by
  have hs := h.served r hr hpt
  obtain ⟨rq', hl', hplace⟩ := hs.place
  obtain rfl : rq' = rq := Option.some.inj (hl'.symm.trans hl)
  have hmem : r.ptr ∈ rq'.contents := hplace.resolve_right fun hempty => hnonempty hempty.1
  have hsync : isAsync (S.mgr.cmds r.ptr) ≠ true := ne_true_of_eq_false hs.sync
  have hready : S.mgr.ready late r.ptr = true := by
    have hpending : (S.mgr.cmds r.ptr).pending = false :=
      Bool.eq_false_iff.mpr fun hp => hsync (h.flags.pending r.ptr hp)
    have hearly : late.contains r.ptr = false := by
      rw [List.contains_eq_mem, decide_eq_false_iff_not]
      exact fun hp => hsync (hlate r.ptr hp)
    unfold State.ready
    rw [hpending, hearly]
    rfl
  rw [flushed_of_pop h.wf hl hstep, List.map_map, List.mem_map]
  refine ⟨r.ptr, ?_, ?_⟩
  · rw [List.mem_reverse, List.mem_filter, List.mem_reverse]
    exact ⟨hmem, hready⟩
  · exact (commandId_toResult _).trans (h.known r hr).taskId

/-- When the time is over, the worker has not come to the end of the command. -/
theorem not_completed_of_empty (h : Inv S) (hr : r ∈ S.requests) (hpt : r.point ≠ .made)
    {rq : ResultQueue} (hl : S.mgr.results.lookup r.queueId = some rq) (hempty : rq.contents = []) :
    ¬Completed S.mgr r.ptr := by
  obtain ⟨rq', hl', hplace⟩ := (h.served r hr hpt).place
  obtain rfl : rq' = rq := Option.some.inj (hl'.symm.trans hl)
  rw [hempty] at hplace
  intro hdone
  obtain ⟨-, -, hqueue, hheld⟩ := h.wf.done_alone hdone
  rcases (hplace.resolve_left List.not_mem_nil).2 with hp | hp
  · exact hqueue hp
  · exact hheld hp

/-- The response of a request, with what its pop has taken. -/
theorem Inv.answer (h : Inv S) (hr : r ∈ S.requests) (hpt : r.point ≠ .made) {timedOut : Bool}
    {createdAt : Nat} {late : List CommandPtr}
    (hstep : CommandManager.step handlers S.mgr (.popResults r.queueId createdAt late) = some t)
    (hown : if timedOut then ¬Completed S.mgr r.ptr else
      r.taskId ∈ ((t.flushed.drop S.mgr.flushed.length).map Flushed.result).map
        CommandResult.commandId) :
    Inv (S.answer r timedOut t) := by
  have hclosed : Inv { S.close r.ptr with answers := (S.answer r timedOut t).answers } := by
    refine h.close r.ptr fun a ha => ?_
    rcases List.mem_append.mp ha with ha | ha
    · exact h.answers a ha
    · obtain rfl := List.mem_singleton.mp ha
      unfold Answer.Own
      cases timedOut with
      | true => exact decide_eq_false hown
      | false => exact hown
  refine hclosed.manager hstep (fun _ _ _ heq => nomatch heq) fun r' hr' hpt' =>
    ⟨nofun, fun id hid hq => ?_, nofun⟩
  obtain rfl := Option.some.inj hid
  obtain ⟨hr', hne⟩ := List.mem_filter.mp hr'
  exact absurd (h.alone r' hr' r hr hpt' hpt hq.symm) (of_decide_eq_true hne)

theorem inv_step {act : Action} (h : Inv S) (hok : Undisturbed S act)
    (hstep : step handlers S act = some T) : Inv T := by
  cases act with
  | manager a =>
    rw [step] at hstep
    split at hstep
    · cases hstep
    · next hfree =>
      obtain ⟨t, ht, rfl⟩ := Option.map_eq_some_iff.mp hstep
      refine h.manager ht (fun r hr _ heq => hfree ?_) hok
      rw [heq]
      show (S.requests.find? fun r' => r'.ptr == r.ptr).isSome = true
      rw [List.find?_isSome]
      exact ⟨r, hr, beq_self_eq_true _⟩
  | request name data q =>
    rw [step] at hstep
    obtain ⟨t, ht, rfl⟩ := Option.map_eq_some_iff.mp hstep
    have hmgr : Inv { S with mgr := t } :=
      h.manager ht (fun _ _ _ heq => nomatch heq) fun _ _ _ => ⟨nofun, nofun, nofun⟩
    obtain rfl := Option.some.inj ht
    unfold makeCommand at hmgr ⊢
    cases hname : handlers name with
    | none =>
      rw [hname] at hmgr
      exact hmgr
    | some hd =>
      rw [hname] at hmgr
      refine hmgr.addRequest ⟨Nat.lt_succ_self _, ?_, ?_, ?_, ?_⟩
        (List.mem_append_right _ List.mem_cons_self) rfl <;>
        simp [State.setCommand, Command.make]
  | enqueue p =>
    rw [step] at hstep
    split at hstep
    · next ptr q task hfind =>
      obtain ⟨t, ht, rfl⟩ := Option.map_eq_some_iff.mp hstep
      obtain ⟨-, rfl⟩ := find_spec hfind
      exact h.enqueue hok ht
    · cases hstep
  | lookup p =>
    rw [step] at hstep
    split at hstep
    · next ptr q task hfind =>
      obtain ⟨hr, rfl⟩ := find_spec hfind
      split at hstep
      · obtain rfl := Option.some.inj hstep
        exact h.close _ h.answers
      · next rq hl =>
        obtain ⟨t, ht, rfl⟩ := Option.map_eq_some_iff.mp hstep
        have hon : Inv (S.setPoint ptr (.waiting rq.createdAt)) := h.goOn hr nofun nofun
        exact hon.manager ht (fun _ _ _ heq => nomatch heq) fun _ _ _ => ⟨nofun, nofun, nofun⟩
    · cases hstep
  | pop p late =>
    rw [step] at hstep
    split at hstep
    · next ptr q task createdAt hfind =>
      obtain ⟨hr, rfl⟩ := find_spec hfind
      split at hstep
      · cases hstep
      · next rq hl =>
        obtain ⟨⟨hnonempty, hlate⟩, hstep⟩ := Option.ite_none_right_eq_some.mp hstep
        obtain ⟨t, ht, rfl⟩ := Option.map_eq_some_iff.mp hstep
        exact h.answer hr nofun ht (own_of_pop h hr nofun hl hnonempty hlate ht)
    · cases hstep
  | timeout p =>
    rw [step] at hstep
    split at hstep
    · next ptr q task createdAt hfind =>
      obtain ⟨hr, rfl⟩ := find_spec hfind
      split at hstep
      · cases hstep
      · next rq hl =>
        obtain ⟨hempty, hstep⟩ := Option.ite_none_right_eq_some.mp hstep
        obtain ⟨t, ht, rfl⟩ := Option.map_eq_some_iff.mp hstep
        exact h.answer hr nofun ht (not_completed_of_empty h hr nofun hl hempty)
    · cases hstep

/-- In every run in which blocking commands have their queue to themselves, each response contains
the result of its own command. -/
theorem blocking_own_results {acts : List Action}
    (hok : Conforms (step handlers) Undisturbed Service.init acts)
    (hrun : run (step handlers) Service.init acts = some S) : OwnResults S := by
  have h : Inv S := run_invariant_of_conforms (fun _ _ _ h hok => inv_step h hok) inv_init hok hrun
  intro a ha hintime
  have hown := h.answers a ha
  unfold Answer.Own at hown
  unfold Answer.CompletedInTime at hintime
  split at hown
  · next hlate =>
    rw [if_pos hlate, hown] at hintime
    cases hintime
  · exact hown

/-- The same client polls its first result before it sends the blocking command. -/
def polledResult : List Action :=
  (connect 1).map .manager ++
    [.manager (.makeCommand "StoreValue" [7] 1 false false), .manager (.emplace 1)] ++ execute [8] ++
    [.manager (.lookupQueue 1), .manager (.popResults 1 1 []), .request "GetValue" [9] 1, .enqueue 2,
      .lookup 2] ++ execute [10] ++ [.pop 2 []]

theorem polledResult_answered :
    ∃ S, run (step fun _ => some plainHandler) Service.init polledResult = some S ∧
      S.answers.length = 1 ∧ OwnResults S := by
  have hrun : run (step fun _ => some plainHandler) Service.init polledResult =
      some ((run (step fun _ => some plainHandler) Service.init polledResult).get (by decide)) := by
    simp
  have hok : Conforms (step fun _ => some plainHandler) Undisturbed Service.init polledResult := by
    decide
  exact ⟨_, hrun, by decide, blocking_own_results hok hrun⟩

end Ra2yrcpp.CommandManager.Blocking
