import Ra2yrcpp.CommandManager.GameWork

/-!
# The io thread and the worker

The callbacks of the io thread wait for the worker to execute a built-in command, and the handler of
`GetSystemState` waits for the io thread to run a closure.  Built-in commands are ahead of all others
in the work queue, so a callback only waits for the one command that the worker executes when it
enqueues its own; both are stuck when that command is a `GetSystemState` whose closure has not run.
-/

open Ra2yrcpp.Reasoning

namespace Ra2yrcpp.CommandManager

variable {handlers : String → Option Handler} {s t : State} {a : Action} {p : CommandPtr}

/-- The io thread waits in `execute_create_queue` or `execute_destroy_queue`. -/
def State.ioBlocked (s : State) : Bool :=
  match s.io with
  | .waiting p => decide ((s.cmds p).resultCode = .none)
  | _ => false

def Stage.isPosted : Stage → Bool
  | .posting _ done => !done
  | _ => false

/-- The worker waits in `IOService::post`. -/
def State.workerBlocked (s : State) : Bool :=
  match s.worker with
  | .user _ st => st.isPosted
  | _ => false

def NoMutualWait (s : State) : Prop := ¬ (s.ioBlocked = true ∧ s.workerBlocked = true)

instance (s : State) : Decidable (NoMutualWait s) :=
  inferInstanceAs (Decidable (¬ (_ = true ∧ _ = true)))

/-- The handler of `GetSystemState`. -/
def systemStateHandler : Handler := ⟨false, .getSystemState, id, id⟩

/-- A second client connects while the worker executes `GetSystemState` for the first. -/
def connectDuringPost : List Action :=
  connect 1 ++ [.makeCommand "GetSystemState" [] 1 false false, .emplace 1] ++
    List.replicate 5 .work ++ [.ioMakes 2 32 .createQueue, .ioEnqueues]

theorem io_and_worker_stuck :
    ∃ s, run (step fun _ => some systemStateHandler) State.init connectDuringPost = some s ∧
      ¬ NoMutualWait s ∧ work s = none ∧ ioReturns s = none ∧ ∀ m, ioRunsPosted s m = none := by
  refine ⟨(run (step fun _ => some systemStateHandler) State.init connectDuringPost).get (by decide),
    by simp, by decide, by decide, by decide, fun m => ?_⟩
  unfold ioRunsPosted
  split
  · rename_i p m' hio hw
    exact absurd hio (by decide)
  · rfl

/-! ## The condition -/

/-- The handler's function is still to be called. -/
def Stage.beforeBody : Stage → Bool
  | .taken => true
  | .reset => true
  | .constructed _ => true
  | .allocated _ => true
  | .body _ => true
  | _ => false

/-- A worker at this stage waits for the io thread, or is going to. -/
def Stage.willPost (h : Option Handler) (st : Stage) : Bool :=
  st.isPosted || st.beforeBody && h.any fun h => decide (h.body = .getSystemState)

/-- The worker executes a `GetSystemState` whose closure the io thread has not run. -/
def State.willPost (s : State) : Bool :=
  match s.worker with
  | .user p st => st.willPost (s.cmds p).handler
  | _ => false

/-- The io thread enqueues no command of its own while the worker executes a `GetSystemState` whose
closure has not run. -/
def PostedBefore (s : State) (a : Action) : Prop := a = .ioEnqueues → s.willPost = false

instance (s : State) (a : Action) : Decidable (PostedBefore s a) :=
  inferInstanceAs (Decidable (a = .ioEnqueues → _ = false))

theorem willPost_user {st : Stage} (hst : s.worker = .user p st) :
    s.willPost = st.willPost (s.cmds p).handler := by
  unfold State.willPost
  rw [hst]

theorem willPost_of_noUser (h : ∀ p st, s.worker ≠ .user p st) : s.willPost = false := by
  unfold State.willPost
  split
  · rename_i p st hst
    exact absurd hst (h p st)
  · rfl

theorem willPost_congr (hw : Wf s) (hworker : t.worker = s.worker)
    (hhandler : ∀ p, p < s.nextPtr → (t.cmds p).handler = (s.cmds p).handler) :
    t.willPost = s.willPost := by
  cases hst : s.worker with
  | user p st =>
    rw [willPost_user hst, willPost_user (hworker.trans hst), hhandler p (hw.held_lt hst)]
  | _ => rw [willPost_of_noUser (s := s), willPost_of_noUser (s := t)] <;> simp [hworker, hst]

theorem workerBlocked_willPost (h : s.workerBlocked = true) : s.willPost = true := by
  unfold State.workerBlocked at h
  split at h
  · rename_i p st hst
    rw [willPost_user hst]
    unfold Stage.willPost
    rw [h]
    rfl
  · cases h

/-- Only the function of `GetSystemState` posts. -/
theorem UserMove.willPost {h : Handler} {c c' : Command} {st st' : Stage}
    (hmove : UserMove h c st c' st') (hh : st.foreign = false → c.handler = some h)
    (hst : st.willPost c.handler = false) : st'.willPost c.handler = false := by
  cases hmove with
  | reset => exact hst
  | construct => exact hst
  | allocate m hasync => exact hst
  | enter m hasync => exact hst
  | setPending m => exact hst
  | post m hbody =>
    -- the command was one that is going to post all along
    rw [hh rfl] at hst
    unfold Stage.willPost at hst
    simp [Stage.beforeBody, hbody] at hst
  | _ => rfl

/-! ## What the io thread waits for is ahead -/

/-- The worker gets to the command before it executes any `GetSystemState`, if it gets to anything. -/
def Ahead (s : State) (p : CommandPtr) : Prop :=
  s.willPost = false ∧
    (p ∈ s.workQueue ∨ (∃ b, s.worker = .builtin p b) ∨ s.worker = .exited)

structure Waits (s : State) : Prop where
  exists_ : ∀ p, s.io = .waiting p → p < s.nextPtr
  builtin : ∀ p, s.io = .waiting p → (s.cmds p).base.type ≠ .user
  ahead : ∀ p, s.io = .waiting p → (s.cmds p).resultCode = .none → Ahead s p

theorem waits_init : Waits State.init where
  exists_ _ h := by cases h
  builtin _ h := by cases h
  ahead _ h := by cases h

theorem Waits.frame (h : Waits s) (hk : Keeps s t) (hio : ∀ p, t.io = .waiting p → s.io = .waiting p)
    (hahead : ∀ p, s.io = .waiting p → (t.cmds p).resultCode = .none → Ahead s p → Ahead t p) :
    Waits t where
  exists_ p hp := Nat.lt_of_lt_of_le (h.exists_ p (hio p hp)) hk.next
  builtin p hp := by
    rw [hk.base (h.exists_ p (hio p hp))]
    exact h.builtin p (hio p hp)
  ahead p hp hnone := by
    have hs := hio p hp
    exact hahead p hs hnone (h.ahead p hs (hk.code p (h.exists_ p hs) (h.builtin p hs) hnone))

/-- The worker holds a user command, so what the io thread waits for is in the work queue. -/
theorem Waits.ofUser (h : Waits s) (hk : Keeps s t) {st : Stage} (hst : s.worker = .user p st)
    (hio : t.io = s.io) (hqueue : t.workQueue = s.workQueue)
    (hpost : s.willPost = false → t.willPost = false) : Waits t := by
  apply h.frame hk (fun p hp => hio ▸ hp)
  intro q _ _ hahead
  refine ⟨hpost hahead.1, Or.inl ?_⟩
  rw [hqueue]
  rcases hahead.2 with hmem | ⟨b, hb⟩ | hexit
  · exact hmem
  · rw [hst] at hb
    cases hb
  · rw [hst] at hexit
    cases hexit

theorem willPost_advance {st st' : Stage} {c : Command} (hst : s.worker = .user p st)
    (hc : (s.cmds p).Same c)
    (hpost : st.willPost (s.cmds p).handler = false → st'.willPost (s.cmds p).handler = false)
    (hs : s.willPost = false) : (s.advance p c st').willPost = false := by
  have hhandler : ((s.advance p c st').cmds p).handler = (s.cmds p).handler :=
    (same_update hc p).2.1
  rw [willPost_user (s := s.advance p c st') rfl, hhandler]
  apply hpost
  rw [← willPost_user hst]
  exact hs

/-- A built-in command other than `SHUTDOWN` is executed, or its result stored. -/
theorem Waits.ofBuiltin (h : Waits s) (hk : Keeps s t) {q : CommandPtr} {b : Bool} {w : Worker}
    (hb : s.worker = .builtin q b) (hio : t.io = s.io) (hqueue : t.workQueue = s.workQueue)
    (hworker : t.worker = w) (hw : ∀ p st, w ≠ .user p st)
    (hheld : (t.cmds q).resultCode = .none → (∃ b, w = .builtin q b) ∨ w = .exited) :
    Waits t := by
  refine h.frame hk (fun p hp => hio ▸ hp) fun p hp hnone hahead => ⟨?_, ?_⟩
  · exact willPost_of_noUser fun p st hst => hw p st (hworker.symm.trans hst)
  · rw [hqueue, hworker]
    rcases hahead.2 with hmem | ⟨b', hb'⟩ | hexit
    · exact Or.inl hmem
    · rw [hb] at hb'
      obtain ⟨rfl, -⟩ := Worker.builtin.inj hb'
      exact Or.inr (hheld hnone)
    · rw [hb] at hexit
      cases hexit

/-- The commands before a built-in one in the work queue are built-in, too. -/
theorem Waits.take (h : Waits s) (hw : Wf s) {q : CommandPtr} {rest : List CommandPtr}
    (hidle : s.worker = .idle) (hq : s.workQueue = q :: rest) :
    Waits { s with
      workQueue := Heap.pop (queueCompare s.cmds) s.workQueue
      worker := if (s.cmds q).base.type = .user then .user q .taken else .builtin q false } := by
  refine h.frame (keeps_of_cmds rfl rfl) (fun _ hp => hp) fun p hp _ hahead => ?_
  have hmem : p ∈ q :: rest := by
    rcases hahead.2 with hmem | ⟨b, hb⟩ | hexit
    · exact hq ▸ hmem
    · rw [hidle] at hb
      cases hb
    · rw [hidle] at hexit
      cases hexit
  -- the root of the heap is no user command as long as `p` is in it
  have hbuiltin : (s.cmds q).base.type ≠ .user := by
    intro huser
    have hheap := hw.heap
    rw [hq] at hheap
    have hle : before s.cmds q p := hheap.top_le (queueCompare_ranks s.cmds) p hmem
    have hne := h.builtin p hp
    unfold before at hle
    rw [huser] at hle
    cases hty : (s.cmds p).base.type with
    | user => exact hne hty
    | _ =>
      rw [hty] at hle
      exact absurd hle (by decide)
  refine ⟨willPost_of_noUser fun r st hst => ?_, ?_⟩
  · dsimp only at hst
    rw [if_neg hbuiltin] at hst
    cases hst
  · dsimp only
    rw [if_neg hbuiltin]
    rcases List.mem_cons.mp hmem with rfl | hrest
    · exact Or.inr (Or.inl ⟨false, rfl⟩)
    · exact Or.inl ((hw.pop_perm hq).mem_iff.mpr hrest)

/-- A command is pushed to the work queue. -/
theorem Waits.enqueue (h : Waits s) (hw : Wf s) (q : CommandPtr) : Waits (enqueueCommand s q) := by
  refine h.frame (keeps_of_cmds rfl rfl) (fun _ hp => hp) fun p _ _ hahead =>
    ⟨(willPost_congr hw rfl fun _ _ => rfl).trans hahead.1, ?_⟩
  rcases hahead.2 with hmem | hworker
  · exact Or.inl (mem_push.mpr (Or.inr hmem))
  · exact Or.inr hworker

/-- Worker and work queue stay as they are. -/
theorem Waits.sameWorker (h : Waits s) (hw : Wf s) (hk : Keeps s t)
    (hio : ∀ p, t.io = .waiting p → s.io = .waiting p) (hworker : t.worker = s.worker)
    (hqueue : t.workQueue = s.workQueue) : Waits t := by
  refine h.frame hk hio fun p _ _ hahead => ⟨?_, ?_⟩
  · rw [willPost_congr hw hworker fun p hp => (hk.same p hp).2.1]
    exact hahead.1
  · rw [hqueue, hworker]
    exact hahead.2

theorem waits_step (h : Waits s) (hw : Wf s) (hok : PostedBefore s a)
    (heff : Effect handlers s a t) : Waits t := by
  have hk := heff.keeps hw
  cases heff with
  | makeUser name data q discard done hd => exact h.sameWorker hw hk (fun _ hp => hp) rfl rfl
  | makeBuiltin a q size ty io ha hty hio =>
    refine h.sameWorker hw hk (fun p hp => ?_) rfl rfl
    rcases hio with rfl | ⟨rfl, -, -⟩
    · exact hp
    · cases hp
  | emplace q hmade hty hlock =>
    have henq := h.enqueue hw q
    exact ⟨henq.exists_, henq.builtin, henq.ahead⟩
  | enqueue q waiting hmade hty hio hlock =>
    have henq := h.enqueue hw q
    exact ⟨henq.exists_, henq.builtin, henq.ahead⟩
  | ioEnqueues q hio hlock =>
    -- here the condition is used
    obtain ⟨hmade, hty⟩ := hw.io q hio
    refine ⟨fun p hp => ?_, fun p hp => ?_, fun p hp _ => ⟨?_, Or.inl ?_⟩⟩ <;>
      obtain rfl := IoThread.waiting.inj hp
    · exact hw.lt_of_copies (copies_pos_of_made hmade)
    · exact hty
    · exact (willPost_congr hw rfl fun _ _ => rfl).trans (hok rfl)
    · exact mem_push.mpr (Or.inl rfl)
  | ioReturns q hio hcode =>
    exact ⟨fun _ hp => (by cases hp), fun _ hp => (by cases hp), fun _ hp => (by cases hp)⟩
  | take q rest hidle hq => exact h.take hw hidle hq
  | createQueue q hb hty =>
    obtain ⟨_, _, heq⟩ := createQueue_frame s (s.cmds q).base.queueId (s.cmds q).base.queueSize
    rw [heq] at hk ⊢
    exact h.ofBuiltin hk hb rfl rfl rfl (fun _ _ h => by cases h) fun _ => Or.inl ⟨true, rfl⟩
  | destroyQueue q hb hty =>
    obtain ⟨_, _, heq⟩ := destroyQueue_frame s (s.cmds q).base.queueId
    rw [heq] at hk ⊢
    exact h.ofBuiltin hk hb rfl rfl rfl (fun _ _ h => by cases h) fun _ => Or.inl ⟨true, rfl⟩
  | shutdown q hb hty =>
    -- the io thread may wait for ever now, but not with the worker in a handler
    exact h.ofBuiltin hk hb rfl rfl rfl (fun _ _ h => by cases h) fun _ => Or.inr rfl
  | finishBuiltin q hb =>
    refine h.ofBuiltin hk hb rfl rfl rfl (fun _ _ h => by cases h) fun hnone => ?_
    -- the result code is there
    change (Function.update s.cmds q _ q).resultCode = .none at hnone
    rw [Function.update_self] at hnone
    cases hnone
  | userMove a q st st' hd c hst hh hmove hposted hassign =>
    exact h.ofUser hk hst rfl rfl (willPost_advance hst hmove.base_eq (hmove.willPost hh))
  | putWork q m hst => exact h.ofUser hk hst rfl rfl fun _ => rfl
  | recordPending q hst => exact h.ofUser hk hst rfl rfl fun _ => rfl
  | store t q hst hstore =>
    obtain ⟨_, _, rfl⟩ := storeResult_frame hstore
    exact h.ofUser hk hst rfl rfl fun _ => rfl
  | popResults t id createdAt late hpop =>
    obtain ⟨rq, pc, -, -, rfl⟩ := popResults_cases hw.rings hpop
    exact ⟨h.exists_, h.builtin, h.ahead⟩
  | handlerPacks q any hgame howned => exact h.sameWorker hw hk (fun _ hp => hp) rfl rfl
  | finishItem q pt c pt' hgame howned hmove =>
    exact h.sameWorker hw hk (fun _ hp => hp) rfl rfl
  | _ => exact ⟨h.exists_, h.builtin, h.ahead⟩

/-- In every run in which the io thread enqueues a command of its own only when the worker executes
no `GetSystemState` whose closure is still to run, the two threads never wait on each other. -/
theorem no_mutual_wait {acts : List Action}
    (hok : Conforms (step handlers) PostedBefore State.init acts)
    (hrun : run (step handlers) State.init acts = some s) : NoMutualWait s := by
  have hstep : ∀ s a t, Wf s ∧ Waits s → PostedBefore s a → step handlers s a = some t →
      Wf t ∧ Waits t := by
    rintro s a t ⟨hw, hs⟩ hok h
    have heff := step_effect h
    exact ⟨wf_step hw heff, waits_step hs hw hok heff⟩
  obtain ⟨-, hs⟩ := run_invariant_of_conforms hstep ⟨wf_init, waits_init⟩ hok hrun
  rintro ⟨hio, hworker⟩
  unfold State.ioBlocked at hio
  split at hio
  · rename_i p hp
    have hpost := (hs.ahead p hp (of_decide_eq_true hio)).1
    rw [workerBlocked_willPost hworker] at hpost
    cases hpost
  · cases hio

/-- The second client connects after the io thread has run the closure; its command waits for the
rest of `GetSystemState`. -/
def connectAfterPost : List Action :=
  connect 1 ++ [.makeCommand "GetSystemState" [] 1 false false, .emplace 1] ++
    List.replicate 5 .work ++ [.ioRunsPosted [1], .ioMakes 2 32 .createQueue, .ioEnqueues]

theorem connectAfterPost_noMutualWait :
    ∃ s, run (step fun _ => some systemStateHandler) State.init connectAfterPost = some s ∧
      s.ioBlocked = true ∧ NoMutualWait s := by
  have hrun : run (step fun _ => some systemStateHandler) State.init connectAfterPost =
      some ((run (step fun _ => some systemStateHandler) State.init connectAfterPost).get
        (by decide)) := by
    simp
  have hok : Conforms (step fun _ => some systemStateHandler) PostedBefore State.init
      connectAfterPost := by
    decide
  exact ⟨_, hrun, by decide, no_mutual_wait hok hrun⟩

end Ra2yrcpp.CommandManager
