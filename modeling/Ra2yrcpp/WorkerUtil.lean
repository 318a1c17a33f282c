import Mathlib.Data.List.Perm.Basic
import Ra2yrcpp.AsyncQueue.WakeUp

/-!
# `worker_util`

`auto_thread.hpp`: a thread that takes items from a queue and hands each to a consumer function.  The
queue may be bounded, and then `push` blocks.  The destructor pushes one more item, which tells the
thread to end, and joins the thread.
-/

open Ra2yrcpp.Reasoning

namespace Ra2yrcpp.WorkerUtil

open AsyncQueue (Monitor)

/-- `work_item`, over the items `T` and the consumer functions `F`; a `nullptr` is `none`. -/
structure WorkItem (T F : Type) where
  destroy : Bool
  item : T
  consumeFn : Option F
  deriving DecidableEq, Repr

variable {T F : Type}

/-- The function that is called on an item. -/
def WorkItem.call (consumerFn : F) (w : WorkItem T F) : F × T :=
  (w.consumeFn.getD consumerFn, w.item)

/-- Where the thread is in `worker()`. -/
inductive Worker (T F : Type)
  /-- at the call of `pop` -/
  | loop
  /-- in `cv.wait_for` -/
  | asleep
  /-- woken in `cv.wait_for`, without the mutex yet -/
  | awake
  | popped (w : WorkItem T F)
  | consuming (w : WorkItem T F)
  | done
  deriving DecidableEq, Repr

def Worker.notify : Worker T F → Worker T F
  | .asleep => .awake
  | w => w

/-- What `worker()` does with the vector that `pop` returned. -/
def Worker.popReturned (V : List (WorkItem T F)) : Worker T F :=
  match V.getLast? with
  | none => .done
  | some w => if w.destroy then .done else .popped w

inductive Stage
  | alive
  /-- the destructor has been called -/
  | destroying
  | returned
  deriving DecidableEq, Repr

/-- `pushed` and `handed` are the items that `push` put in the queue and the calls of consumer
functions, in order. -/
structure State (T F : Type) where
  consumerFn : F
  monitor : Monitor StdQueue (WorkItem T F)
  worker : Worker T F
  stage : Stage
  pushed : List (WorkItem T F)
  handed : List (F × T)

def State.init (T : Type) (consumerFn : F) (queueSize : Nat) : State T F :=
  ⟨consumerFn, ⟨⟨⟨[]⟩, queueSize⟩, [], []⟩, .loop, .alive, [], []⟩

inductive Action (T F : Type)
  | push (item : T) (cfn : Option F)
  | destroy
  | join
  /-- a blocked `push`, or the destructor's, gets the mutex again -/
  | resume (i : Nat)
  | wakeUp (i : Nat)
  | pop
  | workerWakeUp
  /-- `cfg::MAX_TIMEOUT` has passed -/
  | timeout
  | consume
  /-- The consumer returns, or throws a `std::exception`. -/
  | consumed (outcome : Except String Unit)

/-- A producer that has the mutex: `m` is the monitor without it. -/
def State.emplace (s : State T F) (m : Monitor StdQueue (WorkItem T F)) (w : WorkItem T F) :
    State T F :=
  if s.monitor.queue.full then { s with monitor := m.emplace w }
  else
    { s with
      monitor := m.emplace w
      worker := s.worker.notify
      pushed := if w.destroy then s.pushed else s.pushed ++ [w] }

/-- The worker in `pop(1, cfg::MAX_TIMEOUT)`, with the mutex. -/
def State.pop (s : State T F) : State T F :=
  if QueueT.size s.monitor.queue.q = 0 then { s with worker := .asleep }
  else
    let (res, q) := s.monitor.queue.popRound 1 (fun _ => true) []
    if res.length < 1 then { s with monitor := { s.monitor with queue := q } }
    else
      { s with
        monitor := Monitor.notifyAll { s.monitor with queue := q }
        worker := .popReturned res }

def step [Inhabited T] (s : State T F) : Action T F → Option (State T F)
  | .push item cfn =>
    if s.stage = .alive then some (s.emplace s.monitor ⟨false, item, cfn⟩) else none
  | .destroy =>
    -- all pushes have returned
    if s.stage = .alive ∧ s.monitor.asleep.isEmpty ∧ s.monitor.awake.isEmpty then
      some { s.emplace s.monitor ⟨true, default, none⟩ with stage := .destroying }
    else none
  | .join =>
    -- the destructor's own push has returned
    match s.stage, s.monitor.asleep, s.monitor.awake, s.worker with
    | .destroying, [], [], .done => some { s with stage := .returned }
    | _, _, _, _ => none
  | .resume i =>
    s.monitor.awake[i]?.map fun w =>
      s.emplace { s.monitor with awake := s.monitor.awake.eraseIdx i } w
  | .wakeUp i => (s.monitor.wakeUp i).map fun m => { s with monitor := m }
  | .pop =>
    match s.worker with
    | .loop | .awake => some s.pop
    | _ => none
  | .workerWakeUp =>
    match s.worker with
    | .asleep => some { s with worker := .awake }
    | _ => none
  | .timeout =>
    match s.worker with
    | .asleep =>
      if QueueT.size s.monitor.queue.q = 0 then
        some { s with monitor := s.monitor.notifyAll, worker := .popReturned [] }
      else some { s with worker := .awake }
    | _ => none
  | .consume =>
    match s.worker with
    | .popped w =>
      some { s with worker := .consuming w, handed := s.handed ++ [w.call s.consumerFn] }
    | _ => none
  | .consumed _ =>
    -- an exception is caught and logged
    match s.worker with
    | .consuming _ => some { s with worker := .loop }
    | _ => none

/-! ## What the steps do -/

variable {s t : State T F} {m : Monitor StdQueue (WorkItem T F)} {w : WorkItem T F} {a : Action T F}

inductive Effect [Inhabited T] (s : State T F) : Action T F → State T F → Prop
  | push (item : T) (cfn : Option F) (hstage : s.stage = .alive) :
      Effect s (.push item cfn) (s.emplace s.monitor ⟨false, item, cfn⟩)
  | destroy (hstage : s.stage = .alive) (hasleep : s.monitor.asleep = [])
      (hawake : s.monitor.awake = []) :
      Effect s .destroy { s.emplace s.monitor ⟨true, default, none⟩ with stage := .destroying }
  | join (hworker : s.worker = .done) : Effect s .join { s with stage := .returned }
  | resume (i : Nat) (w : WorkItem T F) (hi : s.monitor.awake[i]? = some w) :
      Effect s (.resume i) (s.emplace { s.monitor with awake := s.monitor.awake.eraseIdx i } w)
  | wakeUp (i : Nat) (m : Monitor StdQueue (WorkItem T F)) (hm : s.monitor.wakeUp i = some m) :
      Effect s (.wakeUp i) { s with monitor := m }
  | pop (hworker : s.worker = .loop ∨ s.worker = .awake) : Effect s .pop s.pop
  | workerWakeUp (hworker : s.worker = .asleep) : Effect s .workerWakeUp { s with worker := .awake }
  | timeout (hworker : s.worker = .asleep) :
      Effect s .timeout { s with monitor := s.monitor.notifyAll, worker := .done }
  /-- An item has come in the meantime. -/
  | lateTimeout (hworker : s.worker = .asleep) : Effect s .timeout { s with worker := .awake }
  | consume (w : WorkItem T F) (hworker : s.worker = .popped w) :
      Effect s .consume
        { s with worker := .consuming w, handed := s.handed ++ [w.call s.consumerFn] }
  | consumed (outcome : Except String Unit) (w : WorkItem T F) (hworker : s.worker = .consuming w) :
      Effect s (.consumed outcome) { s with worker := .loop }

theorem step_effect [Inhabited T] (hstep : step s a = some t) : Effect s a t := by
  cases a with
  | push item cfn =>
    simp only [step] at hstep
    split at hstep
    · rename_i hstage
      obtain rfl := Option.some.inj hstep
      exact .push item cfn hstage
    · cases hstep
  | destroy =>
    simp only [step] at hstep
    split at hstep
    · rename_i hcond
      obtain ⟨hstage, hasleep, hawake⟩ := hcond
      obtain rfl := Option.some.inj hstep
      exact .destroy hstage (List.isEmpty_iff.mp hasleep) (List.isEmpty_iff.mp hawake)
    · cases hstep
  | join =>
    simp only [step] at hstep
    split at hstep
    · rename_i hdone
      obtain rfl := Option.some.inj hstep
      exact .join hdone
    · cases hstep
  | resume i =>
    obtain ⟨w, hw, rfl⟩ := Option.map_eq_some_iff.mp hstep
    exact .resume i w hw
  | wakeUp i =>
    obtain ⟨m, hm, rfl⟩ := Option.map_eq_some_iff.mp hstep
    exact .wakeUp i m hm
  | pop =>
    simp only [step] at hstep
    split at hstep
    · rename_i hw
      obtain rfl := Option.some.inj hstep
      exact .pop (Or.inl hw)
    · rename_i hw
      obtain rfl := Option.some.inj hstep
      exact .pop (Or.inr hw)
    · cases hstep
  | workerWakeUp =>
    simp only [step] at hstep
    split at hstep
    · rename_i hw
      obtain rfl := Option.some.inj hstep
      exact .workerWakeUp hw
    · cases hstep
  | timeout =>
    simp only [step] at hstep
    split at hstep
    · rename_i hw
      split at hstep
      · obtain rfl := Option.some.inj hstep
        exact .timeout hw
      · obtain rfl := Option.some.inj hstep
        exact .lateTimeout hw
    · cases hstep
  | consume =>
    simp only [step] at hstep
    split at hstep
    · rename_i w hw
      obtain rfl := Option.some.inj hstep
      exact .consume w hw
    · cases hstep
  | consumed outcome =>
    simp only [step] at hstep
    split at hstep
    · rename_i w hw
      obtain rfl := Option.some.inj hstep
      exact .consumed outcome w hw
    · cases hstep

theorem emplace_of_full (h : s.monitor.queue.full = true) (hm : m.queue = s.monitor.queue) :
    s.emplace m w = { s with monitor := { m with asleep := m.asleep ++ [w] } } := by
  unfold State.emplace
  rw [if_pos h, Monitor.emplace_of_full (by rw [hm]; exact h)]

theorem emplace_of_not_full (h : s.monitor.queue.full = false) (hm : m.queue = s.monitor.queue) :
    s.emplace m w =
      { s with
        monitor := ⟨⟨⟨s.monitor.queue.q.q ++ [w]⟩, s.monitor.queue.maxSize⟩, [],
          m.awake ++ m.asleep⟩
        worker := s.worker.notify
        pushed := if w.destroy then s.pushed else s.pushed ++ [w] } := by
  unfold State.emplace
  rw [if_neg (by rw [h]; decide), Monitor.emplace_of_not_full (by rw [hm]; exact h), hm]
  rfl

theorem pop_of_empty (h : s.monitor.queue.q.q = []) : s.pop = { s with worker := .asleep } := by
  unfold State.pop
  apply if_pos
  show s.monitor.queue.q.q.length = 0
  rw [h]
  rfl

theorem pop_of_cons {rest : List (WorkItem T F)} (h : s.monitor.queue.q.q = w :: rest) :
    s.pop =
      { s with
        monitor := ⟨⟨⟨rest⟩, s.monitor.queue.maxSize⟩, [], s.monitor.awake ++ s.monitor.asleep⟩
        worker := if w.destroy then .done else .popped w } := by
  have hround := AsyncQueue.popRound_one_cons w rest s.monitor.queue.maxSize
  rw [← h] at hround
  change s.monitor.queue.popRound 1 (fun _ => true) [] = _ at hround
  have hsize : ¬ QueueT.size s.monitor.queue.q = 0 := by
    show ¬ s.monitor.queue.q.q.length = 0
    rw [h, List.length_cons]
    omega
  unfold State.pop
  rw [if_neg hsize, hround]
  rfl

theorem perm_eraseIdx {l : List (WorkItem T F)} {i : Nat} (h : l[i]? = some w) :
    l.Perm (w :: l.eraseIdx i) := by
  obtain ⟨hlt, hw⟩ := List.getElem?_eq_some_iff.mp h
  have hset := List.set_perm_cons_eraseIdx hlt l[i]
  rwa [List.set_getElem_self hlt, hw] at hset

theorem wakeUp_perm {m' : Monitor StdQueue (WorkItem T F)} {i : Nat} (h : m.wakeUp i = some m') :
    m'.queue = m.queue ∧ (m'.asleep ++ m'.awake).Perm (m.asleep ++ m.awake) := by
  obtain ⟨w, hw, rfl⟩ := Option.map_eq_some_iff.mp h
  refine ⟨rfl, ?_⟩
  calc (m.asleep.eraseIdx i ++ (m.awake ++ [w])).Perm (m.asleep.eraseIdx i ++ ([w] ++ m.awake)) :=
        List.perm_append_comm.append_left _
    _ = (m.asleep.eraseIdx i ++ [w]) ++ m.awake := (List.append_assoc _ _ _).symm
    List.Perm _ (m.asleep ++ m.awake) := by
      apply List.Perm.append_right
      exact (List.perm_append_singleton w _).trans (perm_eraseIdx hw).symm

/-- Whoever notifies moves the sleeping producers behind the others. -/
theorem notifyAll_perm (m : Monitor StdQueue (WorkItem T F)) :
    (m.notifyAll.asleep ++ m.notifyAll.awake).Perm (m.asleep ++ m.awake) := by
  show ([] ++ (m.awake ++ m.asleep)).Perm _
  rw [List.nil_append]
  exact List.perm_append_comm

/-! ## The order of the items -/

/-- The item that the worker has taken and not handed over yet. -/
def Worker.held : Worker T F → List (WorkItem T F)
  | .popped w => [w]
  | _ => []

/-- The work among the items. -/
def work (l : List (WorkItem T F)) : List (WorkItem T F) := l.filter fun w => !w.destroy

theorem work_append (l l' : List (WorkItem T F)) : work (l ++ l') = work l ++ work l' :=
  List.filter_append ..

/-- What was pushed has been handed over, or is with the worker, or in the queue, in this order. -/
structure Flow (consumerFn : F) (queueSize : Nat) (s : State T F) : Prop where
  member : s.consumerFn = consumerFn
  maxSize : s.monitor.queue.maxSize = queueSize
  bound : 0 < queueSize → s.monitor.queue.q.q.length ≤ queueSize
  order : s.pushed.map (WorkItem.call consumerFn) =
    s.handed ++ (s.worker.held ++ work s.monitor.queue.q.q).map (WorkItem.call consumerFn)

variable {consumerFn : F} {queueSize : Nat} {acts : List (Action T F)}

theorem flow_init : Flow consumerFn queueSize (State.init T consumerFn queueSize) where
  member := rfl
  maxSize := rfl
  bound _ := Nat.zero_le queueSize
  order := rfl

theorem held_notify (w : Worker T F) : w.notify.held = w.held := by
  cases w <;> rfl

theorem Flow.emplace (h : Flow consumerFn queueSize s) (hm : m.queue = s.monitor.queue) :
    Flow consumerFn queueSize (s.emplace m w) := by
  cases hfull : s.monitor.queue.full with
  | true =>
    rw [emplace_of_full hfull hm]
    refine ⟨h.member, ?_, ?_, ?_⟩
    · show m.queue.maxSize = queueSize
      rw [hm, h.maxSize]
    · show 0 < queueSize → m.queue.q.q.length ≤ queueSize
      rw [hm]
      exact h.bound
    · show _ = _ ++ (_ ++ work m.queue.q.q).map _
      rw [hm]
      exact h.order
  | false =>
    rw [emplace_of_not_full hfull hm]
    refine ⟨h.member, h.maxSize, ?_, ?_⟩
    · intro hpos
      -- the wait condition of `emplace`
      have hfree := of_decide_eq_false hfull
      rw [h.maxSize] at hfree
      show (s.monitor.queue.q.q ++ [w]).length ≤ queueSize
      change ¬ (0 < queueSize ∧ queueSize < s.monitor.queue.q.q.length + 1) at hfree
      rw [List.length_append, List.length_singleton]
      omega
    · show (if w.destroy then s.pushed else s.pushed ++ [w]).map _ =
        s.handed ++ (s.worker.notify.held ++ work (s.monitor.queue.q.q ++ [w])).map _
      rw [held_notify, work, List.filter_append]
      have horder := h.order
      cases hw : w.destroy with
      | true => simpa [hw, work] using horder
      | false => simp [hw, work, horder]

theorem Flow.pop (h : Flow consumerFn queueSize s) (hheld : s.worker.held = []) :
    Flow consumerFn queueSize s.pop := by
  have horder := h.order
  cases hq : s.monitor.queue.q.q with
  | nil =>
    rw [pop_of_empty hq]
    refine ⟨h.member, h.maxSize, h.bound, ?_⟩
    rw [horder, hheld]
    rfl
  | cons w rest =>
    rw [pop_of_cons hq]
    refine ⟨h.member, h.maxSize, ?_, ?_⟩
    · intro hpos
      have hbound := h.bound hpos
      rw [hq, List.length_cons] at hbound
      show rest.length ≤ queueSize
      omega
    · rw [horder, hheld, hq]
      cases hw : w.destroy with
      | true => simp [work, hw, Worker.held]
      | false => simp [work, hw, Worker.held]

/-- A step that leaves the queue alone. -/
theorem Flow.frame (h : Flow consumerFn queueSize s) (hfn : t.consumerFn = s.consumerFn)
    (hqueue : t.monitor.queue = s.monitor.queue) (hpushed : t.pushed = s.pushed)
    (hhanded : t.handed ++ t.worker.held.map (WorkItem.call consumerFn) =
      s.handed ++ s.worker.held.map (WorkItem.call consumerFn)) :
    Flow consumerFn queueSize t := by
  refine ⟨by rw [hfn, h.member], by rw [hqueue, h.maxSize], by rw [hqueue]; exact h.bound, ?_⟩
  have horder := h.order
  rw [List.map_append, ← List.append_assoc] at horder ⊢
  rw [hpushed, hqueue, hhanded, horder]

theorem flow_step [Inhabited T] (h : Flow consumerFn queueSize s) (hstep : step s a = some t) :
    Flow consumerFn queueSize t := by
  cases step_effect hstep with
  | push item cfn => exact h.emplace rfl
  | destroy => exact (h.emplace rfl).frame rfl rfl rfl rfl
  | join => exact h.frame rfl rfl rfl rfl
  | resume i w => exact h.emplace rfl
  | wakeUp i m hm => exact h.frame rfl (wakeUp_perm hm).1 rfl rfl
  | pop hworker =>
    apply h.pop
    rcases hworker with hworker | hworker
    · rw [hworker]
      rfl
    · rw [hworker]
      rfl
  | workerWakeUp hworker | timeout hworker | lateTimeout hworker | consumed _ _ hworker =>
    exact h.frame rfl rfl rfl (by rw [hworker]; rfl)
  | consume w hworker =>
    have hhanded : (s.handed ++ [w.call s.consumerFn]) ++ [] =
        s.handed ++ s.worker.held.map (WorkItem.call consumerFn) := by
      rw [hworker, h.member, List.append_nil]
      rfl
    exact h.frame rfl rfl rfl hhanded

/-! ## The end of the worker -/

def AllWork (l : List (WorkItem T F)) : Prop := ∀ w ∈ l, w.destroy = false

/-- How far the object is on its way to the end, in a run without a timeout. -/
inductive Phase (s : State T F) : Prop
  | alive (hstage : s.stage = .alive) (hqueue : AllWork s.monitor.queue.q.q)
      (hwaiting : AllWork (s.monitor.asleep ++ s.monitor.awake)) (hworker : s.worker ≠ .done)
  /-- The destructor waits for space. -/
  | blocked (w : WorkItem T F) (hstage : s.stage = .destroying)
      (hqueue : AllWork s.monitor.queue.q.q)
      (hwaiting : s.monitor.asleep ++ s.monitor.awake = [w]) (hw : w.destroy = true)
      (hworker : s.worker ≠ .done)
  /-- Its item is the last in the queue. -/
  | queued (l : List (WorkItem T F)) (w : WorkItem T F) (hstage : s.stage = .destroying)
      (hqueue : s.monitor.queue.q.q = l ++ [w]) (hl : AllWork l) (hw : w.destroy = true)
      (hwaiting : s.monitor.asleep ++ s.monitor.awake = []) (hworker : s.worker ≠ .done)
  | drained (hstage : s.stage ≠ .alive) (hqueue : s.monitor.queue.q.q = [])
      (hwaiting : s.monitor.asleep ++ s.monitor.awake = []) (hworker : s.worker = .done)

theorem notify_eq_done {w : Worker T F} : w.notify = .done ↔ w = .done := by
  cases w <;> simp [Worker.notify]

/-- A step that leaves the queue and the waiting producers alone, with the worker still alive. -/
theorem Phase.frame (h : Phase s) (hstage : t.stage = s.stage)
    (hqueue : t.monitor.queue = s.monitor.queue)
    (hwaiting : (t.monitor.asleep ++ t.monitor.awake).Perm (s.monitor.asleep ++ s.monitor.awake))
    (hworker : t.worker = .done ↔ s.worker = .done) : Phase t := by
  cases h with
  | alive hs hq hwait hw =>
    refine .alive (hstage.trans hs) (hqueue ▸ hq) (fun w hmem => ?_) (mt hworker.mp hw)
    exact hwait w (hwaiting.mem_iff.mp hmem)
  | blocked w hs hq hwait hdestroy hw =>
    refine .blocked w (hstage.trans hs) (hqueue ▸ hq) ?_ hdestroy (mt hworker.mp hw)
    rw [hwait] at hwaiting
    exact List.perm_singleton.mp hwaiting
  | queued l w hs hq hl hdestroy hwait hw =>
    refine .queued l w (hstage.trans hs) (hqueue ▸ hq) hl hdestroy ?_ (mt hworker.mp hw)
    rw [hwait] at hwaiting
    exact List.perm_nil.mp hwaiting
  | drained hs hq hwait hw =>
    refine .drained (hstage ▸ hs) (hqueue ▸ hq) ?_ (hworker.mpr hw)
    rw [hwait] at hwaiting
    exact List.perm_nil.mp hwaiting

theorem AllWork.append {l l' : List (WorkItem T F)} (hl : AllWork l) (hl' : AllWork l') :
    AllWork (l ++ l') := by
  intro w hw
  rcases List.mem_append.mp hw with hw | hw
  · exact hl w hw
  · exact hl' w hw

theorem AllWork.perm {l l' : List (WorkItem T F)} (hl : AllWork l) (h : l'.Perm l) : AllWork l' :=
  fun w hw => hl w (h.mem_iff.mp hw)

theorem stage_emplace (s : State T F) (m : Monitor StdQueue (WorkItem T F)) (w : WorkItem T F) :
    (s.emplace m w).stage = s.stage := by
  unfold State.emplace
  split <;> rfl

/-- An item of work, from a `push` or from one that was blocked. -/
theorem phase_emplace_work (hm : m.queue = s.monitor.queue) (hstage : s.stage = .alive)
    (hqueue : AllWork s.monitor.queue.q.q) (hwaiting : AllWork (m.asleep ++ m.awake))
    (hworker : s.worker ≠ .done) (hw : w.destroy = false) : Phase (s.emplace m w) := by
  have hone : AllWork [w] := by
    intro x hx
    rw [List.mem_singleton.mp hx]
    exact hw
  cases hfull : s.monitor.queue.full with
  | true =>
    rw [emplace_of_full hfull hm]
    refine .alive hstage ?_ ?_ ?_
    · show AllWork m.queue.q.q
      rw [hm]
      exact hqueue
    · show AllWork ((m.asleep ++ [w]) ++ m.awake)
      apply (hone.append hwaiting).perm
      rw [← List.append_assoc]
      exact List.perm_append_comm.append_right m.awake
    · exact hworker
  | false =>
    rw [emplace_of_not_full hfull hm]
    refine .alive hstage ?_ ?_ ?_
    · exact hqueue.append hone
    · show AllWork (m.awake ++ m.asleep)
      exact hwaiting.perm List.perm_append_comm
    · exact mt notify_eq_done.mp hworker

/-- The item of the destructor, which is alone. -/
theorem phase_emplace_destroy (hm : m.queue = s.monitor.queue)
    (hqueue : AllWork s.monitor.queue.q.q) (hasleep : m.asleep = []) (hawake : m.awake = [])
    (hworker : s.worker ≠ .done) (hw : w.destroy = true) :
    Phase { s.emplace m w with stage := .destroying } := by
  cases hfull : s.monitor.queue.full with
  | true =>
    rw [emplace_of_full hfull hm]
    refine .blocked w rfl ?_ ?_ hw hworker
    · show AllWork m.queue.q.q
      rw [hm]
      exact hqueue
    · show (m.asleep ++ [w]) ++ m.awake = [w]
      rw [hasleep, hawake]
      rfl
  | false =>
    rw [emplace_of_not_full hfull hm]
    refine .queued s.monitor.queue.q.q w rfl rfl hqueue hw ?_ ?_
    · show [] ++ (m.awake ++ m.asleep) = []
      rw [hasleep, hawake]
      rfl
    · exact mt notify_eq_done.mp hworker

theorem Phase.resume (h : Phase s) {i : Nat} (hi : s.monitor.awake[i]? = some w) :
    Phase (s.emplace { s.monitor with awake := s.monitor.awake.eraseIdx i } w) := by
  have hmem : w ∈ s.monitor.asleep ++ s.monitor.awake :=
    List.mem_append_right _ (List.mem_of_getElem? hi)
  cases h with
  | alive hstage hqueue hwaiting hworker =>
    refine phase_emplace_work ?_ hstage hqueue ?_ hworker (hwaiting w hmem)
    · rfl
    · intro x hx
      apply hwaiting x
      rcases List.mem_append.mp hx with hx | hx
      · exact List.mem_append_left _ hx
      · exact List.mem_append_right _ (List.mem_of_mem_eraseIdx hx)
  | blocked w' hstage hqueue hwaiting hdestroy hworker =>
    -- the destructor is the only one who waits, and it is awake
    rw [hwaiting, List.mem_singleton] at hmem
    subst hmem
    have hlen : s.monitor.asleep.length + s.monitor.awake.length = 1 := by
      rw [← List.length_append, hwaiting]
      rfl
    have hlt := (List.getElem?_eq_some_iff.mp hi).1
    have hasleep : s.monitor.asleep = [] := List.eq_nil_of_length_eq_zero (by omega)
    have hawake : s.monitor.awake.eraseIdx i = [] := by
      apply List.eq_nil_of_length_eq_zero
      rw [List.length_eraseIdx_of_lt hlt]
      omega
    have hphase := phase_emplace_destroy (s := s)
      (m := { s.monitor with awake := s.monitor.awake.eraseIdx i }) rfl hqueue hasleep hawake
      hworker hdestroy
    refine hphase.frame ?_ rfl (List.Perm.refl _) Iff.rfl
    rw [stage_emplace, hstage]
  | queued l w' hstage hqueue hl hdestroy hwaiting hworker =>
    rw [hwaiting] at hmem
    cases hmem
  | drained hstage hqueue hwaiting hworker =>
    rw [hwaiting] at hmem
    cases hmem

theorem Phase.pop (h : Phase s) (hworker : s.worker ≠ .done) : Phase s.pop := by
  cases hq : s.monitor.queue.q.q with
  | nil =>
    rw [pop_of_empty hq]
    refine h.frame rfl rfl (List.Perm.refl _) ⟨fun hdone => ?_, fun hdone => absurd hdone hworker⟩
    cases hdone
  | cons w rest =>
    have hcomm : ([] ++ (s.monitor.awake ++ s.monitor.asleep)).Perm
        (s.monitor.asleep ++ s.monitor.awake) := by
      rw [List.nil_append]
      exact List.perm_append_comm
    rw [pop_of_cons hq]
    cases h with
    | alive hstage hqueue hwaiting _ =>
      have hw : w.destroy = false := hqueue w (by rw [hq]; exact List.mem_cons_self)
      refine .alive hstage ?_ ?_ ?_
      · intro x hx
        exact hqueue x (by rw [hq]; exact List.mem_cons_of_mem w hx)
      · exact hwaiting.perm hcomm
      · rw [hw]
        exact nofun
    | blocked w' hstage hqueue hwaiting hdestroy _ =>
      have hw : w.destroy = false := hqueue w (by rw [hq]; exact List.mem_cons_self)
      refine .blocked w' hstage ?_ ?_ hdestroy ?_
      · intro x hx
        exact hqueue x (by rw [hq]; exact List.mem_cons_of_mem w hx)
      · rw [hwaiting] at hcomm
        exact List.perm_singleton.mp hcomm
      · rw [hw]
        exact nofun
    | queued l w' hstage hqueue hl hdestroy hwaiting _ =>
      rw [hwaiting] at hcomm
      cases l with
      | nil =>
        -- the work is done
        rw [hq, List.nil_append, List.cons.injEq] at hqueue
        obtain ⟨rfl, rfl⟩ := hqueue
        refine .drained ?_ rfl ?_ ?_
        · rw [hstage]
          decide
        · exact List.perm_nil.mp hcomm
        · rw [hdestroy]
          rfl
      | cons x l =>
        rw [hq, List.cons_append, List.cons.injEq] at hqueue
        obtain ⟨rfl, rfl⟩ := hqueue
        have hw : w.destroy = false := hl w List.mem_cons_self
        refine .queued l w' hstage rfl ?_ hdestroy ?_ ?_
        · intro y hy
          exact hl y (List.mem_cons_of_mem w hy)
        · exact List.perm_nil.mp hcomm
        · rw [hw]
          exact nofun
    | drained hstage hqueue hwaiting _ =>
      rw [hq] at hqueue
      cases hqueue

theorem phase_init : Phase (State.init T consumerFn queueSize) := by
  refine .alive rfl ?_ ?_ nofun
  · exact fun w hw => absurd hw List.not_mem_nil
  · exact fun w hw => absurd hw List.not_mem_nil

theorem phase_step [Inhabited T] (h : Phase s) (ha : a ≠ .timeout) (hstep : step s a = some t) :
    Phase t := by
  cases step_effect hstep with
  | push item cfn halive =>
    cases h with
    | alive hstage hqueue hwaiting hworker =>
      exact phase_emplace_work rfl hstage hqueue hwaiting hworker rfl
    | blocked _ hstage | queued _ _ hstage =>
      rw [hstage] at halive
      cases halive
    | drained hstage => exact absurd halive hstage
  | destroy halive hasleep hawake =>
    cases h with
    | alive hstage hqueue hwaiting hworker =>
      exact phase_emplace_destroy rfl hqueue hasleep hawake hworker rfl
    | blocked _ hstage | queued _ _ hstage =>
      rw [hstage] at halive
      cases halive
    | drained hstage => exact absurd halive hstage
  | join hdone =>
    cases h with
    | alive _ _ _ hworker | blocked _ _ _ _ _ hworker | queued _ _ _ _ _ _ _ hworker =>
      exact absurd hdone hworker
    | drained _ hqueue hwaiting hworker =>
      exact .drained Stage.noConfusion hqueue hwaiting hworker
  | resume i w hi => exact h.resume hi
  | wakeUp i m hm =>
    obtain ⟨hqueue, hperm⟩ := wakeUp_perm hm
    exact h.frame rfl hqueue hperm Iff.rfl
  | pop hworker =>
    apply h.pop
    rcases hworker with hworker | hworker
    · rw [hworker]
      exact nofun
    · rw [hworker]
      exact nofun
  | timeout | lateTimeout => exact absurd rfl ha
  | workerWakeUp hworker | consume _ hworker | consumed _ _ hworker =>
    exact h.frame rfl rfl (List.Perm.refl _) (by rw [hworker]; simp)

/-! ## What was pushed -/

/-- The items of the `push` calls. -/
def pushes : List (Action T F) → List (WorkItem T F)
  | [] => []
  | .push item cfn :: acts => ⟨false, item, cfn⟩ :: pushes acts
  | _ :: acts => pushes acts

/-- The work that `push` was called with so far: in the queue or past it, or still waiting. -/
def State.accepted (s : State T F) : List (WorkItem T F) :=
  s.pushed ++ work (s.monitor.asleep ++ s.monitor.awake)

theorem accepted_emplace (hm : m.queue = s.monitor.queue) :
    (s.emplace m w).accepted.Perm (s.pushed ++ (work [w] ++ work (m.asleep ++ m.awake))) := by
  cases hfull : s.monitor.queue.full with
  | true =>
    rw [emplace_of_full hfull hm]
    show (s.pushed ++ work ((m.asleep ++ [w]) ++ m.awake)).Perm _
    apply List.Perm.append_left
    rw [← work_append]
    apply List.Perm.filter
    rw [← List.append_assoc]
    exact List.perm_append_comm.append_right m.awake
  | false =>
    rw [emplace_of_not_full hfull hm]
    have hsplit : (if w.destroy then s.pushed else s.pushed ++ [w]) = s.pushed ++ work [w] := by
      cases hw : w.destroy with
      | true => simp [work, hw]
      | false => simp [work, hw]
    show ((if w.destroy then s.pushed else s.pushed ++ [w]) ++ work ([] ++ (m.awake ++ m.asleep))).Perm _
    rw [hsplit, List.append_assoc]
    apply List.Perm.append_left
    apply List.Perm.append_left
    apply List.Perm.filter
    rw [List.nil_append]
    exact List.perm_append_comm

theorem accepted_of_eq (hpushed : t.pushed = s.pushed)
    (hwaiting : (t.monitor.asleep ++ t.monitor.awake).Perm (s.monitor.asleep ++ s.monitor.awake))
    (hnone : pushes [a] = []) : t.accepted.Perm (s.accepted ++ pushes [a]) := by
  unfold State.accepted
  rw [hpushed, hnone, List.append_nil]
  apply List.Perm.append_left
  exact hwaiting.filter _

theorem accepted_pop (s : State T F) : s.pop.accepted.Perm (s.accepted ++ pushes [.pop]) := by
  cases hq : s.monitor.queue.q.q with
  | nil =>
    rw [pop_of_empty hq]
    exact accepted_of_eq rfl (List.Perm.refl _) rfl
  | cons w rest =>
    rw [pop_of_cons hq]
    exact accepted_of_eq rfl (notifyAll_perm s.monitor) rfl

/-- A `push` adds its item, no other step adds or loses one. -/
theorem accepted_step [Inhabited T] (hstep : step s a = some t) :
    t.accepted.Perm (s.accepted ++ pushes [a]) := by
  cases step_effect hstep with
  | push item cfn =>
    apply (accepted_emplace rfl).trans
    show (s.pushed ++ ([_] ++ _)).Perm ((s.pushed ++ _) ++ [_])
    rw [List.append_assoc]
    exact List.perm_append_comm.append_left s.pushed
  | destroy =>
    -- the destructor's item is not work
    exact (accepted_emplace rfl).trans (by simp [work, pushes, State.accepted])
  | resume i w hw =>
    have hm := accepted_emplace (s := s) (w := w)
      (m := { s.monitor with awake := s.monitor.awake.eraseIdx i }) rfl
    refine hm.trans ?_
    rw [← work_append, show pushes [Action.resume i] = ([] : List (WorkItem T F)) from rfl,
      List.append_nil]
    apply List.Perm.append_left
    apply List.Perm.filter
    -- it was among the waiting ones
    have hmiddle : (w :: (s.monitor.asleep ++ s.monitor.awake.eraseIdx i)).Perm
        (s.monitor.asleep ++ w :: s.monitor.awake.eraseIdx i) := List.perm_middle.symm
    exact hmiddle.trans ((perm_eraseIdx hw).symm.append_left _)
  | wakeUp i m hm => exact accepted_of_eq rfl (wakeUp_perm hm).2 rfl
  | pop => exact accepted_pop s
  | timeout => exact accepted_of_eq rfl (notifyAll_perm s.monitor) rfl
  | join | workerWakeUp | lateTimeout | consume | consumed =>
    exact accepted_of_eq rfl (List.Perm.refl _) rfl

theorem pushes_cons (a : Action T F) (acts : List (Action T F)) :
    pushes (a :: acts) = pushes [a] ++ pushes acts := by
  cases a <;> rfl

theorem accepted_run [Inhabited T] (hrun : run step s acts = some t) :
    t.accepted.Perm (s.accepted ++ pushes acts) := by
  induction acts generalizing s with
  | nil =>
    obtain rfl := Option.some.inj hrun
    rw [show pushes ([] : List (Action T F)) = [] from rfl, List.append_nil]
  | cons a acts ih =>
    obtain ⟨u, hstep, hrun⟩ := run_cons_eq_some.mp hrun
    rw [pushes_cons, ← List.append_assoc]
    exact (ih hrun).trans ((accepted_step hstep).append_right _)

/-! ## The channel -/

/-- For every queue size and every interleaving, consumers that throw included: a bounded queue stays
within its size, the items are handed over in the order in which they were pushed, and when the
destructor has returned, and no wait for work has timed out, every item of every `push` has been
handed over once. -/
theorem drains_in_order [Inhabited T]
    (hrun : run step (State.init T consumerFn queueSize) acts = some s) :
    (0 < queueSize → QueueT.size s.monitor.queue.q ≤ queueSize) ∧
    s.handed <+: s.pushed.map (WorkItem.call consumerFn) ∧
    ((∀ a ∈ acts, a ≠ .timeout) → s.stage = .returned →
      s.handed = s.pushed.map (WorkItem.call consumerFn) ∧ s.pushed.Perm (pushes acts)) := by
  have hflow : Flow consumerFn queueSize s :=
    run_invariant (fun _ _ _ h hstep => flow_step h hstep) flow_init hrun
  refine ⟨hflow.bound, ⟨_, hflow.order.symm⟩, fun hwait hreturned => ?_⟩
  have hphase : Phase s := run_invariant_of_conforms
    (fun _ _ _ h ha hstep => phase_step h ha hstep) phase_init
    (conforms_of_forall_mem fun a ha _ => hwait a ha) hrun
  cases hphase with
  | alive hstage | blocked _ hstage | queued _ _ hstage =>
    rw [hstage] at hreturned
    cases hreturned
  | drained _ hqueue hwaiting hworker =>
    have horder := hflow.order
    have haccepted := accepted_run hrun
    constructor
    · rw [hqueue, hworker] at horder
      exact (horder.trans (List.append_nil _)).symm
    · unfold State.accepted at haccepted
      rw [hwaiting] at haccepted
      exact (List.append_nil s.pushed) ▸ haccepted

/-- Two items for a queue of one: the second `push` is blocked until the worker has taken the first,
whose consumer throws, and so is the destructor's. -/
def twoItems : List (Action Char String) :=
  [.push 'a' none, .push 'b' (some "other"), .pop, .consume, .resume 0, .destroy,
    .consumed (.error "bad"), .pop, .resume 0, .consume, .consumed (.ok ()), .pop, .join]

theorem twoItems_drained :
    ∃ s, run step (State.init Char "consumer" 1) twoItems = some s ∧ s.stage = .returned ∧
      s.handed = [("consumer", 'a'), ("other", 'b')] ∧
      s.handed = s.pushed.map (WorkItem.call "consumer") := by
  have hrun : run step (State.init Char "consumer" 1) twoItems =
      some ⟨"consumer", ⟨⟨⟨[]⟩, 1⟩, [], []⟩, .done, .returned,
        [⟨false, 'a', none⟩, ⟨false, 'b', some "other"⟩], [("consumer", 'a'), ("other", 'b')]⟩ := rfl
  have hwait : ∀ a ∈ twoItems, a ≠ .timeout := by
    intro a ha
    simp only [twoItems, List.mem_cons, List.not_mem_nil, or_false] at ha
    rcases ha with rfl | rfl | rfl | rfl | rfl | rfl | rfl | rfl | rfl | rfl | rfl | rfl | rfl <;>
      exact nofun
  exact ⟨_, hrun, rfl, rfl, ((drains_in_order hrun).2.2 hwait rfl).1⟩

end Ra2yrcpp.WorkerUtil
