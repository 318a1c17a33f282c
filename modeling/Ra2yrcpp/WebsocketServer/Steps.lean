import Ra2yrcpp.WebsocketServer.Model

/-!
# What one step of the websocket server can do

Executor threads only touch their own executor: `ExecMove` lists their moves once.  The map, the io
program and the other executors change only with the io thread.  `Wf` is the invariant that ties the
map, the executors and the io program together in every run.
-/

open Ra2yrcpp.Reasoning

namespace Ra2yrcpp.WebsocketServer

variable {s t : State} {id i : SocketId} {e : ExecId}

/-! ## The map -/

theorem executorOf_addConnection (s : State) (id i : SocketId) :
    (addConnection s id).executorOf i = if i = id then some s.nextExec else s.executorOf i := by
  unfold addConnection State.executorOf
  split
  · rename_i h
    rw [h, AList.lookup_insert]
    rfl
  · rename_i h
    rw [AList.lookup_insert_ne h]

theorem executorOf_erase (s : State) (id i : SocketId) :
    (erase s id).executorOf i = if i = id then none else s.executorOf i := by
  unfold erase State.executorOf
  split
  · rename_i h
    rw [h, AList.lookup_erase]
    rfl
  · rename_i h
    rw [AList.lookup_erase_ne h]

@[simp] theorem executorOf_touch (s : State) (id i : SocketId) :
    (s.touch id).executorOf i = s.executorOf i := by
  unfold State.touch State.executorOf State.entry
  by_cases h : i = id
  · subst h
    rw [AList.lookup_insert]
    cases s.wsConns.lookup i <;> rfl
  · rw [AList.lookup_insert_ne h]

@[simp] theorem entry_touch (s : State) (id i : SocketId) : (s.touch id).entry i = s.entry i := by
  unfold State.touch State.entry
  by_cases h : i = id
  · subst h
    rw [AList.lookup_insert]
    rfl
  · rw [AList.lookup_insert_ne h]

@[simp] theorem executorOf_storeBuffer (s : State) (id : SocketId) (p : Payload) (i : SocketId) :
    (storeBuffer s id p).executorOf i = s.executorOf i := by
  unfold storeBuffer
  split
  · rename_i h
    unfold State.executorOf
    by_cases hi : i = id
    · subst hi
      rw [AList.lookup_insert, h]
      rfl
    · rw [AList.lookup_insert_ne hi]
  · rename_i entry h
    have hmap : ({ s with wsConns := s.wsConns.insert id { entry with buffer := p } } :
        State).executorOf i = s.executorOf i := by
      unfold State.executorOf
      by_cases hi : i = id
      · subst hi
        rw [AList.lookup_insert, h]
        rfl
      · rw [AList.lookup_insert_ne hi]
    dsimp only
    split
    · exact hmap
    · exact hmap

/-- A known executor means that the entry is there and owns it. -/
theorem lookup_of_executorOf (h : s.executorOf id = some e) :
    ∃ b, s.wsConns.lookup id = some ⟨b, some e⟩ := by
  unfold State.executorOf at h
  obtain ⟨⟨b, x⟩, hl, hx⟩ := Option.bind_eq_some_iff.mp h
  exact ⟨b, hl.trans (by rw [show x = some e from hx])⟩

/-- `storeBuffer` on an open connection, spelled out. -/
theorem storeBuffer_eq (h : s.executorOf id = some e) (p : Payload) :
    storeBuffer s id p =
      ({ s with wsConns := s.wsConns.insert id ⟨p, some e⟩ } : State).setExecutor e
        { s.executors e with delivered := (s.executors e).delivered ++ [p] } := by
  obtain ⟨b, hl⟩ := lookup_of_executorOf h
  unfold storeBuffer
  rw [hl]

theorem storeBuffer_of_none (h : s.executorOf id = none) (p : Payload) :
    ∃ entry, storeBuffer s id p = { s with wsConns := s.wsConns.insert id entry } := by
  unfold State.executorOf at h
  unfold storeBuffer
  split
  · exact ⟨_, rfl⟩
  · rename_i entry hl
    rw [hl] at h
    have hx : entry.executor = none := h
    dsimp only
    rw [hx]
    exact ⟨_, rfl⟩

@[simp] theorem io_storeBuffer (s : State) (id : SocketId) (p : Payload) :
    (storeBuffer s id p).io = s.io := by
  cases hex : s.executorOf id with
  | none =>
    obtain ⟨entry, heq⟩ := storeBuffer_of_none hex p
    rw [heq]
  | some e =>
    rw [storeBuffer_eq hex]
    rfl

theorem pushItem_eq_some {item : WorkItem} (h : pushItem s e item = some t) :
    (s.executors e).work.full = false ∧
      t = s.setExecutor e { s.executors e with
        work := ⟨⟨(s.executors e).work.q.q ++ [item]⟩, (s.executors e).work.maxSize⟩ } := by
  unfold pushItem at h
  obtain ⟨w, hw, rfl⟩ := Option.map_eq_some_iff.mp h
  obtain ⟨hfull, rfl⟩ := AsyncQueue.stdQueue_emplace_eq_some.mp hw
  exact ⟨hfull, rfl⟩

/-! ## The moves of an executor -/

def WorkItem.isTask : WorkItem → Bool
  | .destroy => false
  | .consume _ => true

/-- What the thread of an executor can do to it; `buffer` is what `ws_conns[id].buffer` reads. -/
inductive ExecMove (buffer : SocketId → Payload) (x : Executor) : Executor → Prop
  | exit (w : List WorkItem) (hthread : x.thread = .waiting) (hwork : x.work.q.q = .destroy :: w) :
      ExecMove buffer x { x with work := ⟨⟨w⟩, x.work.maxSize⟩, thread := .exited }
  | take (k : Task) (w : List WorkItem) (hthread : x.thread = .waiting)
      (hwork : x.work.q.q = .consume k :: w) :
      ExecMove buffer x { x with work := ⟨⟨w⟩, x.work.maxSize⟩, thread := .taken k }
  | timeout (hthread : x.thread = .waiting) (hwork : x.work.q.q = []) :
      ExecMove buffer x { x with thread := .exited }
  | receive (k : Task) (th : Thread) (hthread : x.thread = .taken k)
      (hth : th = .waiting ∨ ∃ r, th = .received k r) :
      ExecMove buffer x { x with received := x.received ++ [buffer k.id], thread := th }
  | post (k : Task) (r : Payload) (hthread : x.thread = .received k r) :
      ExecMove buffer x { x with thread := .posted k false }
  | resume (k : Task) (hthread : x.thread = .posted k true) :
      ExecMove buffer x { x with thread := .waiting }

/-- `t` is `s` after a move of executor `e` alone. -/
structure Moved (s : State) (e : ExecId) (t : State) : Prop where
  executorOf : ∀ id, t.executorOf id = s.executorOf id
  entry : ∀ id, t.entry id = s.entry id
  io : t.io = s.io
  nextExec : t.nextExec = s.nextExec
  others : ∀ e', e' ≠ e → t.executors e' = s.executors e'
  move : ExecMove (fun id => (s.entry id).buffer) (s.executors e) (t.executors e)

theorem Moved.of_setExecutor {x : Executor}
    (h : ExecMove (fun id => (s.entry id).buffer) (s.executors e) x) :
    Moved s e (s.setExecutor e x) where
  executorOf _ := rfl
  entry _ := rfl
  io := rfl
  nextExec := rfl
  others e' he := by
    change Function.update s.executors e x e' = _
    rw [Function.update_of_ne he]
  move := by
    change ExecMove _ _ (Function.update s.executors e x e)
    rwa [Function.update_self]

theorem take_moved (h : take s e = some t) : Moved s e t := by
  unfold take at h
  split at h
  · rename_i hthread
    -- `pop(1)` takes the first item, and waits as long as there is none
    cases hq : (s.executors e).work with
    | mk q m =>
      cases q with
      | mk l =>
        cases l with
        | nil =>
          rw [hq] at h
          simp [AsyncQueue.popRound, AsyncQueue.popLoop, QueueT.size] at h
        | cons item w =>
          rw [hq, AsyncQueue.popRound_one_cons] at h
          cases item with
          | destroy =>
            obtain rfl := Option.some.inj h
            have hm : m = (s.executors e).work.maxSize := by rw [hq]
            rw [hm]
            exact Moved.of_setExecutor (.exit w hthread (by rw [hq]))
          | consume k =>
            obtain rfl := Option.some.inj h
            have hm : m = (s.executors e).work.maxSize := by rw [hq]
            rw [hm]
            exact Moved.of_setExecutor (.take k w hthread (by rw [hq]))
  · cases h

theorem timeout_moved (h : timeout s e = some t) : Moved s e t := by
  unfold timeout at h
  split at h
  · rename_i hthread hwork
    obtain rfl := Option.some.inj h
    exact Moved.of_setExecutor (.timeout hthread hwork)
  · cases h

theorem receive_moved {resp : Option Payload} (h : receive s e resp = some t) : Moved s e t := by
  unfold receive at h
  split at h
  · rename_i k hthread
    obtain rfl := Option.some.inj h
    have hmove : ExecMove (fun id => (s.entry id).buffer) (s.executors e)
        { s.executors e with
          received := (s.executors e).received ++ [(s.entry k.id).buffer]
          thread := k.after resp } := by
      apply ExecMove.receive k _ hthread
      cases resp with
      | none => exact Or.inl rfl
      | some r => exact Or.inr ⟨r, rfl⟩
    have hmoved := Moved.of_setExecutor hmove
    -- `ws_conns[id]` may insert an entry, but an empty one without an executor
    exact
      { executorOf := fun i => executorOf_touch s k.id i
        entry := fun i => entry_touch s k.id i
        io := rfl
        nextExec := rfl
        others := hmoved.others
        move := hmoved.move }
  · cases h

theorem post_moved (h : post s e = some t) : Moved s e t := by
  unfold post at h
  split at h
  · rename_i k r hthread
    obtain rfl := Option.some.inj h
    have hmoved := Moved.of_setExecutor (s := s) (.post k r hthread)
    exact
      { executorOf := fun _ => rfl
        entry := fun _ => rfl
        io := rfl
        nextExec := rfl
        others := hmoved.others
        move := hmoved.move }
  · cases h

theorem resume_moved (h : resume s e = some t) : Moved s e t := by
  unfold resume at h
  split at h
  · rename_i k hthread
    obtain rfl := Option.some.inj h
    exact Moved.of_setExecutor (.resume k hthread)
  · cases h

/-- Every step is the start of a handler, of a posted item, one instruction of the io thread, or a
move of one executor.  Only `timeout` moves an executor that waits without work. -/
theorem step_cases {a : Action} (h : step s a = some t) :
    (∃ ev, a = .event ev ∧ s.io = [] ∧ deliverable s ev = true ∧
        t = { s with io := handler s ev }) ∨
    (∃ p rest, a = .runPosted ∧ s.io = [] ∧ s.posted = p :: rest ∧
        t = { s with io := postedHandler p, posted := rest }) ∨
    (∃ instr rest, a = .io ∧ s.io = instr :: rest ∧
        ioExec { s with io := rest } instr = some t) ∨
    (∃ e, Moved s e t ∧ (a ≠ .timeout e →
        (s.executors e).thread = .waiting → (s.executors e).work.q.q ≠ [])) := by
  cases a with
  | event ev =>
    left
    simp only [step] at h
    split at h
    · rename_i hc
      exact ⟨ev, rfl, hc.1, hc.2, (Option.some.inj h).symm⟩
    · cases h
  | runPosted =>
    right; left
    simp only [step] at h
    split at h
    · rename_i p rest hio hp
      exact ⟨p, rest, rfl, hio, hp, (Option.some.inj h).symm⟩
    · cases h
  | io =>
    right; right; left
    simp only [step] at h
    split at h
    · cases h
    · rename_i instr rest hio
      exact ⟨instr, rest, rfl, hio, h⟩
  | take e =>
    right; right; right
    refine ⟨e, take_moved h, fun _ hw hnil => ?_⟩
    -- an empty queue has nothing to take
    change take s e = some t at h
    have hq : (s.executors e).work = ⟨⟨[]⟩, (s.executors e).work.maxSize⟩ := by rw [← hnil]
    unfold take at h
    rw [hw, hq] at h
    simp [AsyncQueue.popRound, AsyncQueue.popLoop, QueueT.size] at h
  | timeout e => exact Or.inr (Or.inr (Or.inr ⟨e, timeout_moved h, fun hne => absurd rfl hne⟩))
  | receive e resp =>
    right; right; right
    refine ⟨e, receive_moved h, fun _ hw => ?_⟩
    simp [step, receive, hw] at h
  | post e =>
    right; right; right
    refine ⟨e, post_moved h, fun _ hw => ?_⟩
    simp [step, post, hw] at h
  | resume e =>
    right; right; right
    refine ⟨e, resume_moved h, fun _ hw => ?_⟩
    simp [step, resume, hw] at h

/-! ## The invariant of every run -/

/-- A program in which tasks are pushed only right after their payload was stored, and last. -/
def StoresThenPushes : List IoInstr → Prop
  | [] => True
  | .storeBuffer id _ :: rest => ∃ k, rest = [.push id k] ∧ k.id = id
  | .push _ _ :: _ => False
  | .addConnection _ :: rest => StoresThenPushes rest
  | .accept _ :: rest => StoresThenPushes rest
  | .close _ :: rest => StoresThenPushes rest
  | .erase _ :: rest => StoresThenPushes rest
  | .pushDestroy _ :: rest => StoresThenPushes rest
  | .join _ :: rest => StoresThenPushes rest
  | .send _ :: rest => StoresThenPushes rest
  | .interrupt _ :: rest => StoresThenPushes rest
  | .setDone _ :: rest => StoresThenPushes rest

/-- What can be left of a handler: such a program, or the push alone. -/
def Shaped (prog : List IoInstr) : Prop :=
  StoresThenPushes prog ∨ ∃ id k, prog = [.push id k] ∧ k.id = id

/-- Neither a payload is being stored nor a task pushed. -/
def IoInstr.other : IoInstr → Bool
  | .storeBuffer _ _ => false
  | .push _ _ => false
  | _ => true

theorem Shaped.tail_of_other {instr : IoInstr} {rest : List IoInstr} (h : Shaped (instr :: rest))
    (hother : instr.other = true) : StoresThenPushes rest := by
  rcases h with h | ⟨id, k, h, -⟩
  · cases instr with
    | storeBuffer id p => cases hother
    | push id k => cases hother
    | _ => exact h
  · obtain ⟨rfl, -⟩ := List.cons.inj h
    cases hother

theorem Shaped.storeBuffer {id : SocketId} {p : Payload} {rest : List IoInstr}
    (h : Shaped (.storeBuffer id p :: rest)) : ∃ k, rest = [.push id k] ∧ k.id = id := by
  rcases h with h | ⟨i, k, h, -⟩
  · exact h
  · cases (List.cons.inj h).1

theorem Shaped.push {id : SocketId} {k : Task} {rest : List IoInstr}
    (h : Shaped (.push id k :: rest)) : rest = [] ∧ k.id = id := by
  rcases h with h | ⟨i, k', h, hk⟩
  · cases h
  · obtain ⟨heq, rfl⟩ := List.cons.inj h
    obtain ⟨rfl, rfl⟩ := IoInstr.push.inj heq
    exact ⟨rfl, hk⟩

theorem Shaped.tail {instr : IoInstr} {rest : List IoInstr} (h : Shaped (instr :: rest)) :
    Shaped rest := by
  cases instr with
  | storeBuffer id p =>
    obtain ⟨k, rfl, hk⟩ := h.storeBuffer
    exact Or.inr ⟨id, k, rfl, hk⟩
  | push id k => exact h.push.1 ▸ Or.inl trivial
  | _ => exact Or.inl (h.tail_of_other rfl)

theorem storesThenPushes_destroyExecutor (o : Option ExecId) {rest : List IoInstr}
    (h : StoresThenPushes rest) : StoresThenPushes (destroyExecutor o ++ rest) := by
  cases o <;> exact h

theorem storesThenPushes_handler (s : State) (ev : Event) : StoresThenPushes (handler s ev) := by
  cases ev with
  | message id op payload =>
    cases op with
    | text => trivial
    | binary => exact ⟨_, rfl, rfl⟩
  | openConn id => trivial
  | closeConn id => trivial
  | http id body =>
    change StoresThenPushes (httpHandler s id body)
    unfold httpHandler
    split
    -- a request of a known connection is ignored
    · trivial
    · exact ⟨_, rfl, rfl⟩

theorem storesThenPushes_postedHandler (p : Posted) : StoresThenPushes (postedHandler p) := by
  cases p with
  | closure e k resp => cases k <;> trivial
  | interrupt id => trivial

/-- The task a thread holds. -/
def Thread.task? : Thread → Option Task
  | .waiting => none
  | .taken t => some t
  | .received t _ => some t
  | .posted t _ => some t
  | .exited => none

/-- Every task of the executor is for the socket it was made for. -/
structure Executor.OwnTasks (x : Executor) : Prop where
  queued : ∀ k, .consume k ∈ x.work.q.q → k.id = x.id
  held : ∀ k, x.thread.task? = some k → k.id = x.id

theorem ExecMove.id_eq {buffer : SocketId → Payload} {x y : Executor} (h : ExecMove buffer x y) :
    y.id = x.id := by
  cases h <;> rfl

theorem ExecMove.ownTasks {buffer : SocketId → Payload} {x y : Executor}
    (h : ExecMove buffer x y) (hx : x.OwnTasks) : y.OwnTasks := by
  cases h with
  | exit w hthread hwork =>
    exact ⟨fun k hk => hx.queued k (by rw [hwork]; exact List.mem_cons_of_mem _ hk),
      fun k hk => by cases hk⟩
  | take k w hthread hwork =>
    refine ⟨fun k' hk => hx.queued k' (by rw [hwork]; exact List.mem_cons_of_mem _ hk),
      fun k' hk => ?_⟩
    obtain rfl : k = k' := Option.some.inj hk
    exact hx.queued k (by rw [hwork]; exact List.mem_cons_self)
  | timeout => exact ⟨hx.queued, fun k hk => by cases hk⟩
  | receive k th hthread hth =>
    refine ⟨hx.queued, fun k' hk => ?_⟩
    rcases hth with rfl | ⟨r, rfl⟩
    · cases hk
    · obtain rfl : k = k' := Option.some.inj hk
      exact hx.held k (by rw [hthread]; rfl)
  | post k r hthread =>
    refine ⟨hx.queued, fun k' hk => ?_⟩
    obtain rfl : k = k' := Option.some.inj hk
    exact hx.held k (by rw [hthread]; rfl)
  | resume => exact ⟨hx.queued, fun k hk => by cases hk⟩

/-- The map only leads to executors that were made for its keys, and never to one that the io thread
is destroying. -/
structure Wf (s : State) : Prop where
  fresh : ∀ id e, s.executorOf id = some e → e < s.nextExec
  owner : ∀ id e, s.executorOf id = some e → (s.executors e).id = id
  tasks : ∀ e, (s.executors e).OwnTasks
  doomed : ∀ e, .pushDestroy e ∈ s.io ∨ .join e ∈ s.io →
    e < s.nextExec ∧ ∀ id, s.executorOf id ≠ some e
  shape : Shaped s.io

theorem Wf.inj (hw : Wf s) {j : SocketId} (hi : s.executorOf i = some e)
    (hj : s.executorOf j = some e) : i = j :=
  (hw.owner i e hi).symm.trans (hw.owner j e hj)

theorem wf_init : Wf State.init where
  fresh _ _ h := by cases h
  owner _ _ h := by cases h
  tasks _ := ⟨fun _ h => (by cases h), fun _ h => (by cases h)⟩
  doomed _ h := by rcases h with h | h <;> cases h
  shape := Or.inl trivial

theorem Wf.setExecutor (hw : Wf s) {x : Executor} (hid : x.id = (s.executors e).id)
    (hx : x.OwnTasks) : Wf (s.setExecutor e x) where
  fresh := hw.fresh
  owner id e' h := by
    have howner := hw.owner id e' h
    change (Function.update s.executors e x e').id = id
    by_cases he : e' = e
    · subst he; rw [Function.update_self, hid]; exact howner
    · rw [Function.update_of_ne he]; exact howner
  tasks e' := by
    change (Function.update s.executors e x e').OwnTasks
    by_cases he : e' = e
    · subst he; rw [Function.update_self]; exact hx
    · rw [Function.update_of_ne he]; exact hw.tasks e'
  doomed := hw.doomed
  shape := hw.shape

theorem Wf.moved (hw : Wf s) (hm : Moved s e t) : Wf t where
  fresh id e' h := by
    rw [hm.executorOf] at h
    rw [hm.nextExec]
    exact hw.fresh id e' h
  owner id e' h := by
    rw [hm.executorOf] at h
    by_cases he : e' = e
    · subst he; rw [hm.move.id_eq]; exact hw.owner id e' h
    · rw [hm.others e' he]; exact hw.owner id e' h
  tasks e' := by
    by_cases he : e' = e
    · subst he; exact hm.move.ownTasks (hw.tasks e')
    · rw [hm.others e' he]; exact hw.tasks e'
  doomed e' h := by
    rw [hm.io] at h
    rw [hm.nextExec]
    simpa only [hm.executorOf] using hw.doomed e' h
  shape := by rw [hm.io]; exact hw.shape

/-- The state in which the io thread executes an instruction: the rest of the program is `s.io`. -/
theorem Wf.tail {instr : IoInstr} {rest : List IoInstr} (hw : Wf s) (hio : s.io = instr :: rest) :
    Wf { s with io := rest } where
  fresh := hw.fresh
  owner := hw.owner
  tasks := hw.tasks
  doomed e h := hw.doomed e (by
    rw [hio]
    exact h.imp (List.mem_cons_of_mem _) (List.mem_cons_of_mem _))
  shape := Shaped.tail (hio ▸ hw.shape)

/-- Starting a handler or a posted item: nothing in it destroys an executor directly. -/
theorem Wf.start (hw : Wf s) {prog : List IoInstr} {posted : List Posted}
    (hshape : StoresThenPushes prog)
    (hno : ∀ e, .pushDestroy e ∉ prog ∧ .join e ∉ prog) :
    Wf { s with io := prog, posted := posted } where
  fresh := hw.fresh
  owner := hw.owner
  tasks := hw.tasks
  doomed e h := by
    rcases h with h | h
    · exact absurd h (hno e).1
    · exact absurd h (hno e).2
  shape := Or.inl hshape

theorem handler_no_destroy (s : State) (ev : Event) (e : ExecId) :
    .pushDestroy e ∉ handler s ev ∧ .join e ∉ handler s ev := by
  cases ev with
  | message id op payload => cases op <;> simp [handler, messageHandler, sendResponse]
  | openConn id => simp [handler, openHandler]
  | closeConn id => simp [handler, closeHandler]
  | http id body =>
    simp only [handler, httpHandler]
    split <;> simp

theorem postedHandler_no_destroy (p : Posted) (e : ExecId) :
    .pushDestroy e ∉ postedHandler p ∧ .join e ∉ postedHandler p := by
  cases p with
  | closure e' k resp => cases k <;> simp [postedHandler]
  | interrupt id => simp [postedHandler, interruptHandler]

/-- What was posted sends a response, but hands none to an executor. -/
theorem postedHandler_no_push (p : Posted) (id : SocketId) :
    (∀ q, .storeBuffer id q ∉ postedHandler p) ∧ ∀ k, .push id k ∉ postedHandler p := by
  cases p with
  | closure e k resp => cases k <;> simp [postedHandler]
  | interrupt i => simp [postedHandler, interruptHandler]

theorem mem_destroyExecutor {o : Option ExecId} {rest : List IoInstr}
    (h : .pushDestroy e ∈ destroyExecutor o ++ rest ∨ .join e ∈ destroyExecutor o ++ rest) :
    o = some e ∨ .pushDestroy e ∈ rest ∨ .join e ∈ rest := by
  cases o with
  | none => exact Or.inr h
  | some e' =>
    simp only [destroyExecutor, List.cons_append, List.nil_append, List.mem_cons,
      IoInstr.pushDestroy.injEq, IoInstr.join.injEq, reduceCtorEq, false_or] at h
    rcases h with (h | h) | (h | h)
    · exact Or.inl (by rw [h])
    · exact Or.inr (Or.inl h)
    · exact Or.inl (by rw [h])
    · exact Or.inr (Or.inr h)

theorem mem_of_mem_destroyExecutor {o : Option ExecId} {rest : List IoInstr} {instr : IoInstr}
    (hno : ∀ e, instr ≠ .pushDestroy e ∧ instr ≠ .join e)
    (h : instr ∈ destroyExecutor o ++ rest) : instr ∈ rest := by
  cases o with
  | none => exact h
  | some e =>
    rcases List.mem_cons.mp h with rfl | h
    · exact absurd rfl (hno e).1
    · rcases List.mem_cons.mp h with rfl | h
      · exact absurd rfl (hno e).2
      · exact h

theorem Wf.addConnection (hw : Wf s) (hprog : StoresThenPushes s.io) (id : SocketId) :
    Wf (addConnection s id) where
  fresh i e h := by
    change e < s.nextExec + 1
    rw [executorOf_addConnection] at h
    split at h
    · exact Option.some.inj h ▸ Nat.lt_succ_self _
    · exact Nat.lt_succ_of_lt (hw.fresh i e h)
  owner i e h := by
    change (Function.update s.executors s.nextExec (Executor.make id) e).id = i
    rw [executorOf_addConnection] at h
    split at h
    · rename_i hi
      obtain rfl := Option.some.inj h
      rw [Function.update_self]
      exact hi.symm
    · have hlt := hw.fresh i e h
      rw [Function.update_of_ne (Nat.ne_of_lt hlt)]
      exact hw.owner i e h
  tasks e := by
    change (Function.update s.executors s.nextExec (Executor.make id) e).OwnTasks
    by_cases he : e = s.nextExec
    · subst he
      rw [Function.update_self]
      exact ⟨fun _ h => (by cases h), fun _ h => (by cases h)⟩
    · rw [Function.update_of_ne he]; exact hw.tasks e
  doomed e h := by
    change e < s.nextExec + 1 ∧ _
    rcases mem_destroyExecutor h with hold | hrest
    -- the executor that is replaced was in the map under `id` only
    · have hlt := hw.fresh id e hold
      refine ⟨Nat.lt_succ_of_lt hlt, fun i hi => ?_⟩
      rw [executorOf_addConnection] at hi
      split at hi
      · exact Nat.ne_of_lt hlt (Option.some.inj hi).symm
      · rename_i hne; exact hne (hw.inj hi hold)
    · obtain ⟨hlt, hno⟩ := hw.doomed e hrest
      refine ⟨Nat.lt_succ_of_lt hlt, fun i hi => ?_⟩
      rw [executorOf_addConnection] at hi
      split at hi
      · exact Nat.ne_of_lt hlt (Option.some.inj hi).symm
      · exact hno i hi
  shape := Or.inl (storesThenPushes_destroyExecutor _ hprog)

theorem Wf.erase (hw : Wf s) (hprog : StoresThenPushes s.io) (id : SocketId) :
    Wf (erase s id) where
  fresh i e h := by
    rw [executorOf_erase] at h
    split at h
    · cases h
    · exact hw.fresh i e h
  owner i e h := by
    rw [executorOf_erase] at h
    split at h
    · cases h
    · exact hw.owner i e h
  tasks := hw.tasks
  doomed e h := by
    change e < s.nextExec ∧ _
    rcases mem_destroyExecutor h with hold | hrest
    -- the executor that is erased was in the map under `id` only
    · refine ⟨hw.fresh id e hold, fun i hi => ?_⟩
      rw [executorOf_erase] at hi
      split at hi
      · cases hi
      · rename_i hne; exact hne (hw.inj hi hold)
    · obtain ⟨hlt, hno⟩ := hw.doomed e hrest
      refine ⟨hlt, fun i hi => ?_⟩
      rw [executorOf_erase] at hi
      split at hi
      · cases hi
      · exact hno i hi
  shape := Or.inl (storesThenPushes_destroyExecutor _ hprog)

/-- Changing entries without changing which executor they own. -/
theorem Wf.wsConns (hw : Wf s) {m : AList (fun _ : SocketId => SocketEntry)}
    (h : ∀ i, ({ s with wsConns := m } : State).executorOf i = s.executorOf i) :
    Wf { s with wsConns := m } where
  fresh i e he := hw.fresh i e (h i ▸ he)
  owner i e he := hw.owner i e (h i ▸ he)
  tasks := hw.tasks
  doomed e he := ⟨(hw.doomed e he).1, fun i hi => (hw.doomed e he).2 i (h i ▸ hi)⟩
  shape := hw.shape

theorem Wf.storeBuffer (hw : Wf s) (id : SocketId) (p : Payload) : Wf (storeBuffer s id p) := by
  have hmap := fun i => executorOf_storeBuffer s id p i
  cases hex : s.executorOf id with
  | none =>
    obtain ⟨entry, heq⟩ := storeBuffer_of_none hex p
    rw [heq] at hmap ⊢
    exact hw.wsConns hmap
  | some e =>
    rw [storeBuffer_eq hex] at hmap ⊢
    exact (hw.wsConns hmap).setExecutor rfl ⟨(hw.tasks e).queued, (hw.tasks e).held⟩

theorem Wf.pushItem (hw : Wf s) {item : WorkItem} (h : pushItem s e item = some t)
    (hitem : ∀ k, item = .consume k → k.id = (s.executors e).id) : Wf t := by
  obtain ⟨-, rfl⟩ := pushItem_eq_some h
  refine hw.setExecutor (by rfl) ⟨fun k hk => ?_, (hw.tasks e).held⟩
  rcases List.mem_append.mp hk with hk | hk
  · exact (hw.tasks e).queued k hk
  · exact hitem k (List.mem_singleton.mp hk).symm

theorem Wf.setDone (hw : Wf s) (e : ExecId) : Wf (setDone s e) := by
  unfold WebsocketServer.setDone
  split
  · rename_i k d hthread
    refine hw.setExecutor (by rfl) ⟨(hw.tasks e).queued, fun k' hk => ?_⟩
    obtain rfl : k = k' := Option.some.inj hk
    exact (hw.tasks e).held k (by rw [hthread]; rfl)
  · exact hw

theorem Wf.ioExec {instr : IoInstr} {rest : List IoInstr} (hw : Wf s) (hio : s.io = instr :: rest)
    (h : ioExec { s with io := rest } instr = some t) : Wf t := by
  have htail := hw.tail hio
  have hshape : Shaped (instr :: rest) := hio ▸ hw.shape
  cases instr with
  | addConnection id => exact Option.some.inj h ▸ htail.addConnection (hshape.tail_of_other rfl) id
  | accept id => exact Option.some.inj h ▸ htail
  | close id => exact Option.some.inj h ▸ htail
  | storeBuffer id p => exact Option.some.inj h ▸ htail.storeBuffer id p
  | push id k =>
    obtain ⟨e, hex, hpush⟩ := Option.bind_eq_some_iff.mp h
    -- the task is for `id`, and so is the executor that the map leads to
    apply htail.pushItem hpush
    rintro k' ⟨rfl⟩
    exact hshape.push.2.trans (hw.owner id e hex).symm
  | erase id => exact Option.some.inj h ▸ htail.erase (hshape.tail_of_other rfl) id
  | pushDestroy e => exact htail.pushItem h (fun k hk => by cases hk)
  | join e =>
    simp only [WebsocketServer.ioExec] at h
    split at h
    · exact Option.some.inj h ▸ htail
    · cases h
  | send resp => exact Option.some.inj h ▸ htail
  | interrupt id =>
    obtain rfl := Option.some.inj h
    exact ⟨htail.fresh, htail.owner, htail.tasks, htail.doomed, htail.shape⟩
  | setDone e => exact Option.some.inj h ▸ htail.setDone e

theorem wf_step {a : Action} (hw : Wf s) (h : step s a = some t) : Wf t := by
  rcases step_cases h with ⟨ev, -, -, -, rfl⟩ | ⟨p, rest, -, -, -, rfl⟩ |
    ⟨instr, rest, -, hio, hexec⟩ | ⟨e, hm, -⟩
  · exact hw.start (storesThenPushes_handler s ev) (handler_no_destroy s ev)
  · exact hw.start (storesThenPushes_postedHandler p) (postedHandler_no_destroy p)
  · exact hw.ioExec hio hexec
  · exact hw.moved hm

end Ra2yrcpp.WebsocketServer
