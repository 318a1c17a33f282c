import Ra2yrcpp.WebsocketServer.Steps

/-!
# Delivery of messages to `cb_.receive`

A payload travels through the one `SocketEntry.buffer` of its connection, the task that reads it
through the executor's queue.  A second message that arrives before the first was read overwrites
it, so both tasks read the second.  When every message is read before the next one arrives, each is
received once and in order.
-/

open Ra2yrcpp.Reasoning

namespace Ra2yrcpp.WebsocketServer

variable {s t : State} {id : SocketId} {e : ExecId}

/-- Tasks of the executor that have not called `cb_.receive` yet. -/
def Executor.unread (x : Executor) : Nat :=
  x.work.q.q.countP WorkItem.isTask +
    match x.thread with
    | .taken _ => 1
    | _ => 0

/-- Whether the io thread is in `executor->push` for the connection. -/
def State.pushing (s : State) (id : SocketId) : Nat :=
  match s.io with
  | .push i _ :: _ => if i = id then 1 else 0
  | _ => 0

/-- Messages of the connection whose payload is stored and whose task has not read it. -/
def State.outstanding (s : State) (id : SocketId) (e : ExecId) : Nat :=
  (s.executors e).unread + s.pushing id

/-- Every message of an open connection was passed to `cb_.receive` once and in order, except for
those whose task still waits, and then the executor that runs these tasks is alive. -/
def ExactlyOnce (s : State) : Prop :=
  ∀ id e, s.executorOf id = some e →
    ∃ waiting, (s.executors e).delivered = (s.executors e).received ++ waiting ∧
      waiting.length = s.outstanding id e ∧ (waiting ≠ [] → (s.executors e).thread ≠ .exited)

/-! ## Two pipelined messages -/

/-- Connection 1 opens; messages `[1]` and `[2]` arrive before the executor takes a task. -/
def pipelined : List Action :=
  [.event (.openConn 1), .io, .io,
    .event (.message 1 .binary [1]), .io, .io,
    .event (.message 1 .binary [2]), .io, .io,
    .take 0, .receive 0 (some []), .post 0, .runPosted, .io, .io, .resume 0,
    .take 0, .receive 0 (some [])]

theorem pipelined_messages_lost :
    ∃ s, run step State.init pipelined = some s ∧ s.executorOf 1 = some 0 ∧
      (s.executors 0).delivered = [[1], [2]] ∧ (s.executors 0).received = [[2], [2]] ∧
      s.outstanding 1 0 = 0 ∧ ¬ ExactlyOnce s := by
  refine ⟨(run step State.init pipelined).get (by decide), by simp, by decide, by decide,
    by decide, by decide, ?_⟩
  intro h
  obtain ⟨waiting, heq, hlen, -⟩ := h 1 0 (by decide)
  have hnil : waiting = [] := List.eq_nil_of_length_eq_zero (hlen.trans (by decide))
  rw [hnil, List.append_nil] at heq
  exact absurd heq (by decide)

/-! ## Messages read before the next one -/

/-- The io thread is about to push a task to the executor. -/
def State.awaits (s : State) (e : ExecId) : Bool :=
  s.io.any fun
    | .push id _ => s.executorOf id == some e
    | _ => false

theorem executorOf_ne_of_not_awaits {k : Task} (h : s.awaits e = false) (hmem : .push id k ∈ s.io) :
    s.executorOf id ≠ some e := by
  intro hex
  have hfalse := List.any_eq_false.mp h _ hmem
  exact hfalse (beq_iff_eq.mpr hex)

/-- A binary message is handed to the server only when every earlier message of its connection was
read and the executor has not given up waiting for work, which it does not do either while the io
thread is about to push to it. -/
def ReadBeforeNext (s : State) : Action → Prop
  | .event (.message id .binary _) =>
    ∀ e ∈ s.executorOf id, (s.executors e).thread ≠ .exited ∧ (s.executors e).unread = 0
  | .timeout e => s.awaits e = false
  | _ => True

instance (s : State) : (a : Action) → Decidable (ReadBeforeNext s a)
  | .event (.message id .binary _) =>
    inferInstanceAs (Decidable (∀ e ∈ s.executorOf id, _ ∧ _))
  | .timeout e => inferInstanceAs (Decidable (s.awaits e = false))
  | .event (.message _ .text _) => isTrue trivial
  | .event (.openConn _) => isTrue trivial
  | .event (.closeConn _) => isTrue trivial
  | .event (.http _ _) => isTrue trivial
  | .runPosted => isTrue trivial
  | .io => isTrue trivial
  | .take _ => isTrue trivial
  | .receive _ _ => isTrue trivial
  | .post _ => isTrue trivial
  | .resume _ => isTrue trivial

theorem pushing_of_not_mem (h : ∀ k, .push id k ∉ s.io) : s.pushing id = 0 := by
  unfold State.pushing
  split
  · rename_i i k rest hio
    rw [if_neg]
    rintro rfl
    exact h k (by rw [hio]; exact List.mem_cons_self)
  · rfl

theorem pushing_of_storesThenPushes (h : StoresThenPushes s.io) (id : SocketId) :
    s.pushing id = 0 := by
  unfold State.pushing
  split
  · rename_i hio
    rw [hio] at h
    cases h
  · rfl

/-- Nothing is outstanding and all was received, or the one outstanding payload is in the buffer. -/
def Executor.Ordered (x : Executor) (buffer : Payload) (n : Nat) : Prop :=
  (n = 0 ∧ x.delivered = x.received) ∨ (n = 1 ∧ x.delivered = x.received ++ [buffer])

structure Delivery (s : State) : Prop where
  clean : ∀ id e, s.executorOf id = some e → .destroy ∉ (s.executors e).work.q.q
  live : ∀ id e, s.executorOf id = some e → (s.executors e).thread = .exited →
    (s.executors e).unread = 0 ∧ ∀ k, .push id k ∉ s.io
  stored : ∀ id p e, .storeBuffer id p ∈ s.io → s.executorOf id = some e →
    (s.executors e).unread = 0
  order : ∀ id e, s.executorOf id = some e →
    (s.executors e).Ordered (s.entry id).buffer (s.outstanding id e)

theorem Delivery.exactlyOnce (h : Delivery s) : ExactlyOnce s := by
  intro id e hex
  rcases h.order id e hex with ⟨hn, heq⟩ | ⟨hn, heq⟩
  · exact ⟨[], by rw [heq, List.append_nil], hn.symm, fun hne => absurd rfl hne⟩
  -- an executor that has exited has nothing left to read
  · refine ⟨[(s.entry id).buffer], heq, hn.symm, fun _ hexit => ?_⟩
    obtain ⟨hunread, hpush⟩ := h.live id e hex hexit
    unfold State.outstanding at hn
    rw [hunread, pushing_of_not_mem hpush] at hn
    omega

theorem delivery_init : Delivery State.init where
  clean _ _ h := by cases h
  live _ _ h := by cases h
  stored _ _ _ h := by cases h
  order _ _ h := by cases h

/-- A step that leaves the executors in the map, their entries and their pushes alone. -/
theorem Delivery.frame (h : Delivery s)
    (hmap : ∀ id e, t.executorOf id = some e → s.executorOf id = some e ∧
      t.executors e = s.executors e ∧ t.entry id = s.entry id ∧ t.pushing id = s.pushing id)
    (hstore : ∀ id p, .storeBuffer id p ∈ t.io → .storeBuffer id p ∈ s.io)
    (hpush : ∀ id k, .push id k ∈ t.io → .push id k ∈ s.io) : Delivery t where
  clean id e hex := by
    obtain ⟨hex', hx, -, -⟩ := hmap id e hex
    rw [hx]
    exact h.clean id e hex'
  live id e hex := by
    obtain ⟨hex', hx, -, -⟩ := hmap id e hex
    rw [hx]
    intro hexit
    obtain ⟨hunread, hno⟩ := h.live id e hex' hexit
    exact ⟨hunread, fun k hmem => hno k (hpush id k hmem)⟩
  stored id p e hmem hex := by
    obtain ⟨hex', hx, -, -⟩ := hmap id e hex
    rw [hx]
    exact h.stored id p e (hstore id p hmem) hex'
  order id e hex := by
    obtain ⟨hex', hx, hentry, hpush⟩ := hmap id e hex
    unfold State.outstanding
    rw [hx, hentry, hpush]
    exact h.order id e hex'

/-! ### Entries -/

theorem entry_addConnection_ne (s : State) {i : SocketId} (h : i ≠ id) :
    (addConnection s id).entry i = s.entry i := by
  unfold State.entry addConnection
  rw [AList.lookup_insert_ne h]

theorem entry_erase_ne (s : State) {i : SocketId} (h : i ≠ id) :
    (erase s id).entry i = s.entry i := by
  unfold State.entry erase
  rw [AList.lookup_erase_ne h]

theorem entry_storeBuffer (hex : s.executorOf id = some e) (p : Payload) :
    (storeBuffer s id p).entry id = ⟨p, some e⟩ := by
  rw [storeBuffer_eq hex]
  change ((s.wsConns.insert id ⟨p, some e⟩).lookup id).getD _ = _
  rw [AList.lookup_insert]
  rfl

theorem entry_storeBuffer_ne (s : State) (p : Payload) {i : SocketId} (h : i ≠ id) :
    (storeBuffer s id p).entry i = s.entry i := by
  cases hex : s.executorOf id with
  | none =>
    obtain ⟨entry, heq⟩ := storeBuffer_of_none hex p
    rw [heq]
    unfold State.entry
    rw [AList.lookup_insert_ne h]
  | some e =>
    rw [storeBuffer_eq hex]
    change ((s.wsConns.insert id ⟨p, some e⟩).lookup i).getD _ = _
    rw [AList.lookup_insert_ne h]
    rfl

theorem executors_storeBuffer (hex : s.executorOf id = some e) (p : Payload) (e' : ExecId) :
    (storeBuffer s id p).executors e' =
      if e' = e then { s.executors e with delivered := (s.executors e).delivered ++ [p] }
      else s.executors e' := by
  rw [storeBuffer_eq hex]
  exact Function.update_apply ..

/-! ### One executor moves -/

theorem ExecMove.ordered {buffer : SocketId → Payload} {x y : Executor} (hmove : ExecMove buffer x y)
    (hown : x.OwnTasks) (hlive : .destroy ∉ x.work.q.q)
    (n : Nat) (h : x.Ordered (buffer x.id) (x.unread + n)) :
    (y.thread = .exited → x.thread = .waiting ∧ x.work.q.q = [] ∧ y.unread = 0) ∧
      .destroy ∉ y.work.q.q ∧ y.unread ≤ x.unread ∧
      y.Ordered (buffer x.id) (y.unread + n) := by
  cases hmove with
  -- only an executor that left the map is told to exit
  | exit w hthread hq => exact absurd (hq ▸ List.mem_cons_self) hlive
  | take k w hthread hq =>
    -- the task moves from the queue to the thread
    have hunread : ({ x with work := ⟨⟨w⟩, x.work.maxSize⟩, thread := .taken k } :
        Executor).unread = x.unread := by
      unfold Executor.unread
      rw [hq, hthread, List.countP_cons]
      rfl
    refine ⟨by simp, fun hmem => hlive (hq ▸ List.mem_cons_of_mem _ hmem), Nat.le_of_eq hunread, ?_⟩
    rw [hunread]
    exact h
  | timeout hthread hq =>
    have hunread : ({ x with thread := .exited } : Executor).unread = x.unread := by
      unfold Executor.unread
      rw [hthread]
    have hzero : x.unread = 0 := by
      unfold Executor.unread
      rw [hthread, hq]
      rfl
    refine ⟨fun _ => ⟨hthread, hq, hunread.trans hzero⟩, hlive, Nat.le_of_eq hunread, ?_⟩
    rw [hunread]
    exact h
  | receive k th hthread hth =>
    have hbefore : x.unread = x.work.q.q.countP WorkItem.isTask + 1 := by
      unfold Executor.unread
      rw [hthread]
    have hafter : ({ x with received := x.received ++ [buffer k.id], thread := th } :
        Executor).unread = x.work.q.q.countP WorkItem.isTask := by
      unfold Executor.unread
      rcases hth with rfl | ⟨r, rfl⟩ <;> rfl
    have hk : k.id = x.id := hown.held k (by rw [hthread]; rfl)
    refine ⟨?_, hlive, by omega, ?_⟩
    · rcases hth with rfl | ⟨r, rfl⟩ <;> simp
    · -- the task that was taken is the one outstanding, and the buffer is what it reads
      rcases h with ⟨hn, -⟩ | ⟨hn, heq⟩
      · omega
      · left
        refine ⟨by omega, ?_⟩
        rw [hk]
        exact heq
  | post k r hthread =>
    have hunread : ({ x with thread := .posted k false } : Executor).unread = x.unread := by
      unfold Executor.unread
      rw [hthread]
    refine ⟨by simp, hlive, Nat.le_of_eq hunread, ?_⟩
    rw [hunread]
    exact h
  | resume k hthread =>
    have hunread : ({ x with thread := .waiting } : Executor).unread = x.unread := by
      unfold Executor.unread
      rw [hthread]
    refine ⟨by simp, hlive, Nat.le_of_eq hunread, ?_⟩
    rw [hunread]
    exact h

theorem Moved.pushing (hm : Moved s e t) (id : SocketId) : t.pushing id = s.pushing id := by
  unfold State.pushing
  rw [hm.io]

theorem Delivery.moved (h : Delivery s) (hw : Wf s) (hm : Moved s e t)
    (hidle : (s.executors e).thread = .waiting → (s.executors e).work.q.q = [] →
      ∀ id k, .push id k ∈ s.io → s.executorOf id ≠ some e) : Delivery t := by
  -- what the move keeps for the connection it belongs to
  have hself : ∀ id, s.executorOf id = some e →
      ((t.executors e).thread = .exited → (s.executors e).thread = .waiting ∧
        (s.executors e).work.q.q = [] ∧ (t.executors e).unread = 0) ∧
      .destroy ∉ (t.executors e).work.q.q ∧
      (t.executors e).unread ≤ (s.executors e).unread ∧
      (t.executors e).Ordered (s.entry id).buffer ((t.executors e).unread + s.pushing id) := by
    intro id hex
    have hid := hw.owner id e hex
    have hmove := hm.move.ordered (hw.tasks e) (h.clean id e hex) (s.pushing id)
    rw [hid] at hmove
    exact hmove (h.order id e hex)
  refine ⟨fun id e' hex => ?_, fun id e' hex => ?_, fun id p e' hmem hex => ?_,
    fun id e' hex => ?_⟩
  · rw [hm.executorOf] at hex
    by_cases he : e' = e
    · subst he
      exact (hself id hex).2.1
    · rw [hm.others e' he]
      exact h.clean id e' hex
  · rw [hm.executorOf] at hex
    rw [hm.io]
    by_cases he : e' = e
    · subst he
      intro hexit
      -- it gave up waiting, and nobody is pushing to it
      obtain ⟨hwait, hnil, hunread⟩ := (hself id hex).1 hexit
      exact ⟨hunread, fun k hmem => hidle hwait hnil id k hmem hex⟩
    · rw [hm.others e' he]
      exact h.live id e' hex
  · rw [hm.executorOf] at hex
    rw [hm.io] at hmem
    have hzero := h.stored id p e' hmem hex
    by_cases he : e' = e
    · subst he
      have hle := (hself id hex).2.2.1
      omega
    · rw [hm.others e' he]
      exact hzero
  · rw [hm.executorOf] at hex
    unfold State.outstanding
    rw [hm.pushing, hm.entry]
    by_cases he : e' = e
    · subst he
      exact (hself id hex).2.2.2
    · rw [hm.others e' he]
      exact h.order id e' hex

/-! ### The io thread -/

/-- The program advances past an instruction that neither stores nor pushes. -/
theorem Delivery.tail (h : Delivery s) (hw : Wf s) {instr : IoInstr} {rest : List IoInstr}
    (hio : s.io = instr :: rest) (hother : instr.other = true) :
    Delivery { s with io := rest } := by
  have hshape : Shaped (instr :: rest) := hio ▸ hw.shape
  have hprog := hshape.tail_of_other hother
  have hpush : ∀ id, s.pushing id = 0 := by
    intro id
    unfold State.pushing
    rw [hio]
    cases instr with
    | push i k => cases hother
    | _ => rfl
  apply h.frame
  · intro id e hex
    exact ⟨hex, rfl, rfl, (pushing_of_storesThenPushes hprog id).trans (hpush id).symm⟩
  · intro id p hmem
    rw [hio]
    exact List.mem_cons_of_mem _ hmem
  · intro id k hmem
    rw [hio]
    exact List.mem_cons_of_mem _ hmem

theorem Delivery.addConnection (h : Delivery s) (hw : Wf s) (hprog : StoresThenPushes s.io)
    (id : SocketId) : Delivery (addConnection s id) := by
  have hpush : ∀ i, (WebsocketServer.addConnection s id).pushing i = 0 :=
    pushing_of_storesThenPushes (storesThenPushes_destroyExecutor _ hprog)
  have hpush' : ∀ i, s.pushing i = 0 := pushing_of_storesThenPushes hprog
  have hmem : ∀ i p, .storeBuffer i p ∈ (WebsocketServer.addConnection s id).io →
      .storeBuffer i p ∈ s.io :=
    fun i p hmem => mem_of_mem_destroyExecutor (fun e => by simp) hmem
  have hmem' : ∀ i k, .push i k ∈ (WebsocketServer.addConnection s id).io → .push i k ∈ s.io :=
    fun i k hmem => mem_of_mem_destroyExecutor (fun e => by simp) hmem
  -- the new executor has nothing outstanding; the others are those of `s`
  have hnew : (WebsocketServer.addConnection s id).executors s.nextExec = Executor.make id :=
    Function.update_self ..
  have hold : ∀ i e, i ≠ id → (WebsocketServer.addConnection s id).executorOf i = some e →
      s.executorOf i = some e ∧ (WebsocketServer.addConnection s id).executors e = s.executors e := by
    intro i e hi hex
    rw [executorOf_addConnection, if_neg hi] at hex
    exact ⟨hex, Function.update_of_ne (Nat.ne_of_lt (hw.fresh i e hex)) ..⟩
  have hexec : ∀ e, (WebsocketServer.addConnection s id).executorOf id = some e → e = s.nextExec := by
    intro e hex
    rw [executorOf_addConnection, if_pos rfl] at hex
    exact (Option.some.inj hex).symm
  refine ⟨fun i e hex => ?_, fun i e hex hexit => ?_, fun i p e hstore hex => ?_,
    fun i e hex => ?_⟩
  · by_cases hi : i = id
    · subst hi
      rw [hexec e hex, hnew]
      exact List.not_mem_nil
    · obtain ⟨hex', hx⟩ := hold i e hi hex
      rw [hx]
      exact h.clean i e hex'
  · by_cases hi : i = id
    · subst hi
      rw [hexec e hex, hnew] at hexit
      cases hexit
    · obtain ⟨hex', hx⟩ := hold i e hi hex
      rw [hx] at hexit ⊢
      obtain ⟨hunread, hno⟩ := h.live i e hex' hexit
      exact ⟨hunread, fun k hk => hno k (hmem' i k hk)⟩
  · by_cases hi : i = id
    · subst hi
      rw [hexec e hex, hnew]
      rfl
    · obtain ⟨hex', hx⟩ := hold i e hi hex
      rw [hx]
      exact h.stored i p e (hmem i p hstore) hex'
  · unfold State.outstanding
    rw [hpush]
    by_cases hi : i = id
    · subst hi
      rw [hexec e hex, hnew]
      exact Or.inl ⟨rfl, rfl⟩
    · obtain ⟨hex', hx⟩ := hold i e hi hex
      rw [hx, entry_addConnection_ne s hi]
      have horder := h.order i e hex'
      unfold State.outstanding at horder
      rwa [hpush'] at horder

theorem Delivery.erase (h : Delivery s) (hprog : StoresThenPushes s.io) (id : SocketId) :
    Delivery (erase s id) := by
  apply h.frame
  · intro i e hex
    rw [executorOf_erase] at hex
    split at hex
    · cases hex
    · rename_i hi
      exact ⟨hex, rfl, entry_erase_ne s hi,
        (pushing_of_storesThenPushes (storesThenPushes_destroyExecutor _ hprog) i).trans
          (pushing_of_storesThenPushes hprog i).symm⟩
  · exact fun i p hmem => mem_of_mem_destroyExecutor (fun e => by simp) hmem
  · exact fun i k hmem => mem_of_mem_destroyExecutor (fun e => by simp) hmem

/-- `ws_conns[id].buffer = payload`: one message becomes outstanding, and its payload is what the
buffer holds. -/
theorem Delivery.storeBuffer (h : Delivery s) (hw : Wf s) {p : Payload} {rest : List IoInstr}
    (hio : s.io = .storeBuffer id p :: rest) :
    Delivery (storeBuffer { s with io := rest } id p) := by
  have hshape : Shaped (.storeBuffer id p :: rest) := hio ▸ hw.shape
  obtain ⟨k, rfl, hk⟩ := hshape.storeBuffer
  have hpush : ∀ i, s.pushing i = 0 := by
    intro i
    unfold State.pushing
    rw [hio]
  have hpush' : ∀ i, (WebsocketServer.storeBuffer { s with io := [.push id k] } id p).pushing i =
      if id = i then 1 else 0 := by
    intro i
    unfold State.pushing
    rw [io_storeBuffer]
  cases hex : s.executorOf id with
  | none =>
    -- no message is stored for a connection whose entry has no executor
    apply h.frame
    · intro i e he
      rw [executorOf_storeBuffer] at he
      have hi : i ≠ id := by
        rintro rfl
        rw [show s.executorOf i = some e from he] at hex
        cases hex
      refine ⟨he, ?_, entry_storeBuffer_ne _ p hi, ?_⟩
      · obtain ⟨entry, heq⟩ := storeBuffer_of_none (s := { s with io := [.push id k] }) hex p
        rw [heq]
      · rw [hpush, hpush', if_neg (Ne.symm hi)]
    · intro i q hmem
      rw [io_storeBuffer] at hmem
      simp at hmem
    · intro i k' hmem
      rw [io_storeBuffer] at hmem
      rw [hio]
      exact List.mem_cons_of_mem _ hmem
  | some e =>
    have hzero : (s.executors e).unread = 0 := h.stored id p e (by rw [hio]; simp) hex
    have hexecs := executors_storeBuffer (s := { s with io := [.push id k] }) hex p
    have hentry := entry_storeBuffer (s := { s with io := [.push id k] }) hex p
    refine ⟨fun i e' he => ?_, fun i e' he => ?_, fun i q e' hmem _ => ?_, fun i e' he => ?_⟩
    · rw [executorOf_storeBuffer] at he
      rw [hexecs]
      have hclean := h.clean i e' he
      split
      · rename_i he'
        exact he' ▸ hclean
      · exact hclean
    · rw [executorOf_storeBuffer] at he
      rw [hexecs, io_storeBuffer]
      have hlive := h.live i e' he
      rw [hio] at hlive
      have hno : (∀ k', .push i k' ∉ [IoInstr.storeBuffer id p, .push id k]) →
          ∀ k', .push i k' ∉ [IoInstr.push id k] :=
        fun hno k' hmem => hno k' (List.mem_cons_of_mem _ hmem)
      split
      · rename_i he'
        subst he'
        exact fun hexit => (hlive hexit).imp_right hno
      · exact fun hexit => (hlive hexit).imp_right hno
    · rw [io_storeBuffer] at hmem
      cases List.mem_singleton.mp hmem
    · rw [executorOf_storeBuffer] at he
      have horder := h.order i e' he
      unfold State.outstanding at horder ⊢
      rw [hpush, Nat.add_zero] at horder
      rw [hpush', hexecs]
      by_cases hi : id = i
      · -- all messages before this one were read
        subst hi
        obtain rfl : e = e' := Option.some.inj (hex.symm.trans he)
        have hdelivered : (s.executors e).delivered = (s.executors e).received := by
          rcases horder with ⟨-, heq⟩ | ⟨hn, -⟩
          · exact heq
          · omega
        rw [hentry, if_pos rfl, if_pos rfl]
        refine Or.inr ⟨?_, ?_⟩
        · change (s.executors e).unread + 1 = 1
          rw [hzero]
        · change (s.executors e).delivered ++ [p] = (s.executors e).received ++ [p]
          rw [hdelivered]
      · have he' : e' ≠ e := by
          rintro rfl
          exact hi (hw.inj hex he)
        rw [entry_storeBuffer_ne _ p (Ne.symm hi), if_neg he', if_neg hi]
        exact horder

/-- The task joins the queue: the message stays outstanding. -/
theorem Delivery.push (h : Delivery s) (hw : Wf s) {k : Task} {rest : List IoInstr}
    (hio : s.io = .push id k :: rest) (hex : s.executorOf id = some e)
    (hpush : pushItem { s with io := rest } e (.consume k) = some t) : Delivery t := by
  have hshape : Shaped (.push id k :: rest) := hio ▸ hw.shape
  obtain ⟨rfl, hk⟩ := hshape.push
  obtain ⟨-, rfl⟩ := pushItem_eq_some hpush
  have hpushing : ∀ i, s.pushing i = if id = i then 1 else 0 := by
    intro i
    unfold State.pushing
    rw [hio]
  have hself : ∀ x, Function.update s.executors e x e = x := fun x => Function.update_self ..
  refine ⟨fun i e' he => ?_, fun i e' he => ?_, fun i q e' hmem _ => (by cases hmem),
    fun i e' he => ?_⟩
  · have hclean := h.clean i e' he
    change .destroy ∉ (Function.update s.executors e _ e').work.q.q
    by_cases he' : e' = e
    · subst he'
      rw [hself]
      intro hmem
      rcases List.mem_append.mp hmem with hmem | hmem
      · exact hclean hmem
      · cases List.mem_singleton.mp hmem
    · rw [Function.update_of_ne he']
      exact hclean
  · have hlive := h.live i e' he
    change (Function.update s.executors e _ e').thread = .exited →
      (Function.update s.executors e _ e').unread = 0 ∧ ∀ k', IoInstr.push i k' ∉ []
    by_cases he' : e' = e
    · -- the executor that is pushed to has not exited
      subst he'
      rw [hself]
      intro hexit
      have hi : id = i := hw.inj hex he
      exact absurd (by rw [hio, hi]; exact List.mem_cons_self) ((hlive hexit).2 k)
    · rw [Function.update_of_ne he']
      intro hexit
      exact ⟨(hlive hexit).1, fun _ => List.not_mem_nil⟩
  · have horder := h.order i e' he
    unfold State.outstanding at horder
    rw [hpushing] at horder
    change (Function.update s.executors e _ e').Ordered (s.entry i).buffer
      ((Function.update s.executors e _ e').unread + 0)
    by_cases hi : id = i
    · -- from the io thread to the queue: the count stays the same
      subst hi
      obtain rfl : e = e' := Option.some.inj (hex.symm.trans he)
      rw [hself]
      rw [if_pos rfl] at horder
      have hunread : ({ s.executors e with work := ⟨⟨(s.executors e).work.q.q ++ [.consume k]⟩,
          (s.executors e).work.maxSize⟩ } : Executor).unread = (s.executors e).unread + 1 := by
        unfold Executor.unread
        rw [List.countP_append]
        exact Nat.add_right_comm ..
      change Executor.Ordered _ _ (Executor.unread { s.executors e with
        work := ⟨⟨(s.executors e).work.q.q ++ [.consume k]⟩, (s.executors e).work.maxSize⟩ } + 0)
      rw [hunread, Nat.add_zero]
      exact horder
    · have he' : e' ≠ e := by
        rintro rfl
        exact hi (hw.inj hex he)
      rw [Function.update_of_ne he']
      rwa [if_neg hi] at horder

/-- Changing one executor in a way that does not show in the delivery of its messages. -/
theorem Delivery.setExecutor (h : Delivery s) {x : Executor}
    (hx : (∃ id, s.executorOf id = some e) →
      (x.thread = .exited → (s.executors e).thread = .exited) ∧ x.work = (s.executors e).work ∧
      x.unread = (s.executors e).unread ∧
      x.delivered = (s.executors e).delivered ∧ x.received = (s.executors e).received) :
    Delivery (s.setExecutor e x) := by
  refine ⟨fun i e' he => ?_, fun i e' he => ?_, fun i q e' hmem he => ?_, fun i e' he => ?_⟩
  · change .destroy ∉ (Function.update s.executors e x e').work.q.q
    by_cases he' : e' = e
    · subst he'
      obtain ⟨-, hwork, -⟩ := hx ⟨i, he⟩
      rw [Function.update_self, hwork]
      exact h.clean i e' he
    · rw [Function.update_of_ne he']
      exact h.clean i e' he
  · change (Function.update s.executors e x e').thread = .exited →
      (Function.update s.executors e x e').unread = 0 ∧ ∀ k, .push i k ∉ s.io
    by_cases he' : e' = e
    · subst he'
      obtain ⟨hthread, -, hunread, -⟩ := hx ⟨i, he⟩
      rw [Function.update_self, hunread]
      exact fun hexit => h.live i e' he (hthread hexit)
    · rw [Function.update_of_ne he']
      exact h.live i e' he
  · change (Function.update s.executors e x e').unread = 0
    by_cases he' : e' = e
    · subst he'
      rw [Function.update_self, (hx ⟨i, he⟩).2.2.1]
      exact h.stored i q e' hmem he
    · rw [Function.update_of_ne he']
      exact h.stored i q e' hmem he
  · have horder := h.order i e' he
    change (Function.update s.executors e x e').Ordered (s.entry i).buffer
      ((Function.update s.executors e x e').unread + s.pushing i)
    by_cases he' : e' = e
    · subst he'
      obtain ⟨-, -, hunread, hdel, hrec⟩ := hx ⟨i, he⟩
      rw [Function.update_self, hunread]
      unfold Executor.Ordered
      rw [hdel, hrec]
      exact horder
    · rw [Function.update_of_ne he']
      exact horder

theorem Delivery.ioExec (h : Delivery s) (hw : Wf s) {instr : IoInstr} {rest : List IoInstr}
    (hio : s.io = instr :: rest) (hexec : ioExec { s with io := rest } instr = some t) :
    Delivery t := by
  have hshape : Shaped (instr :: rest) := hio ▸ hw.shape
  cases instr with
  | addConnection id =>
    exact Option.some.inj hexec ▸ (h.tail hw hio rfl).addConnection (hw.tail hio)
      (hshape.tail_of_other rfl) id
  | accept id => exact Option.some.inj hexec ▸ h.tail hw hio rfl
  | close id => exact Option.some.inj hexec ▸ h.tail hw hio rfl
  | storeBuffer id p => exact Option.some.inj hexec ▸ h.storeBuffer hw hio
  | push id k =>
    obtain ⟨e, hex, hpush⟩ := Option.bind_eq_some_iff.mp hexec
    exact h.push hw hio hex hpush
  | erase id => exact Option.some.inj hexec ▸ (h.tail hw hio rfl).erase (hshape.tail_of_other rfl) id
  | pushDestroy e =>
    -- the executor that is being destroyed is in no entry of the map
    obtain ⟨-, rfl⟩ := pushItem_eq_some hexec
    apply (h.tail hw hio rfl).setExecutor
    rintro ⟨id, hex⟩
    exact absurd hex ((hw.doomed e (Or.inl (by rw [hio]; exact List.mem_cons_self))).2 id)
  | join e =>
    simp only [WebsocketServer.ioExec] at hexec
    split at hexec
    · exact Option.some.inj hexec ▸ h.tail hw hio rfl
    · cases hexec
  | send resp => exact Option.some.inj hexec ▸ h.tail hw hio rfl
  | interrupt id =>
    obtain rfl := Option.some.inj hexec
    have htail := h.tail hw hio rfl
    refine htail.frame (fun _ _ hex => ⟨hex, rfl, rfl, rfl⟩) ?_ ?_
    · exact fun _ _ hmem => hmem
    · exact fun _ _ hmem => hmem
  | setDone e =>
    obtain rfl := Option.some.inj hexec
    have htail := h.tail hw hio rfl
    unfold setDone
    split
    · rename_i k d hthread
      apply htail.setExecutor
      intro _
      refine ⟨Thread.noConfusion, rfl, ?_, rfl, rfl⟩
      unfold Executor.unread
      rw [hthread]
    · exact htail

/-! ### Runs -/

theorem Delivery.start (h : Delivery s) (hio : s.io = []) {prog : List IoInstr}
    {posted : List Posted} (hprog : StoresThenPushes prog)
    (hstore : ∀ id p e, .storeBuffer id p ∈ prog → s.executorOf id = some e →
      (s.executors e).unread = 0)
    (hpush : ∀ id k e, .push id k ∈ prog → s.executorOf id = some e →
      (s.executors e).thread ≠ .exited) : Delivery { s with io := prog, posted := posted } := by
  refine ⟨h.clean, fun id e hex hexit => ⟨(h.live id e hex hexit).1, fun k hmem => ?_⟩, hstore,
    fun id e hex => ?_⟩
  · exact hpush id k e hmem hex hexit
  have horder := h.order id e hex
  have hnil : s.pushing id = 0 := by unfold State.pushing; rw [hio]
  unfold State.outstanding at *
  rw [hnil] at horder
  rw [pushing_of_storesThenPushes hprog]
  exact horder

/-- The instruction hands a message to the executor of the connection. -/
def IoInstr.Feeds (id : SocketId) : IoInstr → Prop
  | .storeBuffer i _ => i = id
  | .push i _ => i = id
  | _ => False

/-- Only a binary message feeds an executor that exists: the HTTP handler makes a new one. -/
theorem feeds_handler {ev : Event} {instr : IoInstr} (hmem : instr ∈ handler s ev)
    (hfeeds : instr.Feeds id) (hex : s.executorOf id = some e) :
    ∃ payload, ev = .message id .binary payload := by
  cases ev with
  | message i op payload =>
    cases op with
    | text => cases hmem
    | binary =>
      have hi : i = id := by
        rcases List.mem_cons.mp hmem with rfl | hmem
        · exact hfeeds
        · rw [List.mem_singleton.mp hmem] at hfeeds
          exact hfeeds
      exact ⟨payload, by rw [hi]⟩
  | openConn i =>
    simp only [handler, openHandler, List.mem_cons, List.not_mem_nil, or_false] at hmem
    rcases hmem with rfl | rfl <;> cases hfeeds
  | closeConn i =>
    simp only [handler, closeHandler, List.mem_cons, List.not_mem_nil, or_false] at hmem
    rcases hmem with rfl | rfl <;> cases hfeeds
  | http i body =>
    simp only [handler, httpHandler] at hmem
    split at hmem
    · cases hmem
    · rename_i hnot
      obtain ⟨b, hl⟩ := lookup_of_executorOf hex
      have hin : id ∈ s.wsConns := AList.lookup_isSome.mp (by rw [hl]; rfl)
      simp only [List.mem_cons, List.not_mem_nil, or_false] at hmem
      rcases hmem with rfl | rfl | rfl | rfl
      · cases hfeeds
      · cases hfeeds
      · exact absurd hin ((show i = id from hfeeds) ▸ hnot)
      · exact absurd hin ((show i = id from hfeeds) ▸ hnot)

theorem delivery_step {a : Action} (hinv : Wf s ∧ Delivery s) (hok : ReadBeforeNext s a)
    (h : step s a = some t) : Wf t ∧ Delivery t := by
  obtain ⟨hw, hd⟩ := hinv
  refine ⟨wf_step hw h, ?_⟩
  rcases step_cases h with ⟨ev, rfl, hio, -, rfl⟩ | ⟨p, rest, -, hio, -, rfl⟩ |
    ⟨instr, rest, -, hio, hexec⟩ | ⟨e, hm, hwork⟩
  · apply hd.start hio (storesThenPushes_handler s ev)
    · intro id p e hmem hex
      obtain ⟨payload, rfl⟩ := feeds_handler hmem rfl hex
      exact (hok e hex).2
    · intro id k e hmem hex
      obtain ⟨payload, rfl⟩ := feeds_handler hmem rfl hex
      exact (hok e hex).1
  · apply hd.start hio (storesThenPushes_postedHandler p)
    · exact fun id q e hmem => absurd hmem ((postedHandler_no_push p id).1 q)
    · exact fun id k e hmem => absurd hmem ((postedHandler_no_push p id).2 k)
  · exact hd.ioExec hw hio hexec
  · apply hd.moved hw hm
    intro hwait hnil
    -- without work an executor moves by giving up only
    by_cases ha : a = .timeout e
    · subst ha
      exact fun id k hmem => executorOf_ne_of_not_awaits hok hmem
    · exact absurd hnil (hwork ha hwait)

/-- In every run in which each message is read before the next one of its connection arrives, every
message is received exactly once and in order. -/
theorem received_exactly_once {acts : List Action}
    (hok : Conforms step ReadBeforeNext State.init acts)
    (hrun : run step State.init acts = some s) : ExactlyOnce s := by
  have hinv : Wf s ∧ Delivery s :=
    run_invariant_of_conforms (fun _ _ _ => delivery_step) ⟨wf_init, delivery_init⟩ hok hrun
  exact hinv.2.exactlyOnce

/-- Two messages, the second one sent while the answer to the first is on its way. -/
def readInTurn : List Action :=
  [.event (.openConn 1), .io, .io, .event (.message 1 .binary [1]), .io, .io, .take 0,
    .receive 0 (some []), .event (.message 1 .binary [2]), .io, .io]

theorem readInTurn_exactlyOnce :
    ∃ s, run step State.init readInTurn = some s ∧ (s.executors 0).delivered = [[1], [2]] ∧
      (s.executors 0).received = [[1]] ∧ ExactlyOnce s := by
  refine ⟨(run step State.init readInTurn).get (by decide), by simp, by decide, by decide, ?_⟩
  exact received_exactly_once (by decide : Conforms step ReadBeforeNext State.init readInTurn)
    (by simp)

end Ra2yrcpp.WebsocketServer
