import Ra2yrcpp.WebsocketServer.Admission

/-!
# Hosts that are served

`RA2YRCPP_ALLOWED_HOSTS_REGEX` is matched against the remote address in the tcp pre-init handler, and
the outcome is logged.  A connection that does not match goes on like any other, so its requests are
passed to `cb_.receive` too.
-/

namespace Ra2yrcpp.WebsocketServer.Admission

open Reasoning

/-- The remote address matches the regex in the tcp pre-init handler. -/
def Allowed (regexSearch : String → String → Bool) (opts : Options) (remote : String) : Prop :=
  regexSearch remote opts.allowedHostsRegex = true

instance (regexSearch : String → String → Bool) (opts : Options) (remote : String) :
    Decidable (Allowed regexSearch opts remote) :=
  inferInstanceAs (Decidable (_ = true))

/-- `cb_.receive` was called only for connections from allowed hosts. -/
def OnlyAllowed (regexSearch : String → String → Bool) (opts : Options) (s : State) : Prop :=
  ∀ remote ∈ s.served, Allowed regexSearch opts remote

instance (regexSearch : String → String → Bool) (opts : Options) (s : State) :
    Decidable (OnlyAllowed regexSearch opts s) :=
  inferInstanceAs (Decidable (∀ remote ∈ s.served, _))

/-! ## A host that is not allowed -/

/-- Whether the address is the one that the regex `127.0.0.1` is for. -/
def isLocalhost (remote _regex : String) : Bool := remote == "127.0.0.1"

def localOnly : Options := ⟨8, "127.0.0.1"⟩

/-- A host of the local network opens a websocket and sends a command. -/
def rejectedMessage : List Action :=
  [.tcpPreInit 1 "192.168.1.5", .validate 1] ++ opens 1 ++
    [.event (.message 1 .binary [1]), .server .io, .server .io, .server (.take 0),
      .server (.receive 0 (some []))]

/-- The same host sends its command in an HTTP request. -/
def rejectedRequest : List Action :=
  [.tcpPreInit 1 "192.168.1.5", .event (.http 1 [1]), .server .io, .server .io, .server .io,
    .server .io, .server (.take 0), .server (.receive 0 (some []))]

theorem rejected_host_served :
    (∃ s, run (step isLocalhost localOnly) State.init rejectedMessage = some s ∧
      s.log = ["reject connection from 192.168.1.5"] ∧ ¬ OnlyAllowed isLocalhost localOnly s) ∧
    (∃ s, run (step isLocalhost localOnly) State.init rejectedRequest = some s ∧
      s.log = ["reject connection from 192.168.1.5"] ∧ ¬ OnlyAllowed isLocalhost localOnly s) := by
  constructor
  · refine ⟨(run (step isLocalhost localOnly) State.init rejectedMessage).get (by decide), by simp,
      by decide, ?_⟩
    decide
  · refine ⟨(run (step isLocalhost localOnly) State.init rejectedRequest).get (by decide), by simp,
      by decide, ?_⟩
    decide

/-! ## Requests of allowed hosts -/

/-- Events that make the server push a task. -/
def isRequest : Event → Bool
  | .message _ .binary _ => true
  | .http _ _ => true
  | _ => false

/-- Binary messages and HTTP requests come over connections from allowed hosts. -/
def FromAllowed (regexSearch : String → String → Bool) (opts : Options) (s : State) :
    Action → Prop
  | .event ev =>
    isRequest ev = true → ∀ c ∈ s.conns (eventSocket ev), Allowed regexSearch opts c.remote
  | _ => True

instance (regexSearch : String → String → Bool) (opts : Options) (s : State) :
    (a : Action) → Decidable (FromAllowed regexSearch opts s a)
  | .event ev => inferInstanceAs (Decidable (isRequest ev = true → ∀ c ∈ s.conns (eventSocket ev), _))
  | .tcpPreInit _ _ => isTrue trivial
  | .validate _ => isTrue trivial
  | .drop _ => isTrue trivial
  | .server _ => isTrue trivial

/-- A task that has not called `cb_.receive` yet. -/
def HasTask (x : Executor) (k : Task) : Prop := .consume k ∈ x.work.q.q ∨ x.thread = .taken k

/-- Executors have tasks only if they were made for connections from allowed hosts; the executor that
an open connection leads to was made for it. -/
structure Attributed (allowed : String → Prop) (s : State) : Prop where
  wf : Wf s.server
  tasks : ∀ e k, HasTask (s.server.executors e) k → allowed (s.origin e)
  conn : ∀ id k, .push id k ∈ s.server.io → ∃ c ∈ s.conns id, allowed c.remote
  pushes : ∀ id k e, .push id k ∈ s.server.io → .addConnection id ∉ s.server.io →
    s.server.executorOf id = some e → allowed (s.origin e)
  opened : ∀ id c e, s.conns id = some c → c.phase = .opened → .addConnection id ∉ s.server.io →
    s.server.executorOf id = some e → s.origin e = c.remote
  served : ∀ remote ∈ s.served, allowed remote

variable {regexSearch : String → String → Bool} {opts : Options} {s t : State} {a : Action}
  {m : WebsocketServer.State} {b : WebsocketServer.Action} {allowed : String → Prop}

theorem attributed_init : Attributed allowed State.init where
  wf := wf_init
  tasks _ _ h := by
    rcases h with h | h <;> cases h
  conn _ _ h := by cases h
  pushes _ _ _ h := by cases h
  opened _ _ _ h := by cases h
  served _ h := by cases h

/-- Steps that give no executor a task of another connection. -/
theorem Attributed.frame (h : Attributed allowed s) (hwf : Wf t.server) (hconns : t.conns = s.conns)
    (horigin : t.origin = s.origin) (hserved : ∀ r ∈ t.served, r ∈ s.served ∨ allowed r)
    (hex : ∀ id e, t.server.executorOf id = some e → s.server.executorOf id = some e)
    (htasks : ∀ e k, HasTask (t.server.executors e) k →
      HasTask (s.server.executors e) k ∨ allowed (s.origin e))
    (hpush : ∀ id k, .push id k ∈ t.server.io → .push id k ∈ s.server.io)
    (hadd : ∀ id, .addConnection id ∈ s.server.io → .addConnection id ∈ t.server.io) :
    Attributed allowed t where
  wf := hwf
  tasks e k hk := by
    rw [horigin]
    exact (htasks e k hk).elim (h.tasks e k) fun hok => hok
  conn id k hk := by
    rw [hconns]
    exact h.conn id k (hpush id k hk)
  pushes id k e hk hno he := by
    rw [horigin]
    exact h.pushes id k e (hpush id k hk) (fun hin => hno (hadd id hin)) (hex id e he)
  opened id c e hc hphase hno he := by
    rw [hconns] at hc
    rw [horigin]
    exact h.opened id c e hc hphase (fun hin => hno (hadd id hin)) (hex id e he)
  served r hr := (hserved r hr).elim (h.served r) fun hok => hok

/-! ### Connections and their events -/

theorem Attributed.setConn (h : Attributed allowed s) {id : SocketId} {c : Option Conn}
    {log : List String} (hio : s.server.io = []) (hphase : ∀ x ∈ c, x.phase ≠ .opened) :
    Attributed allowed { s.setConn id c with log := log } where
  wf := h.wf
  tasks := h.tasks
  conn i k hk := by
    change .push i k ∈ s.server.io at hk
    rw [hio] at hk
    cases hk
  pushes := h.pushes
  opened i x e hx hopen hno he := by
    change Function.update s.conns id c i = some x at hx
    by_cases hi : i = id
    · rw [hi, Function.update_self] at hx
      exact absurd hopen (hphase x hx)
    · rw [Function.update_of_ne hi] at hx
      exact h.opened i x e hx hopen hno he
  served := h.served

/-- A message is pushed to the executor of its connection; an HTTP request makes one. -/
theorem push_mem_handler {ev : Event} {id : SocketId} {k : Task} (hk : .push id k ∈ handler m ev) :
    id = eventSocket ev ∧ isRequest ev = true ∧
      ((∃ op p, ev = .message id op p) ∨ .addConnection id ∈ handler m ev) := by
  cases ev with
  | message i op p =>
    cases op with
    | text => cases hk
    | binary =>
      simp only [handler, messageHandler, sendResponse, List.mem_cons, List.not_mem_nil,
        reduceCtorEq, IoInstr.push.injEq, false_or, or_false] at hk
      exact ⟨hk.1, rfl, Or.inl ⟨.binary, p, by rw [hk.1]⟩⟩
  | openConn i => simp [handler, openHandler] at hk
  | closeConn i => simp [handler, closeHandler] at hk
  | http i body =>
    by_cases hin : i ∈ m.wsConns
    · simp [handler, httpHandler, hin] at hk
    · simp only [handler, httpHandler, hin, if_false, List.mem_cons, List.not_mem_nil,
        reduceCtorEq, IoInstr.push.injEq, false_or, or_false] at hk
      refine ⟨hk.1, rfl, Or.inr ?_⟩
      rw [hk.1]
      simp [handler, httpHandler, hin]

/-- A connection that is open after an event was so before, or is being added. -/
theorem opened_after {ev : Event} {c x : Conn} {phase : Option Phase}
    (hnext : c.phase.next ev = some phase) (hx : (phase.map fun p => { c with phase := p }) = some x)
    (hopen : x.phase = .opened) :
    x.remote = c.remote ∧ (c.phase = .opened ∨ .addConnection (eventSocket ev) ∈ handler m ev) := by
  obtain ⟨p, rfl, rfl⟩ := Option.map_eq_some_iff.mp hx
  have hp : p = .opened := hopen
  refine ⟨rfl, ?_⟩
  subst hp
  unfold Phase.next at hnext
  split at hnext
  · exact Or.inr List.mem_cons_self
  · next hc => exact Or.inl hc
  · cases hnext
  · cases hnext
  · cases hnext

theorem Attributed.event (h : Attributed allowed s) {ev : Event} {c : Conn} {phase : Option Phase}
    (hok : isRequest ev = true → allowed c.remote) (hconn : s.conns (eventSocket ev) = some c)
    (hnext : c.phase.next ev = some phase)
    (hstep : WebsocketServer.step s.server (.event ev) = some m) :
    Attributed allowed { s.setConn (eventSocket ev) (phase.map fun p => { c with phase := p }) with
      server := m } := by
  have hwf := wf_step h.wf hstep
  obtain ⟨⟨hio, -⟩, hstep⟩ := Option.ite_none_right_eq_some.mp hstep
  obtain rfl := Option.some.inj hstep
  have hno : ∀ id, .addConnection id ∉ s.server.io := by
    intro id hin
    rw [hio] at hin
    cases hin
  refine ⟨hwf, h.tasks, fun id k hk => ?_, fun id k e hk hadd he => ?_,
    fun id x e hx hopen hadd he => ?_, h.served⟩
  · obtain ⟨rfl, hreq, hkind⟩ := push_mem_handler hk
    show ∃ x ∈ Function.update s.conns (eventSocket ev) _ (eventSocket ev), allowed x.remote
    rw [Function.update_self]
    -- the connection of a request is still there
    cases ev with
    | closeConn i => cases hreq
    | _ =>
      cases hphase : c.phase <;> rw [hphase] at hnext <;> cases hnext
      exact ⟨_, rfl, hok hreq⟩
  · obtain ⟨rfl, hreq, hkind⟩ := push_mem_handler hk
    rcases hkind with ⟨op, p, hev⟩ | hin
    · have hopened : c.phase = .opened := by
        rw [hev] at hnext
        cases hphase : c.phase <;> rw [hphase] at hnext <;> cases hnext
      have horigin := h.opened (eventSocket ev) c e hconn hopened (hno _) he
      show allowed (s.origin e)
      rw [horigin]
      exact hok hreq
    · exact absurd hin hadd
  · change Function.update s.conns (eventSocket ev) _ id = some x at hx
    show s.origin e = x.remote
    by_cases hid : id = eventSocket ev
    · rw [hid, Function.update_self] at hx
      rw [hid] at he hadd
      obtain ⟨hremote, hcase⟩ := opened_after (m := s.server) hnext hx hopen
      rw [hremote]
      exact h.opened _ c e hconn (hcase.resolve_right hadd) (hno _) he
    · rw [Function.update_of_ne hid] at hx
      exact h.opened id x e hx hopen (hno _) he

/-! ### The server -/

theorem hasTask_of_move {buffer : SocketId → Payload} {x y : Executor} {k : Task}
    (hmove : ExecMove buffer x y) (hk : HasTask y k) : HasTask x k := by
  cases hmove with
  | exit w hthread hwork =>
    refine Or.inl ?_
    rw [hwork]
    exact List.mem_cons_of_mem _ (hk.resolve_right (by simp))
  | take k' w hthread hwork =>
    refine Or.inl ?_
    rw [hwork]
    rcases hk with hk | hk
    · exact List.mem_cons_of_mem _ hk
    · rw [Thread.taken.inj hk]
      exact List.mem_cons_self
  | receive k' th hthread hth =>
    refine Or.inl (hk.resolve_right fun hk => ?_)
    rcases hth with rfl | ⟨r, rfl⟩ <;> cases hk
  | _ => exact Or.inl (hk.resolve_right (by simp))

theorem Attributed.moved (h : Attributed allowed s) {e : ExecId} (hm : Moved s.server e m)
    (hconns : t.conns = s.conns) (horigin : t.origin = s.origin) (hserver : t.server = m)
    (hserved : ∀ r ∈ t.served, r ∈ s.served ∨ allowed r) : Attributed allowed t := by
  subst hserver
  apply h.frame (h.wf.moved hm) hconns horigin hserved
  · intro id e' he
    rw [hm.executorOf] at he
    exact he
  · intro e' k hk
    by_cases he : e' = e
    · rw [he] at hk ⊢
      exact Or.inl (hasTask_of_move hm.move hk)
    · rw [hm.others e' he] at hk
      exact Or.inl hk
  · intro id k hk
    rw [hm.io] at hk
    exact hk
  · intro id hk
    rw [hm.io]
    exact hk

/-- The new executor belongs to the connection that is added. -/
theorem Attributed.added (h : Attributed allowed s) {id : SocketId} {rest : List IoInstr}
    (hio : s.server.io = .addConnection id :: rest)
    (hwf : Wf (addConnection { s.server with io := rest } id)) :
    Attributed allowed { s.record .io with
      server := addConnection { s.server with io := rest } id } := by
  have horigin : (s.record .io).origin =
      Function.update s.origin s.server.nextExec (((s.conns id).map Conn.remote).getD "") := by
    simp only [State.record, hio]
  have hconns : (s.record .io).conns = s.conns := by
    simp only [State.record, hio]
  have hserved : (s.record .io).served = s.served := by
    simp only [State.record, hio]
  have hnew : ∀ c, s.conns id = some c →
      (s.record .io).origin s.server.nextExec = c.remote := by
    intro c hc
    rw [horigin, Function.update_self, hc]
    rfl
  have hold : ∀ i e, s.server.executorOf i = some e → (s.record .io).origin e = s.origin e := by
    intro i e he
    rw [horigin, Function.update_of_ne (Nat.ne_of_lt (h.wf.fresh i e he))]
  have hpush : ∀ i k, .push i k ∈ (addConnection { s.server with io := rest } id).io →
      .push i k ∈ s.server.io := by
    intro i k hk
    rw [hio]
    exact List.mem_cons_of_mem _ (mem_of_mem_destroyExecutor (by simp) hk)
  have hadd : ∀ i, i ≠ id → .addConnection i ∉ (addConnection { s.server with io := rest } id).io →
      .addConnection i ∉ s.server.io := by
    intro i hi hno hin
    rw [hio] at hin
    rcases List.mem_cons.mp hin with heq | hin
    · exact hi (IoInstr.addConnection.inj heq)
    · exact hno (List.mem_append_right _ hin)
  refine ⟨hwf, fun e k hk => ?_, fun i k hk => ?_, fun i k e hk hno he => ?_,
    fun i c e hc hopen hno he => ?_, fun r hr => h.served r (hserved ▸ hr)⟩
  · show allowed ((s.record .io).origin e)
    change HasTask (Function.update s.server.executors s.server.nextExec (Executor.make id) e) k at hk
    by_cases hnext : e = s.server.nextExec
    · rw [hnext, Function.update_self] at hk
      rcases hk with hk | hk <;> cases hk
    · rw [Function.update_of_ne hnext] at hk
      rw [horigin, Function.update_of_ne hnext]
      exact h.tasks e k hk
  · show ∃ c ∈ (s.record .io).conns i, allowed c.remote
    rw [hconns]
    exact h.conn i k (hpush i k hk)
  · show allowed ((s.record .io).origin e)
    change (addConnection { s.server with io := rest } id).executorOf i = some e at he
    rw [executorOf_addConnection] at he
    split at he
    · next hi =>
      rw [← Option.some.inj he]
      obtain ⟨c, hc, hok⟩ := h.conn i k (hpush i k hk)
      rw [hi] at hc
      rw [hnew c hc]
      exact hok
    · next hi =>
      rw [hold i e he]
      exact h.pushes i k e (hpush i k hk) (hadd i hi hno) he
  · show (s.record .io).origin e = c.remote
    change (s.record .io).conns i = some c at hc
    change (addConnection { s.server with io := rest } id).executorOf i = some e at he
    rw [hconns] at hc
    rw [executorOf_addConnection] at he
    split at he
    · next hi =>
      rw [← Option.some.inj he]
      rw [hi] at hc
      exact hnew c hc
    · next hi =>
      rw [hold i e he]
      exact h.opened i c e hc hopen (hadd i hi hno) he

theorem hasTask_storeBuffer {id : SocketId} {p : Payload} {e : ExecId} {k : Task}
    (hk : HasTask ((storeBuffer m id p).executors e) k) : HasTask (m.executors e) k := by
  cases hex : m.executorOf id with
  | none =>
    obtain ⟨entry, heq⟩ := storeBuffer_of_none hex p
    rw [heq] at hk
    exact hk
  | some e' =>
    rw [storeBuffer_eq hex] at hk
    change HasTask (Function.update m.executors e' _ e) k at hk
    by_cases he : e = e'
    · rw [he, Function.update_self] at hk
      rw [he]
      exact hk
    · rw [Function.update_of_ne he] at hk
      exact hk

/-- An item is pushed; only `consume` makes a task of it. -/
theorem hasTask_push {e e' : ExecId} {item : WorkItem} {k : Task}
    (hk : HasTask ((m.setExecutor e { m.executors e with
      work := ⟨⟨(m.executors e).work.q.q ++ [item]⟩, (m.executors e).work.maxSize⟩ }).executors e') k) :
    HasTask (m.executors e') k ∨ e' = e ∧ item = .consume k := by
  change HasTask (Function.update m.executors e _ e') k at hk
  by_cases he : e' = e
  · rw [he, Function.update_self] at hk
    rw [he]
    rcases hk with hk | hk
    · rcases List.mem_append.mp hk with hk | hk
      · exact Or.inl (Or.inl hk)
      · exact Or.inr ⟨rfl, (List.mem_singleton.mp hk).symm⟩
    · exact Or.inl (Or.inr hk)
  · rw [Function.update_of_ne he] at hk
    exact Or.inl hk

theorem hasTask_setDone {e e' : ExecId} {k : Task} (hk : HasTask ((setDone m e).executors e') k) :
    HasTask (m.executors e') k := by
  unfold setDone at hk
  split at hk
  · change HasTask (Function.update m.executors e _ e') k at hk
    by_cases he : e' = e
    · rw [he, Function.update_self] at hk
      rw [he]
      exact Or.inl (hk.resolve_right (by simp))
    · rw [Function.update_of_ne he] at hk
      exact hk
  · exact hk

/-- Instructions other than `add_connection` leave the history of executors alone. -/
theorem Attributed.instr (h : Attributed allowed s) {instr : IoInstr} {rest : List IoInstr}
    (hio : s.server.io = instr :: rest) (hno : ∀ id, instr ≠ .addConnection id) (hwf : Wf m)
    (hex : ∀ id e, m.executorOf id = some e → s.server.executorOf id = some e)
    (htasks : ∀ e k, HasTask (m.executors e) k →
      HasTask (s.server.executors e) k ∨ allowed (s.origin e))
    (hpush : ∀ id k, .push id k ∈ m.io → .push id k ∈ rest)
    (hadd : ∀ id, .addConnection id ∈ rest → .addConnection id ∈ m.io) :
    Attributed allowed { s.record .io with server := m } := by
  have hrecord : (s.record .io).conns = s.conns ∧ (s.record .io).origin = s.origin ∧
      (s.record .io).served = s.served := by
    simp only [State.record]
    split
    · next id tail heq => exact absurd (List.cons.inj (hio.symm.trans heq)).1 (hno id)
    · exact ⟨rfl, rfl, rfl⟩
    · exact ⟨rfl, rfl, rfl⟩
  refine h.frame (t := { s.record .io with server := m }) hwf hrecord.1 hrecord.2.1
    (fun r hr => Or.inl (hrecord.2.2 ▸ hr)) hex htasks ?_ ?_
  · intro id k hk
    rw [hio]
    exact List.mem_cons_of_mem _ (hpush id k hk)
  · intro id hk
    rw [hio] at hk
    exact hadd id ((List.mem_cons.mp hk).resolve_left (hno id).symm)

theorem Attributed.ioExec (h : Attributed allowed s) {instr : IoInstr} {rest : List IoInstr}
    (hio : s.server.io = instr :: rest) (hexec : ioExec { s.server with io := rest } instr = some m) :
    Attributed allowed { s.record .io with server := m } := by
  have hwf := h.wf.ioExec hio hexec
  cases instr with
  | addConnection id =>
    obtain rfl := Option.some.inj hexec
    exact h.added hio hwf
  | erase id =>
    obtain rfl := Option.some.inj hexec
    refine h.instr hio (by simp) hwf (fun i e he => ?_) (fun _ _ => Or.inl) (fun i k hk => ?_)
      fun i hk => List.mem_append_right _ hk
    · rw [executorOf_erase] at he
      split at he
      · cases he
      · exact he
    · exact mem_of_mem_destroyExecutor (by simp) hk
  | storeBuffer id p =>
    obtain rfl := Option.some.inj hexec
    have hrest : (storeBuffer { s.server with io := rest } id p).io = rest := io_storeBuffer _ id p
    refine h.instr hio (by simp) hwf (fun i e he => ?_)
      (fun e k hk => ?_) (fun i k hk => ?_) fun i hk => ?_
    · rw [executorOf_storeBuffer] at he
      exact he
    · have hold := hasTask_storeBuffer hk
      exact Or.inl hold
    · rw [hrest] at hk
      exact hk
    · rw [hrest]
      exact hk
  | push id k =>
    obtain ⟨e, hex, hpush⟩ := Option.bind_eq_some_iff.mp hexec
    obtain ⟨-, rfl⟩ := pushItem_eq_some hpush
    -- the push comes last, so the connection is not being added any more
    have hshape : Shaped (.push id k :: rest) := hio ▸ h.wf.shape
    have hok : allowed (s.origin e) := by
      apply h.pushes id k e _ _ hex
      · rw [hio]
        exact List.mem_cons_self
      · rw [hio, hshape.push.1]
        simp
    refine h.instr hio (by simp) hwf (fun _ _ he => he) (fun e' k' hk => ?_) (fun _ _ hk => hk)
      fun _ hk => hk
    rcases hasTask_push hk with hold | ⟨he, -⟩
    · exact Or.inl hold
    · rw [he]
      exact Or.inr hok
  | pushDestroy e =>
    obtain ⟨-, rfl⟩ := pushItem_eq_some hexec
    refine h.instr hio (by simp) hwf (fun _ _ he => he) (fun e' k' hk => ?_) (fun _ _ hk => hk)
      fun _ hk => hk
    exact Or.inl ((hasTask_push hk).resolve_right (by simp))
  | join e =>
    obtain ⟨-, hexec⟩ := Option.ite_none_right_eq_some.mp hexec
    obtain rfl := Option.some.inj hexec
    exact h.instr hio (by simp) hwf (fun _ _ he => he) (fun _ _ => Or.inl) (fun _ _ hk => hk)
      fun _ hk => hk
  | setDone e =>
    obtain rfl := Option.some.inj hexec
    have hframe := setDone_frame { s.server with io := rest } e
    refine h.instr hio (by simp) hwf (fun i e' he => ?_)
      (fun e' k hk => ?_) (fun i k hk => ?_) fun i hk => ?_
    · unfold WebsocketServer.State.executorOf at he ⊢
      rw [hframe.1] at he
      exact he
    · have hold := hasTask_setDone hk
      exact Or.inl hold
    · rw [hframe.2] at hk
      exact hk
    · rw [hframe.2]
      exact hk
  | _ =>
    obtain rfl := Option.some.inj hexec
    exact h.instr hio (by simp) hwf (fun _ _ he => he) (fun _ _ => Or.inl) (fun _ _ hk => hk)
      fun _ hk => hk

theorem attributed_server (h : Attributed allowed s) (hb : ∀ ev, b ≠ .event ev)
    (hstep : WebsocketServer.step s.server b = some m) :
    Attributed allowed { s.record b with server := m } := by
  have hwf := wf_step h.wf hstep
  cases b with
  | event ev => exact absurd rfl (hb ev)
  | runPosted =>
    rw [WebsocketServer.step] at hstep
    split at hstep
    · next p rest hio hposted =>
      obtain rfl := Option.some.inj hstep
      refine h.frame hwf rfl rfl (fun _ => Or.inl) (fun _ _ he => he) (fun _ _ => Or.inl)
        (fun id k hk => ?_) fun id hk => ?_
      · exact absurd hk ((postedHandler_no_push p id).2 k)
      · rw [hio] at hk
        cases hk
    · cases hstep
  | io =>
    have hexec := hstep
    rw [WebsocketServer.step] at hexec
    split at hexec
    · cases hexec
    · next instr rest hio => exact h.ioExec hio hexec
  | receive e resp =>
    have hm := receive_moved hstep
    refine h.moved hm rfl rfl rfl fun r hr => ?_
    rcases List.mem_append.mp hr with hr | hr
    · exact Or.inl hr
    -- the task that calls `cb_.receive` is one of the executor
    · rw [List.mem_singleton.mp hr]
      change receive s.server e resp = some m at hstep
      unfold receive at hstep
      split at hstep
      · next k hthread => exact Or.inr (h.tasks e k (Or.inr hthread))
      · cases hstep
  | take e => exact h.moved (take_moved hstep) rfl rfl rfl fun _ => Or.inl
  | timeout e => exact h.moved (timeout_moved hstep) rfl rfl rfl fun _ => Or.inl
  | post e => exact h.moved (post_moved hstep) rfl rfl rfl fun _ => Or.inl
  | resume e => exact h.moved (resume_moved hstep) rfl rfl rfl fun _ => Or.inl

theorem attributed_step (h : Attributed (Allowed regexSearch opts) s)
    (hok : FromAllowed regexSearch opts s a) (heff : Effect s a t) :
    Attributed (Allowed regexSearch opts) t := by
  cases heff with
  | conn a id c log ha hio hphase => exact h.setConn hio hphase
  | event ev c phase m hconn hnext hstep =>
    exact h.event (fun hreq => hok hreq c hconn) hconn hnext hstep
  | server b m hb hstep => exact attributed_server h hb hstep

/-- In every run in which binary messages and HTTP requests come from allowed hosts only,
`cb_.receive` is called for connections from allowed hosts only. -/
theorem only_allowed_hosts_served {acts : List Action}
    (hok : Conforms (step regexSearch opts) (FromAllowed regexSearch opts) State.init acts)
    (hrun : run (step regexSearch opts) State.init acts = some s) :
    OnlyAllowed regexSearch opts s := by
  have h : Attributed (Allowed regexSearch opts) s :=
    run_invariant_of_conforms (fun _ _ _ h hok hstep => attributed_step h hok (step_effect hstep))
      attributed_init hok hrun
  exact h.served

/-- A host that is not allowed connects and sends nothing; an allowed one is served. -/
def allowedMessage : List Action :=
  [.tcpPreInit 1 "192.168.1.5", .validate 1] ++ opens 1 ++ handshake 2 ++ opens 2 ++
    [.event (.message 2 .binary [1]), .server .io, .server .io, .server (.take 1),
      .server (.receive 1 (some []))]

theorem allowedMessage_only_allowed :
    ∃ s, run (step isLocalhost localOnly) State.init allowedMessage = some s ∧
      s.served = ["127.0.0.1"] ∧ OnlyAllowed isLocalhost localOnly s := by
  have hrun : run (step isLocalhost localOnly) State.init allowedMessage =
      some ((run (step isLocalhost localOnly) State.init allowedMessage).get (by decide)) := by
    simp
  exact ⟨_, hrun, by decide, only_allowed_hosts_served (by decide) hrun⟩

end Ra2yrcpp.WebsocketServer.Admission
