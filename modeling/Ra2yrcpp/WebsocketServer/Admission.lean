import Ra2yrcpp.WebsocketServer.Steps

/-!
# Which connections the websocket server admits

The connections around the handlers of the server.  A TCP connection starts with the tcp pre-init
handler; websocketpp then asks the validate handler whether to accept a websocket handshake and calls
the open handler later, or it calls the http handler.  The pre-init handler has no way to refuse a
connection.  `std::regex_search` is a parameter.

The limit of connections is tested by the validate handler only, and `ws_conns` grows in
`add_connection` and whenever `ws_conns[id]` is evaluated for a socket without an entry.
-/

namespace Ra2yrcpp.WebsocketServer.Admission

open Reasoning

structure Options where
  maxConnections : Nat
  allowedHostsRegex : String
  deriving DecidableEq, Repr

/-- What websocketpp has done with a connection. -/
inductive Phase
  | connected
  | validated
  | opened
  | http
  deriving DecidableEq, Repr

structure Conn where
  remote : String
  phase : Phase
  deriving DecidableEq, Repr

/-- The server with its TCP connections.  The history has the sockets that `add_connection` has added
and no `erase` has removed since, the remote address of the connection that each executor was made
for, and the addresses for which `cb_.receive` was called. -/
structure State where
  server : WebsocketServer.State
  conns : SocketId → Option Conn
  log : List String
  -- history
  live : SocketId → Bool
  origin : ExecId → String
  served : List String

def State.init : State where
  server := WebsocketServer.State.init
  conns _ := none
  log := []
  live _ := false
  origin _ := ""
  served := []

/-- `ws_conns.size()`. -/
def State.size (s : State) : Nat := s.server.wsConns.keys.length

def State.setConn (s : State) (id : SocketId) (c : Option Conn) : State :=
  { s with conns := Function.update s.conns id c }

/-! ## Handlers before a connection is open -/

/-- What the tcp pre-init handler logs; this is all it does. -/
def tcpPreInitHandler (regexSearch : String → String → Bool) (opts : Options) (remote : String) :
    String :=
  if regexSearch remote opts.allowedHostsRegex then "connection from " ++ remote
  else "reject connection from " ++ remote

def validateHandler (opts : Options) (s : State) : Bool := decide (s.size < opts.maxConnections)

/-- A connection that the validate handler rejects is closed. -/
def validate (opts : Options) (s : State) (id : SocketId) (c : Conn) : State :=
  if validateHandler opts s then s.setConn id (some { c with phase := .validated })
  else { s.setConn id none with
    log := s.log ++ ["max connections " ++ toString s.size ++ " exceeded"] }

/-! ## Events of a connection -/

def eventSocket : Event → SocketId
  | .message id _ _ => id
  | .openConn id => id
  | .closeConn id => id
  | .http id _ => id

/-- When websocketpp reports the event, and what becomes of the connection; a closed one is gone. -/
def Phase.next : Phase → Event → Option (Option Phase)
  | .validated, .openConn _ => some (some .opened)
  | .opened, .message _ _ _ => some (some .opened)
  | .opened, .closeConn _ => some none
  | .connected, .http _ _ => some (some .http)
  | _, _ => none

/-- The history of one action of the server. -/
def State.record (s : State) : WebsocketServer.Action → State
  | .io =>
    match s.server.io with
    | .addConnection id :: _ =>
      { s with
        live := Function.update s.live id true
        origin := Function.update s.origin s.server.nextExec
          (((s.conns id).map Conn.remote).getD "") }
    | .erase id :: _ => { s with live := Function.update s.live id false }
    | _ => s
  | .receive e _ => { s with served := s.served ++ [s.origin e] }
  | _ => s

inductive Action
  | tcpPreInit (id : SocketId) (remote : String)
  | validate (id : SocketId)
  /-- A connection that is not open ends, without a call of the close handler. -/
  | drop (id : SocketId)
  | event (ev : Event)
  | server (a : WebsocketServer.Action)
  deriving DecidableEq, Repr

def step (regexSearch : String → String → Bool) (opts : Options) (s : State) :
    Action → Option State
  | .tcpPreInit id remote =>
    if s.server.io = [] ∧ s.conns id = none then
      some { s.setConn id (some ⟨remote, .connected⟩) with
        log := s.log ++ [tcpPreInitHandler regexSearch opts remote] }
    else none
  | .validate id =>
    match s.conns id with
    | some c =>
      if s.server.io = [] ∧ c.phase = .connected then some (Admission.validate opts s id c) else none
    | none => none
  | .drop id =>
    match s.conns id with
    | some c =>
      if s.server.io = [] ∧ c.phase ≠ .opened then some (s.setConn id none) else none
    | none => none
  | .event ev =>
    match s.conns (eventSocket ev) with
    | some c =>
      match c.phase.next ev with
      | some phase =>
        (WebsocketServer.step s.server (.event ev)).map fun m =>
          { s.setConn (eventSocket ev) (phase.map fun p => { c with phase := p }) with server := m }
      | none => none
    | none => none
  | .server (.event _) => none
  | .server a => (WebsocketServer.step s.server a).map fun m => { s.record a with server := m }

/-! ## What a step can do -/

variable {regexSearch : String → String → Bool} {opts : Options} {s t : State} {a : Action}
  {m m' : WebsocketServer.State} {b : WebsocketServer.Action}

inductive Effect (s : State) : Action → State → Prop
  | conn (a : Action) (id : SocketId) (c : Option Conn) (log : List String)
      (ha : ∀ b, a ≠ .server b) (hio : s.server.io = [])
      (hphase : ∀ x ∈ c, x.phase ≠ .opened) : Effect s a { s.setConn id c with log := log }
  | event (ev : Event) (c : Conn) (phase : Option Phase) (m : WebsocketServer.State)
      (hconn : s.conns (eventSocket ev) = some c) (hnext : c.phase.next ev = some phase)
      (hstep : WebsocketServer.step s.server (.event ev) = some m) :
      Effect s (.event ev)
        { s.setConn (eventSocket ev) (phase.map fun p => { c with phase := p }) with server := m }
  | server (b : WebsocketServer.Action) (m : WebsocketServer.State) (hb : ∀ ev, b ≠ .event ev)
      (hstep : WebsocketServer.step s.server b = some m) :
      Effect s (.server b) { s.record b with server := m }

theorem step_effect (h : step regexSearch opts s a = some t) : Effect s a t := by
  cases a with
  | tcpPreInit id remote =>
    obtain ⟨hc, h⟩ := Option.ite_none_right_eq_some.mp h
    rw [← Option.some.inj h]
    refine .conn _ id _ _ (by simp) hc.1 fun x hx => ?_
    rw [← Option.some.inj hx]
    simp
  | validate id =>
    rw [step] at h
    split at h
    · next c hconn =>
      obtain ⟨hc, h⟩ := Option.ite_none_right_eq_some.mp h
      rw [← Option.some.inj h]
      unfold Admission.validate
      split
      · refine .conn _ id _ s.log (by simp) hc.1 fun x hx => ?_
        rw [← Option.some.inj hx]
        simp
      · exact .conn _ id none _ (by simp) hc.1 nofun
    · cases h
  | drop id =>
    rw [step] at h
    split at h
    · obtain ⟨hc, h⟩ := Option.ite_none_right_eq_some.mp h
      rw [← Option.some.inj h]
      exact .conn _ id none s.log (by simp) hc.1 nofun
    · cases h
  | event ev =>
    rw [step] at h
    split at h
    · next c hconn =>
      split at h
      · next phase hnext =>
        obtain ⟨m, hm, rfl⟩ := Option.map_eq_some_iff.mp h
        exact .event ev c phase m hconn hnext hm
      · cases h
    · cases h
  | server b =>
    cases b with
    | event ev => cases h
    | _ =>
      obtain ⟨m, hm, rfl⟩ := Option.map_eq_some_iff.mp h
      exact .server _ m (by simp) hm

/-! ## The limit -/

/-- No more entries than allowed, and only entries of connections that were added and not removed. -/
def Limited (opts : Options) (s : State) : Prop :=
  s.size ≤ opts.maxConnections ∧ ∀ id ∈ s.server.wsConns.keys, s.live id = true

instance (opts : Options) (s : State) : Decidable (Limited opts s) :=
  inferInstanceAs (Decidable (_ ∧ _))

/-- The socket that the io thread is about to call `add_connection` for. -/
def adding : List IoInstr → Option SocketId
  | .addConnection id :: _ => some id
  | _ => none

/-- The task that is about to call `cb_.receive`. -/
def Thread.reading : Thread → Option Task
  | .taken k => some k
  | _ => none

/-- A new entry is added by `add_connection` while the validate handler would accept a connection,
and a task runs while its socket has an entry. -/
def Accepted (opts : Options) (s : State) : Action → Prop
  | .server .io => ∀ id ∈ adding s.server.io, id ∈ s.server.wsConns ∨ validateHandler opts s = true
  | .server (.receive e _) =>
    ∀ k ∈ Thread.reading (s.server.executors e).thread, k.id ∈ s.server.wsConns
  | _ => True

instance (opts : Options) (s : State) : (a : Action) → Decidable (Accepted opts s a)
  | .server .io => inferInstanceAs (Decidable (∀ id ∈ adding s.server.io, _ ∨ _))
  | .server (.receive e _) =>
    inferInstanceAs (Decidable (∀ k ∈ Thread.reading (s.server.executors e).thread, _ ∈ _))
  | .server (.event _) => isTrue trivial
  | .server .runPosted => isTrue trivial
  | .server (.take _) => isTrue trivial
  | .server (.timeout _) => isTrue trivial
  | .server (.post _) => isTrue trivial
  | .server (.resume _) => isTrue trivial
  | .tcpPreInit _ _ => isTrue trivial
  | .validate _ => isTrue trivial
  | .drop _ => isTrue trivial
  | .event _ => isTrue trivial

/-- A websocket client connects to the server and is accepted. -/
def handshake (id : SocketId) : List Action := [.tcpPreInit id "127.0.0.1", .validate id]

def opens (id : SocketId) : List Action := [.event (.openConn id), .server .io, .server .io]

/-- Two handshakes are accepted before the first connection is open. -/
def twoHandshakes : List Action := handshake 1 ++ handshake 2 ++ opens 1 ++ opens 2

/-- A request over HTTP while the one connection that is allowed is open. -/
def requestAtLimit : List Action :=
  handshake 1 ++ opens 1 ++
    [.tcpPreInit 2 "127.0.0.1", .event (.http 2 [1]), .server .io]

/-- A client closes its connection before its message is read; the task evaluates `ws_conns[1]`. -/
def closedBeforeRead : List Action :=
  handshake 1 ++ opens 1 ++
    [.event (.message 1 .binary [1]), .server .io, .server .io, .event (.closeConn 1), .server .io,
      .server .io, .server (.take 0), .server (.receive 0 (some []))]

theorem limit_exceeded :
    (∃ s, run (step (fun _ _ => true) ⟨1, ""⟩) State.init twoHandshakes = some s ∧
      ¬ Limited ⟨1, ""⟩ s) ∧
    (∃ s, run (step (fun _ _ => true) ⟨1, ""⟩) State.init requestAtLimit = some s ∧
      ¬ Limited ⟨1, ""⟩ s) ∧
    (∃ s, run (step (fun _ _ => true) ⟨1, ""⟩) State.init closedBeforeRead = some s ∧
      ¬ Limited ⟨1, ""⟩ s) := by
  refine ⟨?_, ?_, ?_⟩
  · refine ⟨(run (step (fun _ _ => true) ⟨1, ""⟩) State.init twoHandshakes).get (by decide),
      by simp, ?_⟩
    decide
  · refine ⟨(run (step (fun _ _ => true) ⟨1, ""⟩) State.init requestAtLimit).get (by decide),
      by simp, ?_⟩
    decide
  · refine ⟨(run (step (fun _ _ => true) ⟨1, ""⟩) State.init closedBeforeRead).get (by decide),
      by simp, ?_⟩
    decide

/-! ### How the map changes -/

/-- What a step does to the keys of `ws_conns`. -/
inductive MapEffect (m : WebsocketServer.State) : WebsocketServer.Action →
    AList (fun _ : SocketId => SocketEntry) → Prop
  | same (b : WebsocketServer.Action) (hio : b = .io → ∀ id rest, m.io ≠ .addConnection id :: rest ∧
      m.io ≠ .erase id :: rest) (hreceive : ∀ e resp, b ≠ .receive e resp) :
      MapEffect m b m.wsConns
  | added (id : SocketId) (rest : List IoInstr) (entry : SocketEntry)
      (hio : m.io = .addConnection id :: rest) : MapEffect m .io (m.wsConns.insert id entry)
  | stored (id : SocketId) (p : Payload) (rest : List IoInstr) (entry : SocketEntry)
      (hio : m.io = .storeBuffer id p :: rest) : MapEffect m .io (m.wsConns.insert id entry)
  | erased (id : SocketId) (rest : List IoInstr) (hio : m.io = .erase id :: rest) :
      MapEffect m .io (m.wsConns.erase id)
  | touched (e : ExecId) (resp : Option Payload) (k : Task) (entry : SocketEntry)
      (hthread : (m.executors e).thread = .taken k) :
      MapEffect m (.receive e resp) (m.wsConns.insert k.id entry)

theorem storeBuffer_wsConns (m : WebsocketServer.State) (id : SocketId) (p : Payload) :
    ∃ entry, (storeBuffer m id p).wsConns = m.wsConns.insert id entry := by
  unfold storeBuffer
  split
  · exact ⟨_, rfl⟩
  · dsimp only
    split <;> exact ⟨_, rfl⟩

theorem pushItem_wsConns {e : ExecId} {item : WorkItem} (h : pushItem m e item = some m') :
    m'.wsConns = m.wsConns := by
  obtain ⟨-, rfl⟩ := pushItem_eq_some h
  rfl

theorem setDone_frame (m : WebsocketServer.State) (e : ExecId) :
    (setDone m e).wsConns = m.wsConns ∧ (setDone m e).io = m.io := by
  unfold setDone
  split <;> exact ⟨rfl, rfl⟩

theorem mapEffect_io {instr : IoInstr} {rest : List IoInstr} (hio : m.io = instr :: rest)
    (h : ioExec { m with io := rest } instr = some m') : MapEffect m .io m'.wsConns := by
  have hsame : m'.wsConns = m.wsConns → (∀ id, instr ≠ .addConnection id ∧ instr ≠ .erase id) →
      MapEffect m .io m'.wsConns := by
    intro heq hno
    rw [heq]
    refine .same .io (fun _ id rest' => ?_) (fun _ _ => by simp)
    rw [hio]
    exact ⟨fun hc => (hno id).1 (List.cons.inj hc).1, fun hc => (hno id).2 (List.cons.inj hc).1⟩
  cases instr with
  | addConnection id => exact Option.some.inj h ▸ .added id rest _ hio
  | storeBuffer id p =>
    obtain ⟨entry, heq⟩ := storeBuffer_wsConns { m with io := rest } id p
    rw [← Option.some.inj h, heq]
    exact .stored id p rest entry hio
  | erase id => exact Option.some.inj h ▸ .erased id rest hio
  | push id k =>
    obtain ⟨e, -, hpush⟩ := Option.bind_eq_some_iff.mp h
    have heq := pushItem_wsConns hpush
    exact hsame heq fun _ => by simp
  | pushDestroy e =>
    have heq := pushItem_wsConns h
    exact hsame heq fun _ => by simp
  | join e =>
    obtain ⟨-, h⟩ := Option.ite_none_right_eq_some.mp h
    exact hsame (congrArg (·.wsConns) (Option.some.inj h).symm) fun _ => by simp
  | setDone e =>
    refine hsame ?_ fun _ => by simp
    rw [← Option.some.inj h]
    exact (setDone_frame _ e).1
  | _ => exact hsame (congrArg (·.wsConns) (Option.some.inj h).symm) fun _ => by simp

theorem MapEffect.of_eq (heq : m'.wsConns = m.wsConns) (hio : b ≠ .io)
    (hreceive : ∀ e resp, b ≠ .receive e resp) : MapEffect m b m'.wsConns := by
  rw [heq]
  exact .same b (fun hb => absurd hb hio) hreceive

theorem mapEffect_step (h : WebsocketServer.step m b = some m') : MapEffect m b m'.wsConns := by
  cases b with
  | event ev =>
    obtain ⟨-, h⟩ := Option.ite_none_right_eq_some.mp h
    exact .of_eq (congrArg (·.wsConns) (Option.some.inj h).symm) (by simp) (by simp)
  | runPosted =>
    rw [WebsocketServer.step] at h
    split at h
    · exact .of_eq (congrArg (·.wsConns) (Option.some.inj h).symm) (by simp) (by simp)
    · cases h
  | io =>
    rw [WebsocketServer.step] at h
    split at h
    · cases h
    · next instr rest hio => exact mapEffect_io hio h
  | receive e resp =>
    change receive m e resp = some m' at h
    unfold receive at h
    split at h
    · next k hthread =>
      rw [← Option.some.inj h]
      exact .touched e resp k _ hthread
    · cases h
  | take e =>
    change take m e = some m' at h
    unfold take at h
    split at h
    · split at h
      · cases h
      · exact .of_eq (congrArg (·.wsConns) (Option.some.inj h).symm) (by simp) (by simp)
      · exact .of_eq (congrArg (·.wsConns) (Option.some.inj h).symm) (by simp) (by simp)
    · cases h
  | timeout e =>
    change timeout m e = some m' at h
    unfold timeout at h
    split at h
    · exact .of_eq (congrArg (·.wsConns) (Option.some.inj h).symm) (by simp) (by simp)
    · cases h
  | post e =>
    change post m e = some m' at h
    unfold post at h
    split at h
    · exact .of_eq (congrArg (·.wsConns) (Option.some.inj h).symm) (by simp) (by simp)
    · cases h
  | resume e =>
    change resume m e = some m' at h
    unfold resume at h
    split at h
    · exact .of_eq (congrArg (·.wsConns) (Option.some.inj h).symm) (by simp) (by simp)
    · cases h

/-! ### The invariant -/

/-- A program of the io thread that stores a payload has an entry for its socket, or makes one
before, and removes none. -/
def Stored (m : WebsocketServer.State) : Prop :=
  ∀ id p, .storeBuffer id p ∈ m.io →
    (∀ i, .erase i ∉ m.io) ∧ (id ∈ m.wsConns ∨ .addConnection id ∈ m.io)

theorem Stored.frame (h : Stored m) (hstore : ∀ id p, .storeBuffer id p ∈ m'.io →
      .storeBuffer id p ∈ m.io ∧ ∀ i ∈ m.wsConns, i ∈ m'.wsConns)
    (herase : ∀ id, .erase id ∈ m'.io → .erase id ∈ m.io)
    (hadd : ∀ id, .addConnection id ∈ m.io → id ∈ m'.wsConns ∨ .addConnection id ∈ m'.io) :
    Stored m' := by
  intro id p hmem
  obtain ⟨hold, hmap⟩ := hstore id p hmem
  obtain ⟨hno, hentry⟩ := h id p hold
  refine ⟨fun i hi => hno i (herase i hi), ?_⟩
  cases hentry with
  | inl hin => exact Or.inl (hmap id hin)
  | inr hin => exact hadd id hin

theorem stored_handler {ev : Event} (hdeliverable : deliverable m ev = true) :
    Stored { m with io := handler m ev } := by
  intro id p hmem
  cases ev with
  | message i op payload =>
    cases op with
    | text => cases hmem
    | binary =>
      simp only [handler, messageHandler, sendResponse, List.mem_cons, List.not_mem_nil,
        reduceCtorEq, IoInstr.storeBuffer.injEq, or_false] at hmem
      obtain ⟨e, he⟩ := Option.isSome_iff_exists.mp hdeliverable
      obtain ⟨buffer, hl⟩ := lookup_of_executorOf he
      refine ⟨fun i => by simp [handler, messageHandler, sendResponse], Or.inl ?_⟩
      rw [hmem.1]
      exact AList.lookup_isSome.mp (by rw [hl]; rfl)
  | openConn i => simp [handler, openHandler] at hmem
  | closeConn i => simp [handler, closeHandler] at hmem
  | http i body =>
    by_cases hin : i ∈ m.wsConns
    · simp [handler, httpHandler, hin] at hmem
    · simp only [handler, httpHandler, hin, if_false] at hmem ⊢
      simp only [List.mem_cons, List.not_mem_nil, reduceCtorEq, IoInstr.storeBuffer.injEq,
        false_or, or_false] at hmem
      exact ⟨fun _ => by simp, Or.inr (by simp [hmem.1])⟩

theorem Stored.ioExec (h : Stored m) {instr : IoInstr} {rest : List IoInstr}
    (hio : m.io = instr :: rest) (hexec : ioExec { m with io := rest } instr = some m') :
    Stored m' := by
  have hmem : ∀ {i : IoInstr}, i ∈ rest → i ∈ m.io := by
    intro i hi
    rw [hio]
    exact List.mem_cons_of_mem _ hi
  -- an instruction that leaves the map alone
  have hrest : m'.io = rest → m'.wsConns = m.wsConns → (∀ id, instr ≠ .addConnection id) →
      Stored m' := by
    intro hio' hmap hno
    apply h.frame
    · intro id p hi
      rw [hio'] at hi
      rw [hmap]
      exact ⟨hmem hi, fun _ hj => hj⟩
    · intro id hi
      rw [hio'] at hi
      exact hmem hi
    · intro id hi
      rw [hio] at hi
      rw [hio']
      exact Or.inr ((List.mem_cons.mp hi).resolve_left (hno id).symm)
  cases instr with
  | addConnection id =>
    obtain rfl := Option.some.inj hexec
    apply h.frame
    · intro i p hi
      refine ⟨hmem (mem_of_mem_destroyExecutor (by simp) hi), fun j hj => ?_⟩
      exact (AList.mem_insert _).mpr (Or.inr hj)
    · exact fun i hi => hmem (mem_of_mem_destroyExecutor (by simp) hi)
    · intro i hi
      rw [hio] at hi
      cases List.mem_cons.mp hi with
      | inl heq =>
        rw [IoInstr.addConnection.inj heq]
        exact Or.inl ((AList.mem_insert _).mpr (Or.inl rfl))
      | inr hin => exact Or.inr (List.mem_append_right _ hin)
  | erase id =>
    obtain rfl := Option.some.inj hexec
    -- a program with this instruction stores nothing
    intro i p hi
    have hold := hmem (mem_of_mem_destroyExecutor (by simp) hi)
    exact absurd (hio ▸ List.mem_cons_self) ((h i p hold).1 id)
  | storeBuffer id p =>
    obtain rfl := Option.some.inj hexec
    obtain ⟨entry, hmap⟩ := storeBuffer_wsConns { m with io := rest } id p
    have hio' := io_storeBuffer { m with io := rest } id p
    apply h.frame
    · intro i p' hi
      rw [hio'] at hi
      rw [hmap]
      exact ⟨hmem hi, fun j hj => (AList.mem_insert _).mpr (Or.inr hj)⟩
    · intro i hi
      rw [hio'] at hi
      exact hmem hi
    · intro i hi
      rw [hio] at hi
      rw [hio']
      exact Or.inr ((List.mem_cons.mp hi).resolve_left (by simp))
  | push id k =>
    obtain ⟨e, -, hpush⟩ := Option.bind_eq_some_iff.mp hexec
    obtain ⟨-, rfl⟩ := pushItem_eq_some hpush
    exact hrest rfl rfl (by simp)
  | pushDestroy e =>
    obtain ⟨-, rfl⟩ := pushItem_eq_some hexec
    exact hrest rfl rfl (by simp)
  | join e =>
    obtain ⟨-, hexec⟩ := Option.ite_none_right_eq_some.mp hexec
    obtain rfl := Option.some.inj hexec
    exact hrest rfl rfl (by simp)
  | setDone e =>
    obtain rfl := Option.some.inj hexec
    have hframe := setDone_frame { m with io := rest } e
    exact hrest hframe.2 hframe.1 (by simp)
  | _ =>
    obtain rfl := Option.some.inj hexec
    exact hrest rfl rfl (by simp)

theorem mem_wsConns_of_moved {id : SocketId} (h : WebsocketServer.step m b = some m') (hb : b ≠ .io)
    (hmem : id ∈ m.wsConns) : id ∈ m'.wsConns := by
  have heff := mapEffect_step h
  generalize m'.wsConns = conns at heff ⊢
  cases heff with
  | same => exact hmem
  | touched e resp k entry hthread => exact (AList.mem_insert _).mpr (Or.inr hmem)
  | _ => exact absurd rfl hb

theorem Stored.moved (h : Stored m) (hstep : WebsocketServer.step m b = some m') (hb : b ≠ .io)
    (hio : m'.io = m.io) : Stored m' := by
  apply h.frame
  · intro id p hi
    rw [hio] at hi
    exact ⟨hi, fun _ => mem_wsConns_of_moved hstep hb⟩
  · intro id hi
    rw [hio] at hi
    exact hi
  · intro id hi
    rw [hio]
    exact Or.inr hi

theorem stored_step (h : Stored m) (hstep : WebsocketServer.step m b = some m') : Stored m' := by
  cases b with
  | event ev =>
    obtain ⟨hc, hstep⟩ := Option.ite_none_right_eq_some.mp hstep
    rw [← Option.some.inj hstep]
    exact stored_handler hc.2
  | runPosted =>
    rw [WebsocketServer.step] at hstep
    split at hstep
    · next p rest hio hposted =>
      rw [← Option.some.inj hstep]
      intro id payload hmem
      exact absurd hmem ((postedHandler_no_push p id).1 payload)
    · cases hstep
  | io =>
    have hexec := hstep
    rw [WebsocketServer.step] at hexec
    split at hexec
    · cases hexec
    · next instr rest hio => exact h.ioExec hio hexec
  | take e => exact h.moved hstep (by simp) (take_moved hstep).io
  | timeout e => exact h.moved hstep (by simp) (timeout_moved hstep).io
  | receive e resp => exact h.moved hstep (by simp) (receive_moved hstep).io
  | post e => exact h.moved hstep (by simp) (post_moved hstep).io
  | resume e => exact h.moved hstep (by simp) (resume_moved hstep).io

structure Inv (s : State) : Prop where
  wf : Wf s.server
  stored : Stored s.server
  live : ∀ id, s.live id = true → id ∈ s.server.wsConns

theorem inv_init : Inv State.init where
  wf := wf_init
  stored _ _ h := by cases h
  live _ h := by cases h

/-- The entry that a payload is stored in is there. -/
theorem Inv.mem_of_stores (h : Inv s) {id : SocketId} {p : Payload} {rest : List IoInstr}
    (hio : s.server.io = .storeBuffer id p :: rest) : id ∈ s.server.wsConns := by
  have hhead : .storeBuffer id p ∈ s.server.io := by
    rw [hio]
    exact List.mem_cons_self
  refine (h.stored id p hhead).2.resolve_right fun hadd => ?_
  -- nothing but the push follows
  have hshape : Shaped (.storeBuffer id p :: rest) := hio ▸ h.wf.shape
  obtain ⟨k, hrest, -⟩ := hshape.storeBuffer
  rw [hio, hrest] at hadd
  simp at hadd

theorem record_added {id : SocketId} {rest : List IoInstr}
    (hio : s.server.io = .addConnection id :: rest) :
    (s.record .io).live = Function.update s.live id true := by
  simp only [State.record, hio]

theorem record_erased {id : SocketId} {rest : List IoInstr} (hio : s.server.io = .erase id :: rest) :
    (s.record .io).live = Function.update s.live id false := by
  simp only [State.record, hio]

theorem record_live (hio : b = .io → ∀ id rest, s.server.io ≠ .addConnection id :: rest ∧
    s.server.io ≠ .erase id :: rest) : (s.record b).live = s.live := by
  unfold State.record
  split
  · split
    · next id rest heq => exact absurd heq (hio rfl id rest).1
    · next id rest heq => exact absurd heq (hio rfl id rest).2
    · rfl
  · rfl
  · rfl

theorem size_insert (m : AList (fun _ : SocketId => SocketEntry)) (id : SocketId)
    (entry : SocketEntry) :
    (m.insert id entry).keys.length = if id ∈ m then m.keys.length else m.keys.length + 1 := by
  rw [AList.keys_insert, List.length_cons]
  split
  · next hmem =>
    have hpos : 0 < m.keys.length := List.length_pos_of_mem (AList.mem_keys.mp hmem)
    rw [List.length_erase_of_mem (AList.mem_keys.mp hmem)]
    omega
  · next hno => rw [List.erase_of_not_mem (fun hc => hno (AList.mem_keys.mpr hc))]

theorem size_erase (m : AList (fun _ : SocketId => SocketEntry)) (id : SocketId) :
    (m.erase id).keys.length ≤ m.keys.length := by
  rw [AList.keys_erase]
  exact List.length_erase_le

theorem inv_step (h : Inv s) (heff : Effect s a t) : Inv t := by
  cases heff with
  | conn a id c log ha hio hphase => exact ⟨h.wf, h.stored, h.live⟩
  | event ev c phase m hconn hnext hstep =>
    refine ⟨wf_step h.wf hstep, stored_step h.stored hstep, fun id hid => ?_⟩
    exact mem_wsConns_of_moved hstep (by simp) (h.live id hid)
  | server b m hb hstep =>
    refine ⟨wf_step h.wf hstep, stored_step h.stored hstep, fun id hid => ?_⟩
    show id ∈ m.wsConns
    have hmap := mapEffect_step hstep
    generalize m.wsConns = conns at hmap ⊢
    change (s.record b).live id = true at hid
    cases hmap with
    | same b hio hreceive =>
      rw [record_live hio] at hid
      exact h.live id hid
    | added i rest entry hio =>
      rw [record_added hio] at hid
      rw [AList.mem_insert]
      by_cases hi : id = i
      · exact Or.inl hi
      · rw [Function.update_of_ne hi] at hid
        exact Or.inr (h.live id hid)
    | stored i p rest entry hio =>
      rw [record_live fun _ i' rest' => by simp [hio]] at hid
      exact (AList.mem_insert _).mpr (Or.inr (h.live id hid))
    | erased i rest hio =>
      rw [record_erased hio] at hid
      by_cases hi : id = i
      · rw [hi, Function.update_self] at hid
        cases hid
      · rw [Function.update_of_ne hi] at hid
        exact AList.mem_erase.mpr ⟨hi, h.live id hid⟩
    | touched e resp k entry hthread =>
      exact (AList.mem_insert _).mpr (Or.inr (h.live id hid))

/-! ### When the limit holds -/

/-- An entry that was there is written to. -/
theorem Limited.insert (h : Limited opts s) {id : SocketId} (hmem : id ∈ s.server.wsConns)
    (entry : SocketEntry) : (s.server.wsConns.insert id entry).keys.length ≤ opts.maxConnections ∧
      ∀ i ∈ (s.server.wsConns.insert id entry).keys, s.live i = true := by
  rw [size_insert, if_pos hmem]
  refine ⟨h.1, fun i hi => ?_⟩
  rcases (AList.mem_insert _).mp (AList.mem_keys.mpr hi) with heq | hold
  · rw [heq]
    exact h.2 id (AList.mem_keys.mp hmem)
  · exact h.2 i (AList.mem_keys.mp hold)

theorem limited_iff_accepted_server (hinv : Inv s) (h : Limited opts s)
    (hstep : WebsocketServer.step s.server b = some m) :
    Limited opts { s.record b with server := m } ↔ Accepted opts s (.server b) := by
  change (m.wsConns.keys.length ≤ opts.maxConnections ∧
    ∀ id ∈ m.wsConns.keys, (s.record b).live id = true) ↔ _
  have hmap := mapEffect_step hstep
  generalize m.wsConns = conns at hmap ⊢
  cases hmap with
  | same b hio hreceive =>
    rw [record_live hio]
    refine iff_of_true h ?_
    cases b with
    | io =>
      intro id hadd
      unfold adding at hadd
      split at hadd
      · next i rest heq => exact absurd heq (hio rfl i rest).1
      · cases hadd
    | receive e resp => exact absurd rfl (hreceive e resp)
    | _ => trivial
  | added id rest entry hio =>
    rw [record_added hio, size_insert]
    have haccepted : Accepted opts s (.server .io) ↔
        id ∈ s.server.wsConns ∨ s.size < opts.maxConnections := by
      simp [Accepted, hio, adding, validateHandler]
    rw [haccepted]
    have hlive : ∀ i ∈ (s.server.wsConns.insert id entry).keys,
        Function.update s.live id true i = true := by
      intro i hi
      by_cases heq : i = id
      · rw [heq, Function.update_self]
      · rw [Function.update_of_ne heq]
        exact h.2 i (((AList.mem_insert _).mp (AList.mem_keys.mpr hi)).resolve_left heq)
    have hle : s.size ≤ opts.maxConnections := h.1
    unfold State.size at hle ⊢
    by_cases hmem : id ∈ s.server.wsConns
    · rw [if_pos hmem]
      exact iff_of_true ⟨hle, hlive⟩ (Or.inl hmem)
    · rw [if_neg hmem]
      constructor
      · exact fun hlim => Or.inr hlim.1
      · exact fun hor => ⟨hor.resolve_left hmem, hlive⟩
  | stored id p rest entry hio =>
    rw [record_live fun _ _ _ => by simp [hio]]
    refine iff_of_true (h.insert (hinv.mem_of_stores hio) entry) ?_
    simp [Accepted, hio, adding]
  | erased id rest hio =>
    rw [record_erased hio]
    refine iff_of_true ⟨Nat.le_trans (size_erase _ id) h.1, fun i hi => ?_⟩ ?_
    · obtain ⟨hne, hmem⟩ := AList.mem_erase.mp (AList.mem_keys.mpr hi)
      rw [Function.update_of_ne hne]
      exact h.2 i (AList.mem_keys.mp hmem)
    · simp [Accepted, hio, adding]
  | touched e resp k entry hthread =>
    show (_ ∧ ∀ i ∈ _, s.live i = true) ↔ _
    have haccepted : Accepted opts s (.server (.receive e resp)) ↔ k.id ∈ s.server.wsConns := by
      simp [Accepted, hthread, Thread.reading]
    rw [haccepted]
    constructor
    · -- the entry that `ws_conns[id]` makes is not one of a connection
      intro hlim
      apply hinv.live
      exact hlim.2 k.id (AList.mem_keys.mp ((AList.mem_insert _).mpr (Or.inl rfl)))
    · exact fun hmem => h.insert hmem entry

theorem limited_iff_accepted (hinv : Inv s) (h : Limited opts s) (heff : Effect s a t) :
    Limited opts t ↔ Accepted opts s a := by
  cases heff with
  | conn a id c log ha hio hphase =>
    refine iff_of_true h ?_
    cases a with
    | server b => exact absurd rfl (ha b)
    | _ => trivial
  | event ev c phase m hconn hnext hstep =>
    have hiff := limited_iff_accepted_server hinv h hstep
    exact iff_of_true (hiff.mpr trivial) trivial
  | server b m hb hstep => exact limited_iff_accepted_server hinv h hstep

/-- In every run, the limit holds all along exactly when every new entry is added while the validate
handler would accept a connection and every task runs while its socket has an entry. -/
theorem limited_iff_conforms {acts : List Action}
    (hrun : run (step regexSearch opts) State.init acts = some s) :
    Always (step regexSearch opts) (Limited opts) State.init acts ↔
      Conforms (step regexSearch opts) (Accepted opts) State.init acts := by
  have hinv : ∀ s a t, Inv s → step regexSearch opts s a = some t → Inv t :=
    fun _ _ _ h hstep => inv_step h (step_effect hstep)
  have hiff : ∀ s a t, Inv s → Limited opts s → step regexSearch opts s a = some t →
      (Limited opts t ↔ Accepted opts s a) :=
    fun _ _ _ hinv h hstep => limited_iff_accepted hinv h (step_effect hstep)
  exact always_iff_conforms hinv hiff inv_init ⟨Nat.zero_le _, fun _ hmem => by cases hmem⟩ hrun

/-- The second client is accepted after the first has left. -/
def oneAfterTheOther : List Action :=
  handshake 1 ++ opens 1 ++
    [.event (.message 1 .binary [1]), .server .io, .server .io, .server (.take 0),
      .server (.receive 0 (some [])), .server (.post 0), .server .runPosted, .server .io,
      .server .io, .server (.resume 0), .event (.closeConn 1), .server .io, .server .io, .server .io,
      .server (.take 0), .server .io] ++ handshake 2 ++ opens 2

theorem oneAfterTheOther_limited :
    Always (step (fun _ _ => true) ⟨1, ""⟩) (Limited ⟨1, ""⟩) State.init oneAfterTheOther ∧
      ∃ s, run (step (fun _ _ => true) ⟨1, ""⟩) State.init oneAfterTheOther = some s ∧
        s.server.wsConns.keys = [2] := by
  have hrun : run (step (fun _ _ => true) ⟨1, ""⟩) State.init oneAfterTheOther =
      some ((run (step (fun _ _ => true) ⟨1, ""⟩) State.init oneAfterTheOther).get (by decide)) := by
    simp
  exact ⟨(limited_iff_conforms hrun).mpr (by decide), _, hrun, by decide⟩

end Ra2yrcpp.WebsocketServer.Admission
