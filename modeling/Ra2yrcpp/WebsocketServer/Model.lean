import Mathlib.Data.List.AList
import Ra2yrcpp.AsyncQueue
import Ra2yrcpp.Reasoning.Transition

/-!
# The websocket server: io thread and connection executors

`websocket_server.cpp`, with the `worker_util` of `auto_thread.hpp` that runs each connection's
tasks and the synchronous `IOService::post` of `asio_utils.cpp`.  The io thread runs one handler or
posted closure at a time; a handler is the list of its remaining instructions, so that an executor
thread can move between any two of them.  An action that would block is not enabled.

The accept and close callbacks are instructions that return; what they wait for is the subject of
the command manager.  `cb_.receive` answers an arbitrary string or throws.
-/

open Ra2yrcpp.Reasoning

namespace Ra2yrcpp.WebsocketServer

abbrev SocketId := Nat
abbrev Payload := List UInt8

/-- The number of an executor: every `make_unique<worker_util<int>>` gets a new one. -/
abbrev ExecId := Nat

inductive Opcode
  | text
  | binary
  deriving DecidableEq, Repr

/-- The lambdas pushed to an executor, with what they capture: the one of `send_response` and the
one of the HTTP handler. -/
inductive Task
  | sendResponse (op : Opcode) (id : SocketId)
  | httpResponse (id : SocketId)
  deriving DecidableEq, Repr

def Task.id : Task → SocketId
  | .sendResponse _ id => id
  | .httpResponse id => id

/-- `worker_util::work_item`. -/
inductive WorkItem
  | destroy
  | consume (t : Task)
  deriving DecidableEq, Repr

/-- Where the thread of a `worker_util` is. -/
inductive Thread
  | waiting
  | taken (t : Task)
  | received (t : Task) (resp : Payload)
  | posted (t : Task) (done : Bool)
  | exited
  deriving DecidableEq, Repr

/-- `worker_util<int>` of one connection.  `id` is the socket it was made for; `delivered` and
`received` are the history of payloads stored for it and passed to `cb_.receive` by it. -/
structure Executor where
  id : SocketId
  work : AsyncQueue StdQueue WorkItem
  thread : Thread
  delivered : List Payload
  received : List Payload

/-- `worker_util(nullptr, 5)`. -/
def Executor.make (id : SocketId) : Executor := ⟨id, ⟨⟨[]⟩, 5⟩, .waiting, [], []⟩

/-- `SocketEntry`; the executor is null in an entry made by `ws_conns[id]` itself. -/
structure SocketEntry where
  buffer : Payload
  executor : Option ExecId
  deriving DecidableEq, Repr

/-- What the io thread has left to do in the current handler. -/
inductive IoInstr
  | addConnection (id : SocketId)
  | accept (id : SocketId)
  | close (id : SocketId)
  | storeBuffer (id : SocketId) (payload : Payload)
  | push (id : SocketId) (t : Task)
  | erase (id : SocketId)
  | pushDestroy (e : ExecId)
  | join (e : ExecId)
  | send (resp : Payload)
  | interrupt (id : SocketId)
  | setDone (e : ExecId)
  deriving DecidableEq, Repr

/-- What waits in the `io_context`: closures posted by executors, and the interrupts that
`con->interrupt()` schedules. -/
inductive Posted
  | closure (e : ExecId) (t : Task) (resp : Payload)
  | interrupt (id : SocketId)
  deriving DecidableEq, Repr

structure State where
  wsConns : AList (fun _ : SocketId => SocketEntry)
  executors : ExecId → Executor
  nextExec : ExecId
  io : List IoInstr
  posted : List Posted

def State.init : State := ⟨∅, fun _ => Executor.make 0, 0, [], []⟩

/-- The executor that `ws_conns[id]` leads to. -/
def State.executorOf (s : State) (id : SocketId) : Option ExecId :=
  (s.wsConns.lookup id).bind SocketEntry.executor

def State.setExecutor (s : State) (e : ExecId) (x : Executor) : State :=
  { s with executors := Function.update s.executors e x }

/-! ## Handlers -/

/-- Network events that websocketpp turns into handler calls. -/
inductive Event
  | message (id : SocketId) (op : Opcode) (payload : Payload)
  | openConn (id : SocketId)
  | closeConn (id : SocketId)
  | http (id : SocketId) (body : Payload)
  deriving DecidableEq, Repr

/-- `send_response`. -/
def sendResponse (id : SocketId) (op : Opcode) (payload : Payload) : List IoInstr :=
  [.storeBuffer id payload, .push id (.sendResponse op id)]

def messageHandler (id : SocketId) (op : Opcode) (payload : Payload) : List IoInstr :=
  match op with
  | .text => []
  | .binary => sendResponse id op payload

def closeHandler (id : SocketId) : List IoInstr := [.close id, .erase id]

def openHandler (id : SocketId) : List IoInstr := [.addConnection id, .accept id]

def httpHandler (s : State) (id : SocketId) (body : Payload) : List IoInstr :=
  if id ∈ s.wsConns then []
  else [.addConnection id, .accept id, .storeBuffer id body, .push id (.httpResponse id)]

def interruptHandler (id : SocketId) : List IoInstr := [.erase id]

def handler (s : State) : Event → List IoInstr
  | .message id op payload => messageHandler id op payload
  | .openConn id => openHandler id
  | .closeConn id => closeHandler id
  | .http id body => httpHandler s id body

/-- websocketpp hands a message only to a connection that is open. -/
def deliverable (s : State) : Event → Bool
  | .message id _ _ => (s.executorOf id).isSome
  | _ => true

/-- The closure an executor posts, with the `done.store(true)` that `post_` wraps around it. -/
def postedHandler : Posted → List IoInstr
  | .closure e (.sendResponse _ _) resp => [.send resp, .setDone e]
  | .closure e (.httpResponse id) resp => [.send resp, .close id, .interrupt id, .setDone e]
  | .interrupt id => interruptHandler id

/-! ## Instructions of the io thread -/

/-- `~worker_util`, run when an entry that owns an executor goes away. -/
def destroyExecutor : Option ExecId → List IoInstr
  | none => []
  | some e => [.pushDestroy e, .join e]

/-- `ws_conns[id] = {…}`: the assignment destroys the executor it replaces. -/
def addConnection (s : State) (id : SocketId) : State :=
  { s with
    wsConns := s.wsConns.insert id ⟨[], some s.nextExec⟩
    executors := Function.update s.executors s.nextExec (Executor.make id)
    nextExec := s.nextExec + 1
    io := destroyExecutor (s.executorOf id) ++ s.io }

/-- `ws_conns.erase(id)`: the node leaves the map before its executor is destroyed. -/
def erase (s : State) (id : SocketId) : State :=
  { s with
    wsConns := s.wsConns.erase id
    io := destroyExecutor (s.executorOf id) ++ s.io }

/-- `ws_conns[id].buffer = payload`. -/
def storeBuffer (s : State) (id : SocketId) (payload : Payload) : State :=
  match s.wsConns.lookup id with
  | none => { s with wsConns := s.wsConns.insert id ⟨payload, none⟩ }
  | some entry =>
    let s' := { s with wsConns := s.wsConns.insert id { entry with buffer := payload } }
    match entry.executor with
    | none => s'
    | some e =>
      s'.setExecutor e { s.executors e with delivered := (s.executors e).delivered ++ [payload] }

/-- `worker_util::push` on executor `e`; `none` while its queue is full. -/
def pushItem (s : State) (e : ExecId) (item : WorkItem) : Option State :=
  ((s.executors e).work.emplace item).map fun w => s.setExecutor e { s.executors e with work := w }

/-- `done.store(true)` for the executor that waits in `post_`. -/
def setDone (s : State) (e : ExecId) : State :=
  match (s.executors e).thread with
  | .posted t _ => s.setExecutor e { s.executors e with thread := .posted t true }
  | _ => s

/-- Execute one instruction; `s.io` is already what follows it. -/
def ioExec (s : State) : IoInstr → Option State
  | .addConnection id => some (addConnection s id)
  | .accept _ => some s
  | .close _ => some s
  | .storeBuffer id payload => some (storeBuffer s id payload)
  -- a null executor is dereferenced: no behaviour is defined
  | .push id t => (s.executorOf id).bind fun e => pushItem s e (.consume t)
  | .erase id => some (erase s id)
  | .pushDestroy e => pushItem s e .destroy
  | .join e => if (s.executors e).thread = .exited then some s else none
  | .send _ => some s
  | .interrupt id => some { s with posted := s.posted ++ [.interrupt id] }
  | .setDone e => some (setDone s e)

/-! ## Executor threads -/

/-- `work.pop(1, cfg::MAX_TIMEOUT)` in `worker_util::worker`, and the test of `destroy`. -/
def take (s : State) (e : ExecId) : Option State :=
  match (s.executors e).thread with
  | .waiting =>
    match (s.executors e).work.popRound 1 (fun _ => true) [] with
    | ([], _) => none
    | (.destroy :: _, w) =>
      some (s.setExecutor e { s.executors e with work := w, thread := .exited })
    | (.consume t :: _, w) =>
      some (s.setExecutor e { s.executors e with work := w, thread := .taken t })
  | _ => none

/-- `pop` gives up after `cfg::MAX_TIMEOUT` without work and the worker leaves its loop. -/
def timeout (s : State) (e : ExecId) : Option State :=
  match (s.executors e).thread, (s.executors e).work.q.q with
  | .waiting, [] => some (s.setExecutor e { s.executors e with thread := .exited })
  | _, _ => none

/-- `ws_conns[id]` evaluated by an executor thread: a missing entry is inserted. -/
def State.entry (s : State) (id : SocketId) : SocketEntry := (s.wsConns.lookup id).getD ⟨[], none⟩

def State.touch (s : State) (id : SocketId) : State :=
  { s with wsConns := s.wsConns.insert id (s.entry id) }

/-- Where the thread goes when `cb_.receive` ends.  An exception (`none`) is caught by
`worker_util::worker`, which goes back to waiting. -/
def Task.after (t : Task) : Option Payload → Thread
  | some resp => .received t resp
  | none => .waiting

/-- The task calls `cb_.receive(id, &ws_conns[id].buffer)`. -/
def receive (s : State) (e : ExecId) (resp : Option Payload) : Option State :=
  match (s.executors e).thread with
  | .taken t =>
    some ((s.touch t.id).setExecutor e
      { s.executors e with
        received := (s.executors e).received ++ [(s.entry t.id).buffer]
        thread := t.after resp })
  | _ => none

/-- `service_->post(…, true)`: the closure is queued and the executor waits for `done`. -/
def post (s : State) (e : ExecId) : Option State :=
  match (s.executors e).thread with
  | .received t resp =>
    some { s.setExecutor e { s.executors e with thread := .posted t false } with
      posted := s.posted ++ [.closure e t resp] }
  | _ => none

/-- `done.wait(true)` returns. -/
def resume (s : State) (e : ExecId) : Option State :=
  match (s.executors e).thread with
  | .posted _ true => some (s.setExecutor e { s.executors e with thread := .waiting })
  | _ => none

/-! ## Interleavings -/

inductive Action
  | event (ev : Event)
  | runPosted
  | io
  | take (e : ExecId)
  | timeout (e : ExecId)
  | receive (e : ExecId) (resp : Option Payload)
  | post (e : ExecId)
  | resume (e : ExecId)
  deriving DecidableEq, Repr

def step (s : State) : Action → Option State
  | .event ev =>
    if s.io = [] ∧ deliverable s ev then some { s with io := handler s ev } else none
  | .runPosted =>
    match s.io, s.posted with
    | [], p :: rest => some { s with io := postedHandler p, posted := rest }
    | _, _ => none
  | .io =>
    match s.io with
    | [] => none
    | i :: rest => ioExec { s with io := rest } i
  | .take e => WebsocketServer.take s e
  | .timeout e => WebsocketServer.timeout s e
  | .receive e resp => WebsocketServer.receive s e resp
  | .post e => WebsocketServer.post s e
  | .resume e => WebsocketServer.resume s e

end Ra2yrcpp.WebsocketServer
