import Mathlib.Algebra.Group.Nat.Defs
import Mathlib.Data.List.AList
import Ra2yrcpp.AsyncQueue
import Ra2yrcpp.Reasoning.BinaryHeap
import Ra2yrcpp.Reasoning.Transition

/-!
# The command manager

`command_manager.hpp` with the `ISCommand` wrapper of `is_command.hpp` that runs the handlers, the
game loop queue `CBGameCommand` of `hooks_yr.hpp`, and the calls that `instrumentation_service.cpp`
makes into the manager.  Each action is one atomic operation of one thread: a store or read of an
atomic variable, or a critical section.  A thread that would block has no enabled action, and
neither has one that would dereference a released command.

Commands are numbered in the order of their creation; the number stands for the `shared_ptr`, and
the lists that hold it for its owners.  What a handler does to its own message, and what an
asynchronous handler does to the game, is chosen by the action.
-/

open Ra2yrcpp.Reasoning

namespace Ra2yrcpp.CommandManager

abbrev QueueId := Nat
abbrev TaskId := Nat
abbrev CommandPtr := Nat

/-- The serialized contents of a `google::protobuf::Any` and of a message. -/
abbrev Any := List UInt8
abbrev Message := List UInt8

inductive ResultCode
  | none
  | ok
  | error
  deriving DecidableEq, Repr

inductive CommandType
  | destroyQueue
  | createQueue
  | shutdown
  | user
  deriving DecidableEq, Repr

def CommandType.val : CommandType → Nat
  | .destroyQueue => 1
  | .createQueue => 2
  | .shutdown => 3
  | .user => 4

/-- What the function given to `get_cmd` does besides working on its message: nothing, the `post` of
`GetSystemState`, or `get_gameloop_command` as its last call. -/
inductive Body
  | plain
  | getSystemState
  | gameloop
  deriving DecidableEq, Repr

/-- A handler made by `get_cmd`, with the message type it is for. -/
structure Handler where
  async : Bool
  body : Body
  unpackTo : Any → Message
  packFrom : Message → Any

structure BaseData where
  name : String
  queueId : QueueId
  taskId : TaskId
  queueSize : Nat
  type : CommandType
  deriving DecidableEq, Repr

/-- `Command<ISArg>`; `M` is `command_data()->M`, and built-in commands have no handler. -/
structure Command where
  base : BaseData
  handler : Option Handler
  M : Any
  resultCode : ResultCode
  pending : Bool
  discardResult : Bool
  errorMessage : String
  doneCallback : Bool

def Command.make (base : BaseData) (handler : Option Handler) (data : Any) (doneCallback : Bool) :
    Command :=
  ⟨base, handler, data, .none, false, false, "", doneCallback⟩

/-- `ISCommand::save_command_result`, on the command and the message. -/
def Command.saveCommandResult (c : Command) (h : Handler) (m : Message) : Command × Message :=
  if c.pending then (c, []) else ({ c with M := h.packFrom m }, m)

/-! ## Threads -/

/-- Where the worker is in `emplace_user_command`.  `m` is the message of the `ISCommand`, `outcome`
what the handler ended with: an exception's text, or nothing. -/
inductive Stage
  | taken
  | reset
  | constructed (m : Message)
  | allocated (m : Message)
  | body (m : Message)
  | posting (m : Message) (done : Bool)
  | handlerSet (m : Message)
  | thrown (m : Message) (msg : String)
  | closing (m : Message) (outcome : Option String)
  | packing (m : Message) (outcome : Option String)
  | handled (outcome : Option String)
  | called
  | erring
  | finished
  | storing
  deriving DecidableEq, Repr

inductive Worker
  | idle
  | builtin (p : CommandPtr) (executed : Bool)
  | user (p : CommandPtr) (st : Stage)
  | exited
  deriving DecidableEq, Repr

/-- The io thread is in no builtin call, has made the command of one, or waits for its result. -/
inductive IoThread
  | idle
  | made (p : CommandPtr)
  | waiting (p : CommandPtr)
  deriving DecidableEq, Repr

/-- Where the game thread is in `run_async_handler`. -/
inductive GamePoint
  | calling
  | caught (msg : String)
  | assigned
  | finished
  deriving DecidableEq, Repr

/-- `CBGameCommand::exec`: the items it has popped and the one it runs. -/
structure GameThread where
  items : List CommandPtr
  current : Option (CommandPtr × GamePoint)
  deriving DecidableEq, Repr

/-! ## State -/

/-- A `result_q_t`.  `createdAt` is the time of its creation and tells it from other queues that had
the same id. -/
structure ResultQueue where
  q : AsyncQueue RingBuffer CommandPtr
  createdAt : Nat

inductive DropReason
  | discarded
  | noQueue
  | evicted
  | queueDestroyed
  deriving DecidableEq, Repr

inductive ResponseCode
  | ok
  | error
  deriving DecidableEq, Repr

/-- `ra2yrproto::CommandResult`. -/
structure CommandResult where
  commandId : TaskId
  result : Any
  resultCode : ResponseCode
  errorMessage : String
  deriving DecidableEq, Repr

/-- A command returned by the flush with number `call`, and what the client was told. -/
structure Flushed where
  ptr : CommandPtr
  call : Nat
  result : CommandResult
  deriving DecidableEq, Repr

structure State where
  cmds : CommandPtr → Command
  nextPtr : CommandPtr
  commandCounter : Nat
  workQueue : List CommandPtr
  results : AList (fun _ : QueueId => ResultQueue)
  pendingCommands : List TaskId
  worker : Worker
  /-- commands whose creator has not enqueued them yet -/
  made : List CommandPtr
  /-- built-in commands whose caller, other than the io thread, waits for their result -/
  waiting : List CommandPtr
  io : IoThread
  /-- calls of `flush_results` that have looked their queue up and not popped it yet -/
  flushes : List (QueueId × Nat)
  work : AsyncQueue StdQueue CommandPtr
  game : GameThread
  -- history
  clock : Nat
  created : Nat
  enqueuedAt : CommandPtr → Nat
  acks : List TaskId
  flushCalls : Nat
  flushed : List Flushed
  dropped : List (CommandPtr × DropReason)
  executed : List CommandPtr
  asyncThrew : CommandPtr → Option String
  asyncPacked : CommandPtr → Option Any

def State.init : State where
  cmds _ := Command.make ⟨"", 0, 0, 0, .user⟩ none [] false
  nextPtr := 0
  commandCounter := 0
  workQueue := []
  results := ∅
  pendingCommands := []
  worker := .idle
  made := []
  waiting := []
  io := .idle
  flushes := []
  work := ⟨⟨[]⟩, 0⟩
  game := ⟨[], none⟩
  clock := 0
  created := 0
  enqueuedAt _ := 0
  acks := []
  flushCalls := 0
  flushed := []
  dropped := []
  executed := []
  asyncThrew _ := none
  asyncPacked _ := none

def State.setCommand (s : State) (p : CommandPtr) (c : Command) : State :=
  { s with cmds := Function.update s.cmds p c }

/-- The worker goes on to `st` with the command it holds, which has become `c`. -/
def State.advance (s : State) (p : CommandPtr) (c : Command) (st : Stage) : State :=
  { s.setCommand p c with worker := .user p st }

def Worker.held : Worker → List CommandPtr
  | .idle => []
  | .builtin p _ => [p]
  | .user p _ => [p]
  | .exited => []

/-- `work_queue_mut_` is held during the whole of a built-in command. -/
def Worker.locksQueue : Worker → Bool
  | .builtin _ _ => true
  | _ => false

def ResultQueue.contents (rq : ResultQueue) : List CommandPtr := rq.q.q.q

/-- A command that the worker or a result queue owns: the game thread may dereference it. -/
def State.owned (s : State) (p : CommandPtr) : Bool :=
  s.worker.held.contains p || s.results.entries.any fun e => e.2.contents.contains p

/-! ## Creating and enqueueing commands -/

/-- `++command_counter_` on a 32-bit `std::size_t`. -/
def nextCounter (s : State) : Nat := (s.commandCounter + 1) % 2 ^ 32

/-- `make_command` in `handle_cmd`, which then stores `discard_result`.  An unknown name throws
after the counter was incremented. -/
def makeCommand (handlers : String → Option Handler) (s : State) (name : String) (data : Any)
    (q : QueueId) (discard doneCallback : Bool) : State :=
  let s' := { s with commandCounter := nextCounter s, created := s.created + 1 }
  match handlers name with
  | none => s'
  | some h =>
    let c := Command.make ⟨name, q, nextCounter s, 0, .user⟩ (some h) data doneCallback
    { s'.setCommand s.nextPtr { c with discardResult := discard } with
      nextPtr := s.nextPtr + 1
      made := s.made ++ [s.nextPtr] }

/-- `make_builtin_command`; its task id is 0. -/
def makeBuiltinCommand (s : State) (q : QueueId) (size : Nat) (t : CommandType) : State :=
  { s.setCommand s.nextPtr (Command.make ⟨"", q, 0, size, t⟩ none [] false) with
    commandCounter := nextCounter s
    created := s.created + 1
    nextPtr := s.nextPtr + 1
    made := s.made ++ [s.nextPtr] }

/-- `QueueCompare`. -/
def queueCompare (cmds : CommandPtr → Command) (left right : CommandPtr) : Bool :=
  decide ((cmds right).base.type.val ≤ (cmds left).base.type.val)

/-- `enqueue_command` and `emplace_command`, which differ in how they pass the pointer. -/
def enqueueCommand (s : State) (p : CommandPtr) : State :=
  { s with
    workQueue := Heap.push (queueCompare s.cmds) s.workQueue p
    made := s.made.erase p
    clock := s.clock + 1
    enqueuedAt := Function.update s.enqueuedAt p s.clock }

/-! ## The worker -/

/-- `create_queue`: an existing queue is kept. -/
def createQueue (s : State) (id : QueueId) (maxSize : Nat) : State :=
  if id ∈ s.results then s
  else { s with
    results := s.results.insert id ⟨⟨⟨[], maxSize⟩, 0⟩, s.clock⟩
    clock := s.clock + 1 }

/-- `destroy_queue`: the queue goes, and the commands in it. -/
def destroyQueue (s : State) (id : QueueId) : State :=
  match s.results.lookup id with
  | none => s
  | some rq => { s with
    results := s.results.erase id
    dropped := s.dropped ++ rq.contents.map (·, .queueDestroyed) }

/-- `top` and `pop` of the work queue. -/
def take (s : State) : Option State :=
  match s.worker, s.workQueue with
  | .idle, p :: _ =>
    let w := if (s.cmds p).base.type = .user then .user p .taken else .builtin p false
    some { s with workQueue := Heap.pop (queueCompare s.cmds) s.workQueue, worker := w }
  | _, _ => none

/-- The switch of `worker` on a built-in command. -/
def executeBuiltin (s : State) (p : CommandPtr) : Option State :=
  let b := (s.cmds p).base
  match b.type with
  | .createQueue => some { createQueue s b.queueId b.queueSize with worker := .builtin p true }
  | .destroyQueue => some { destroyQueue s b.queueId with worker := .builtin p true }
  | .shutdown => some { s with worker := .exited, executed := s.executed ++ [p] }
  | .user => none

/-- `result_code().store(OK)` of a built-in command, and the end of the loop's body. -/
def finishBuiltin (s : State) (p : CommandPtr) : State :=
  { s.setCommand p { s.cmds p with resultCode := .ok } with
    worker := .idle
    executed := s.executed ++ [p] }

/-- The end of `emplace_user_command`: the result goes to its queue or is dropped. -/
def storeResult (s : State) (p : CommandPtr) : Option State :=
  let c := s.cmds p
  if c.discardResult then
    some { s with worker := .idle, dropped := s.dropped ++ [(p, .discarded)] }
  else
    match s.results.lookup c.base.queueId with
    | none => some { s with worker := .idle, dropped := s.dropped ++ [(p, .noQueue)] }
    | some rq =>
      (rq.q.emplace p).map fun q => { s with
        worker := .idle
        results := s.results.insert c.base.queueId { rq with q := q }
        dropped := s.dropped ++ rq.q.q.evicted.toList.map (·, .evicted) }

/-- The next step of `emplace_user_command` where it does not depend on the handler's function. -/
def userStep (s : State) (p : CommandPtr) (st : Stage) : Option State :=
  let c := s.cmds p
  match c.handler, st with
  | some _, .taken => some (s.advance p { c with resultCode := .none } .reset)
  | some h, .reset => some (s.advance p c (.constructed (h.unpackTo c.M)))
  | some h, .constructed m =>
    if h.async then
      let (c', m') := c.saveCommandResult h m
      some (s.advance p c' (.allocated m'))
    else some (s.advance p c (.body m))
  | some _, .allocated m => some (s.advance p { c with pending := true } (.body m))
  | some h, .body m =>
    match h.body with
    | .plain => none
    | .getSystemState => some (s.advance p c (.posting m false))
    -- set_async_handler
    | .gameloop => some (s.advance p { c with pending := true } (.handlerSet m))
  | some _, .posting _ _ => none
  -- put_work
  | some _, .handlerSet m =>
    (s.work.emplace p).map fun w => { s.advance p c (.closing m none) with work := w }
  -- the catch block of get_cmd
  | some _, .thrown m msg => some (s.advance p { c with M := [] } (.closing m (some msg)))
  -- the destructor of ISCommand reads the flag, and then packs
  | some _, .closing m o =>
    if c.pending then some (s.advance p c (.handled o)) else some (s.advance p c (.packing m o))
  | some h, .packing m o => some (s.advance p { c with M := h.packFrom m } (.handled o))
  | some _, .handled none => some (s.advance p c .called)
  | some _, .handled (some msg) => some (s.advance p { c with errorMessage := msg } .erring)
  | some _, .called => some (s.advance p { c with resultCode := .ok } .finished)
  | some _, .erring => some (s.advance p { c with resultCode := .error } .finished)
  | some _, .finished =>
    let pendingCommands :=
      if c.pending then s.pendingCommands ++ [c.base.taskId] else s.pendingCommands
    some { s.advance p c .storing with pendingCommands := pendingCommands }
  | some _, .storing => storeResult s p
  | none, _ => none

/-- The worker's next step. -/
def work (s : State) : Option State :=
  match s.worker with
  | .idle => take s
  | .builtin p false => executeBuiltin s p
  | .builtin p true => some (finishBuiltin s p)
  | .user p st => userStep s p st
  | .exited => none

/-- Where the function of a handler can return or throw: a plain one at any time, `GetSystemState`
after its `post`.  A game loop command may throw before `set_async_handler`. -/
def Stage.inFunction (body : Body) : Stage → Bool
  | .body _ => decide (body ≠ .getSystemState)
  | .posting _ done => decide (body = .getSystemState) && done
  | _ => false

def fnReturns (s : State) (m : Message) : Option State :=
  match s.worker with
  | .user p st =>
    match (s.cmds p).handler with
    | some h =>
      if st.inFunction h.body ∧ h.body ≠ .gameloop then
        some (s.advance p (s.cmds p) (.closing m none))
      else none
    | none => none
  | _ => none

def fnThrows (s : State) (m : Message) (msg : String) : Option State :=
  match s.worker with
  | .user p st =>
    match (s.cmds p).handler with
    | some h =>
      if st.inFunction h.body then some (s.advance p (s.cmds p) (.thrown m msg)) else none
    | none => none
  | _ => none

/-- `done_callback_` throws. -/
def callbackThrows (s : State) (msg : String) : Option State :=
  match s.worker with
  | .user p (.handled none) =>
    if (s.cmds p).doneCallback then some (s.advance p (s.cmds p) (.handled (some msg))) else none
  | _ => none

/-! ## Flushing results -/

/-- The first half of `flush_results`; an unknown queue throws. -/
def lookupQueue (s : State) (id : QueueId) : State :=
  match s.results.lookup id with
  | none => s
  | some rq => { s with flushes := s.flushes ++ [(id, rq.createdAt)] }

/-- What `InstrumentationService::flush_results` tells about a command. -/
def Command.toResult (c : Command) : CommandResult :=
  if c.resultCode = .error then ⟨c.base.taskId, c.M, .error, c.errorMessage⟩
  else ⟨c.base.taskId, c.M, .ok, ""⟩

/-- The second half of `flush_results`.  The flags of commands in `late` were read as set before the
game thread cleared them.  The reference to the queue is valid only while the map has it. -/
def popResults (s : State) (id : QueueId) (createdAt : Nat) (late : List CommandPtr) :
    Option State :=
  match s.results.lookup id with
  | none => none
  | some rq =>
    if (id, createdAt) ∈ s.flushes ∧ rq.createdAt = createdAt then
      let (res, q) := rq.q.popRound 0 (fun p => !(s.cmds p).pending && !late.contains p) []
      some { s with
        results := s.results.insert id { rq with q := q }
        flushes := s.flushes.erase (id, createdAt)
        pendingCommands := s.pendingCommands.filter fun task =>
          !(res.any fun p => (s.cmds p).base.taskId == task)
        flushCalls := s.flushCalls + 1
        flushed := s.flushed ++
          res.reverse.map fun p => ⟨p, s.flushCalls, (s.cmds p).toResult⟩ }
    else none

/-! ## The game thread -/

/-- `work.pop(0, 0.0s)` in `CBGameCommand::exec`. -/
def drain (s : State) : Option State :=
  match s.game with
  | ⟨[], none⟩ =>
    let (items, w) := s.work.popRound 0 (fun _ => true) []
    some { s with work := w, game := ⟨items, none⟩ }
  | _ => none

/-- `it()`: `run_async_handler` is entered. -/
def startItem (s : State) : Option State :=
  match s.game with
  | ⟨p :: items, none⟩ =>
    if s.owned p then some { s with game := ⟨items, some (p, .calling)⟩ } else none
  | _ => none

/-- The asynchronous handler packs its result. -/
def handlerPacks (s : State) (a : Any) : Option State :=
  match s.game.current with
  | some (p, .calling) =>
    if s.owned p then
      some { s.setCommand p { s.cmds p with M := a } with
        asyncPacked := Function.update s.asyncPacked p (some a) }
    else none
  | _ => none

def handlerReturns (s : State) : Option State :=
  match s.game.current with
  | some (p, .calling) =>
    if s.owned p then some { s with game := ⟨s.game.items, some (p, .finished)⟩ } else none
  | _ => none

def handlerThrows (s : State) (msg : String) : Option State :=
  match s.game.current with
  | some (p, .calling) =>
    if s.owned p then
      some { s with
        game := ⟨s.game.items, some (p, .caught msg)⟩
        asyncThrew := Function.update s.asyncThrew p (some msg) }
    else none
  | _ => none

/-- The rest of `run_async_handler`: `set_error` after an exception, then `pending_.store(false)`. -/
def finishItem (s : State) : Option State :=
  match s.game.current with
  | some (p, pt) =>
    if s.owned p then
      let c := s.cmds p
      match pt with
      | .calling => none
      | .caught msg =>
        some { s.setCommand p { c with errorMessage := msg } with
          game := ⟨s.game.items, some (p, .assigned)⟩ }
      | .assigned =>
        some { s.setCommand p { c with resultCode := .error } with
          game := ⟨s.game.items, some (p, .finished)⟩ }
      | .finished =>
        some { s.setCommand p { c with pending := false } with game := ⟨s.game.items, none⟩ }
    else none
  | none => none

/-! ## The io thread and other callers of built-in commands -/

/-- The io thread makes the command of `execute_create_queue` or `execute_destroy_queue`. -/
def ioMakes (s : State) (q : QueueId) (size : Nat) (t : CommandType) : Option State :=
  if s.io = .idle ∧ (t = .createQueue ∨ t = .destroyQueue) then
    some { makeBuiltinCommand s q size t with io := .made s.nextPtr }
  else none

def ioEnqueues (s : State) : Option State :=
  match s.io with
  | .made p =>
    if s.worker.locksQueue then none else some { enqueueCommand s p with io := .waiting p }
  | _ => none

/-- `result_code().wait_pred` returns. -/
def ioReturns (s : State) : Option State :=
  match s.io with
  | .waiting p => if (s.cmds p).resultCode = .none then none else some { s with io := .idle }
  | _ => none

/-- The io thread runs the closure that `GetSystemState` posted; it fills in the connections. -/
def ioRunsPosted (s : State) (m : Message) : Option State :=
  match s.io, s.worker with
  | .idle, .user p (.posting _ false) => some (s.advance p (s.cmds p) (.posting m true))
  | _, _ => none

/-! ## Interleavings -/

inductive Action
  | makeCommand (name : String) (data : Any) (q : QueueId) (discard doneCallback : Bool)
  | emplace (p : CommandPtr)
  | makeBuiltin (q : QueueId) (size : Nat) (t : CommandType)
  | enqueue (p : CommandPtr)
  | returns (p : CommandPtr)
  | ioMakes (q : QueueId) (size : Nat) (t : CommandType)
  | ioEnqueues
  | ioReturns
  | ioRunsPosted (m : Message)
  | work
  | fnReturns (m : Message)
  | fnThrows (m : Message) (msg : String)
  | callbackThrows (msg : String)
  | lookupQueue (id : QueueId)
  | popResults (id : QueueId) (createdAt : Nat) (late : List CommandPtr)
  | drain
  | startItem
  | handlerPacks (a : Any)
  | handlerReturns
  | handlerThrows (msg : String)
  | finishItem
  deriving DecidableEq, Repr

def step (handlers : String → Option Handler) (s : State) : Action → Option State
  | .makeCommand name data q discard done => some (makeCommand handlers s name data q discard done)
  | .emplace p =>
    if p ∈ s.made ∧ (s.cmds p).base.type = .user ∧ s.worker.locksQueue = false then
      some { enqueueCommand s p with acks := s.acks ++ [(s.cmds p).base.taskId] }
    else none
  | .makeBuiltin q size t => if t = .user then none else some (makeBuiltinCommand s q size t)
  | .enqueue p =>
    if p ∈ s.made ∧ (s.cmds p).base.type ≠ .user ∧ s.io ≠ .made p ∧ s.worker.locksQueue = false then
      -- `shutdown` joins the worker instead of waiting for a result
      let waiting := if (s.cmds p).base.type = .shutdown then s.waiting else s.waiting ++ [p]
      some { enqueueCommand s p with waiting := waiting }
    else none
  | .returns p =>
    if p ∈ s.waiting ∧ (s.cmds p).resultCode ≠ .none then
      some { s with waiting := s.waiting.erase p }
    else none
  | .ioMakes q size t => CommandManager.ioMakes s q size t
  | .ioEnqueues => CommandManager.ioEnqueues s
  | .ioReturns => CommandManager.ioReturns s
  | .ioRunsPosted m => CommandManager.ioRunsPosted s m
  | .work => CommandManager.work s
  | .fnReturns m => CommandManager.fnReturns s m
  | .fnThrows m msg => CommandManager.fnThrows s m msg
  | .callbackThrows msg => CommandManager.callbackThrows s msg
  | .lookupQueue id => some (CommandManager.lookupQueue s id)
  | .popResults id createdAt late => CommandManager.popResults s id createdAt late
  | .drain => CommandManager.drain s
  | .startItem => CommandManager.startItem s
  | .handlerPacks a => CommandManager.handlerPacks s a
  | .handlerReturns => CommandManager.handlerReturns s
  | .handlerThrows msg => CommandManager.handlerThrows s msg
  | .finishItem => CommandManager.finishItem s

/-! ## Pieces of runs -/

/-- The io thread accepts a connection: `execute_create_queue(id, cfg::RESULT_QUEUE_SIZE)`. -/
def connect (id : QueueId) : List Action :=
  [.ioMakes id 32 .createQueue, .ioEnqueues, .work, .work, .work, .ioReturns]

/-- `execute_destroy_queue(id)` of a closed connection. -/
def disconnect (id : QueueId) : List Action :=
  [.ioMakes id 0 .destroyQueue, .ioEnqueues, .work, .work, .work, .ioReturns]

/-- A synchronous command, and one that goes through the game loop; messages pack to themselves. -/
def plainHandler : Handler := ⟨false, .plain, id, id⟩
def gameloopHandler : Handler := ⟨true, .gameloop, id, id⟩

end Ra2yrcpp.CommandManager
