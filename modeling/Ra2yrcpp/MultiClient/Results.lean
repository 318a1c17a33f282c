import Ra2yrcpp.CommandManager.AtMostOnce

/-!
# The results that AutoPollClient hands out

`AutoPollClient::send_command` sends a command over one connection and waits until its result is in
`results_`, where the poll thread puts what it polls over another connection.  The server is the
command manager; between any two steps of the client it may do anything, for other clients too.

The response that a thread of the client reads is the one to its own request, so the id in the ack
of a call is that of the command that the server made for it.
-/

namespace Ra2yrcpp.MultiClient.Results

open Reasoning CommandManager

/-- The queue ids that the acks of the two handshakes in `start` have told. -/
structure QueueIds where
  command : QueueId
  poll : QueueId

/-- The queue that `poll_blocking(timeout, get_queue_id(ClientType::COMMAND))` flushes.  The client
leaves the largest id out of its request, and for a missing id or 0 the server takes the queue of the
connection that asks. -/
def QueueIds.polled (ids : QueueIds) : QueueId :=
  if ids.command < 2 ^ 64 - 1 ∧ 0 < ids.command then ids.command else ids.poll

/-- `ResultMap`. -/
abbrev ResultMap := AList fun _ : TaskId => CommandResult

/-- `AsyncMap::put`. -/
def put (data : ResultMap) (key : TaskId) (item : CommandResult) : Except String ResultMap :=
  if key ∈ data then .error ("key exists: " ++ toString key) else .ok (data.insert key item)

/-- Where the thread is that calls `send_command`: outside of it, waiting for the ack of command
`p`, in `results().get`, or between this and `results().erase`. -/
inductive Caller
  | idle
  | sent (p : CommandPtr)
  | waiting (p : CommandPtr) (id : TaskId)
  | got (p : CommandPtr) (id : TaskId) (r : CommandResult)
  deriving DecidableEq, Repr

/-- The poll thread waits for a response, has not read it yet, or goes through the results in it. -/
inductive Poller
  | idle
  | answered (rs : List CommandResult)
  | putting (rs : List CommandResult)
  deriving DecidableEq, Repr

/-- A call of `send_command` that has returned. -/
structure Call where
  ptr : CommandPtr
  ack : TaskId
  result : CommandResult
  deriving DecidableEq, Repr

structure State where
  server : CommandManager.State
  caller : Caller
  poller : Poller
  results : ResultMap
  -- history
  calls : List Call
  puts : List TaskId
  dropped : List CommandResult

def State.init : State := ⟨CommandManager.State.init, .idle, .idle, ∅, [], [], []⟩

inductive Action
  | server (a : CommandManager.Action)
  /-- `handle_cmd` makes the command of a call; an unknown name is answered with an error, on which
  `from_any` throws. -/
  | send (name : String) (data : Any)
  | receiveAck
  /-- The request or its response is lost, and `send_message` throws. -/
  | sendFails
  | getReturns
  /-- `get` throws: the key is not there when the time is over, or at once without a timeout. -/
  | getThrows
  | erase
  /-- The server flushes the queue for the poll thread. -/
  | poll (createdAt : Nat) (late : List CommandPtr)
  | receiveResults
  | pollFails
  | put
  deriving DecidableEq, Repr

/-- The body of the loop over `R.result().results()`: an exception ends the loop. -/
def putNext (s : State) : Option State :=
  match s.poller with
  | .putting [] => some { s with poller := .idle }
  | .putting (r :: rs) =>
    match put s.results r.commandId r with
    | .error _ => some { s with poller := .idle, dropped := s.dropped ++ r :: rs }
    | .ok data =>
      some { s with poller := .putting rs, results := data, puts := s.puts ++ [r.commandId] }
  | _ => none

def step (handlers : String → Option Handler) (ids : QueueIds) (s : State) : Action → Option State
  | .server a => (CommandManager.step handlers s.server a).map fun m => { s with server := m }
  | .send name data =>
    match s.caller with
    | .idle =>
      let m := makeCommand handlers s.server name data ids.command false false
      match handlers name with
      | none => some { s with server := m }
      | some _ => some { s with server := m, caller := .sent s.server.nextPtr }
    | _ => none
  | .receiveAck =>
    match s.caller with
    | .sent p =>
      if p ∈ s.server.made then none
      else some { s with caller := .waiting p (s.server.cmds p).base.taskId }
    | _ => none
  | .sendFails =>
    match s.caller with
    | .sent _ => some { s with caller := .idle }
    | _ => none
  | .getReturns =>
    match s.caller with
    | .waiting p id => (s.results.lookup id).map fun r => { s with caller := .got p id r }
    | _ => none
  | .getThrows =>
    match s.caller with
    | .waiting _ id => if id ∈ s.results then none else some { s with caller := .idle }
    | _ => none
  | .erase =>
    match s.caller with
    | .got p id r =>
      some { s with
        caller := .idle
        results := s.results.erase id
        calls := s.calls ++ [⟨p, id, r⟩] }
    | _ => none
  | .poll createdAt late =>
    match s.poller with
    | .idle => (popResults s.server ids.polled createdAt late).map fun m =>
        { s with
          server := m
          poller := .answered ((m.flushed.drop s.server.flushed.length).map Flushed.result) }
    | _ => none
  | .receiveResults =>
    match s.poller with
    | .answered rs => some { s with poller := .putting rs }
    | _ => none
  | .pollFails =>
    match s.poller with
    | .answered _ => some { s with poller := .idle }
    | _ => none
  | .put => putNext s

/-- `put` has dropped nothing and is not about to; every call that has returned has returned the
result of its own command, and no two the same. -/
structure OwnResults (s : State) : Prop where
  absent : ∀ r rs, s.poller = .putting (r :: rs) → r.commandId ∉ s.results
  kept : s.dropped = []
  own : ∀ c ∈ s.calls, c.result.commandId = c.ack
  once : (s.calls.map fun c => c.result.commandId).Nodup

/-- The ids of the commands that `handle_cmd` has made tell them apart. -/
def UniqueIds (m : CommandManager.State) : Prop :=
  ∀ p < m.nextPtr, ∀ q < m.nextPtr, (m.cmds p).base.type = .user → (m.cmds q).base.type = .user →
    (m.cmds p).base.taskId = (m.cmds q).base.taskId → p = q

instance (m : CommandManager.State) : Decidable (UniqueIds m) :=
  inferInstanceAs (Decidable (∀ p < m.nextPtr, ∀ q < m.nextPtr, _ → _ → _ → _))

variable {handlers : String → Option Handler} {ids : QueueIds} {s t : State} {a : Action}
  {m m' : CommandManager.State} {p : CommandPtr}

theorem UniqueIds.inj (h : UniqueIds m) : ∀ p q, m.isUser p → m.isUser q →
    (m.cmds p).base.taskId = (m.cmds q).base.taskId → p = q :=
  fun p q hp hq => h p hp.1 q hq.1 hp.2 hq.2

/-! ## What the client relies on the server to keep -/

/-- Commands keep their data, and what was flushed is not flushed again. -/
structure Extends (m m' : CommandManager.State) : Prop where
  next : m.nextPtr ≤ m'.nextPtr
  base : ∀ p < m.nextPtr, (m'.cmds p).base = (m.cmds p).base
  flushed : ∃ rest, m'.flushed = m.flushed ++ rest

theorem extends_of_effect {b : CommandManager.Action} (hw : Wf m) (heff : Effect handlers m b m') :
    Extends m m' where
  next := (heff.keeps hw).next
  base _ hp := (heff.keeps hw).base hp
  flushed := heff.flushed_append hw

theorem Extends.isUser (h : Extends m m') (hp : m.isUser p) : m'.isUser p := by
  refine ⟨Nat.lt_of_lt_of_le hp.1 h.next, ?_⟩
  rw [h.base p hp.1]
  exact hp.2

/-- Ids that are unique in the end have been so all the time. -/
theorem UniqueIds.of_extends (h : UniqueIds m') (hext : Extends m m') : UniqueIds m := by
  intro p hp q hq hpu hqu heq
  apply h p (Nat.lt_of_lt_of_le hp hext.next) q (Nat.lt_of_lt_of_le hq hext.next)
  · rw [hext.base p hp]
    exact hpu
  · rw [hext.base q hq]
    exact hqu
  · rw [hext.base p hp, hext.base q hq]
    exact heq

/-! ## The invariant -/

/-- Results that the poll thread has and has not put yet. -/
def Poller.batch : Poller → List CommandResult
  | .idle => []
  | .answered rs => rs
  | .putting rs => rs

/-- The ids of all results that have reached the client, in the order of their arrival. -/
def State.polled (s : State) : List TaskId := s.puts ++ s.poller.batch.map CommandResult.commandId

def Caller.ptr : Caller → Option CommandPtr
  | .idle => none
  | .sent p => some p
  | .waiting p _ => some p
  | .got p _ _ => some p

def Caller.ack : Caller → Option (CommandPtr × TaskId)
  | .waiting p id => some (p, id)
  | .got p id _ => some (p, id)
  | _ => none

structure Inv (s : State) : Prop where
  nodup : s.polled.Nodup
  flushed : ∀ id ∈ s.polled, id ∈ s.server.flushed.map fun f => f.result.commandId
  keyed : ∀ id r, s.results.lookup id = some r → r.commandId = id ∧ id ∈ s.puts
  kept : s.dropped = []
  fresh : ∀ p ∈ s.caller.ptr, s.server.isUser p ∧ p ∉ s.calls.map Call.ptr
  ack : ∀ p id, (p, id) ∈ s.caller.ack → id = (s.server.cmds p).base.taskId
  got : ∀ p id r, s.caller = .got p id r → r.commandId = id
  calls : ∀ c ∈ s.calls, s.server.isUser c.ptr ∧ c.ack = (s.server.cmds c.ptr).base.taskId ∧
    c.result.commandId = c.ack
  distinct : (s.calls.map Call.ptr).Nodup

theorem inv_init : Inv State.init where
  nodup := List.nodup_nil
  flushed _ h := by cases h
  keyed _ _ h := by cases h
  kept := rfl
  fresh _ h := by cases h
  ack _ _ h := by cases h
  got _ _ _ h := by cases h
  calls _ h := by cases h
  distinct := List.nodup_nil

/-- A key in the map is that of a result that was put. -/
theorem Inv.mem_puts (h : Inv s) {id : TaskId} (hmem : id ∈ s.results) : id ∈ s.puts := by
  obtain ⟨r, hr⟩ := Option.isSome_iff_exists.mp (AList.lookup_isSome.mpr hmem)
  exact (h.keyed id r hr).2

theorem Inv.absent (h : Inv s) {r : CommandResult} {rs : List CommandResult}
    (hp : s.poller = .putting (r :: rs)) : r.commandId ∉ s.results := by
  intro hmem
  have hnodup := h.nodup
  unfold State.polled at hnodup
  rw [hp] at hnodup
  exact (List.nodup_append.mp hnodup).2.2 _ (h.mem_puts hmem) _ List.mem_cons_self rfl

theorem Inv.ownResults (h : Inv s) (hunique : UniqueIds s.server) : OwnResults s where
  absent _ _ hp := h.absent hp
  kept := h.kept
  own c hc := (h.calls c hc).2.2
  once := by
    have hids : (s.calls.map fun c => c.result.commandId) =
        (s.calls.map Call.ptr).map fun p => (s.server.cmds p).base.taskId := by
      rw [List.map_map]
      exact List.map_congr_left fun c hc => (h.calls c hc).2.2.trans (h.calls c hc).2.1
    rw [hids]
    apply List.Nodup.map_on _ h.distinct
    intro p hp q hq heq
    obtain ⟨c, hc, rfl⟩ := List.mem_map.mp hp
    obtain ⟨d, hd, rfl⟩ := List.mem_map.mp hq
    exact hunique.inj c.ptr d.ptr (h.calls c hc).1 (h.calls d hd).1 heq

/-! ## Steps -/

theorem Inv.server (h : Inv s) (hext : Extends s.server m) : Inv { s with server := m } where
  nodup := h.nodup
  flushed id hid := by
    obtain ⟨rest, heq⟩ := hext.flushed
    show id ∈ m.flushed.map _
    rw [heq, List.map_append]
    exact List.mem_append_left _ (h.flushed id hid)
  keyed := h.keyed
  kept := h.kept
  fresh p hp := ⟨hext.isUser (h.fresh p hp).1, (h.fresh p hp).2⟩
  ack p id hack := by
    show id = (m.cmds p).base.taskId
    have hp : p ∈ s.caller.ptr := by
      cases hc : s.caller with
      | waiting q i => simp_all [Caller.ack, Caller.ptr]
      | got q i r => simp_all [Caller.ack, Caller.ptr]
      | _ => simp_all [Caller.ack]
    rw [hext.base p (h.fresh p hp).1.1]
    exact h.ack p id hack
  got := h.got
  calls c hc := by
    obtain ⟨huser, hack, hresult⟩ := h.calls c hc
    refine ⟨hext.isUser huser, ?_, hresult⟩
    show c.ack = (m.cmds c.ptr).base.taskId
    rw [hext.base c.ptr huser.1]
    exact hack
  distinct := h.distinct

/-- The caller goes on or its call fails. -/
theorem Inv.setCaller (h : Inv s) {c : Caller}
    (hfresh : ∀ p ∈ c.ptr, s.server.isUser p ∧ p ∉ s.calls.map Call.ptr)
    (hack : ∀ p id, (p, id) ∈ c.ack → id = (s.server.cmds p).base.taskId)
    (hgot : ∀ p id r, c = .got p id r → r.commandId = id) : Inv { s with caller := c } :=
  ⟨h.nodup, h.flushed, h.keyed, h.kept, hfresh, hack, hgot, h.calls, h.distinct⟩

theorem Inv.setPoller (h : Inv s) {w : Poller}
    (hnodup : (s.puts ++ w.batch.map CommandResult.commandId).Nodup)
    (hflushed : ∀ id ∈ s.puts ++ w.batch.map CommandResult.commandId,
      id ∈ s.server.flushed.map fun f => f.result.commandId) : Inv { s with poller := w } :=
  ⟨hnodup, hflushed, h.keyed, h.kept, h.fresh, h.ack, h.got, h.calls, h.distinct⟩

/-- The poll thread goes on with the results that it has. -/
theorem Inv.sameBatch (h : Inv s) {w : Poller} (hbatch : w.batch = s.poller.batch) :
    Inv { s with poller := w } := by
  apply h.setPoller
  · rw [hbatch]
    exact h.nodup
  · rw [hbatch]
    exact h.flushed

theorem isUser_makeCommand {hd : Handler} {name : String} {data : Any} {q : QueueId}
    (hname : handlers name = some hd) :
    (makeCommand handlers m name data q false false).isUser m.nextPtr := by
  constructor
  · simp [makeCommand, hname]
  · simp [makeCommand, hname, CommandManager.State.setCommand, Command.make]

/-- The command of a call is new, so no earlier call was for it. -/
theorem Inv.send {hd : Handler} {name : String} {data : Any} (h : Inv s)
    (hext : Extends s.server (makeCommand handlers s.server name data ids.command false false))
    (hname : handlers name = some hd) :
    Inv { s with
      server := makeCommand handlers s.server name data ids.command false false
      caller := .sent s.server.nextPtr } := by
  refine (h.server hext).setCaller (fun p hp => ?_) (fun _ _ hack => by cases hack)
    fun _ _ _ hgot => by cases hgot
  obtain rfl : s.server.nextPtr = p := Option.some.inj hp
  refine ⟨?_, fun hmem => ?_⟩
  · exact isUser_makeCommand hname
  · obtain ⟨c, hc, heq⟩ := List.mem_map.mp hmem
    exact Nat.ne_of_lt (h.calls c hc).1.1 heq

theorem Inv.erase (h : Inv s) {id : TaskId} {r : CommandResult} (hcaller : s.caller = .got p id r) :
    Inv { s with
      caller := .idle
      results := s.results.erase id
      calls := s.calls ++ [⟨p, id, r⟩] } := by
  have hfresh := h.fresh p (by rw [hcaller]; rfl)
  have hack := h.ack p id (by rw [hcaller]; rfl)
  have hgot := h.got p id r hcaller
  refine ⟨h.nodup, h.flushed, fun key item hl => ?_, h.kept, nofun, nofun, nofun, fun c hc => ?_, ?_⟩
  · by_cases hkey : key = id
    · rw [hkey, AList.lookup_erase] at hl
      cases hl
    · rw [AList.lookup_erase_ne hkey] at hl
      exact h.keyed key item hl
  · cases List.mem_append.mp hc with
    | inl hold => exact h.calls c hold
    | inr hnew =>
      rw [List.mem_singleton.mp hnew]
      exact ⟨hfresh.1, hack, hgot⟩
  · show (List.map Call.ptr (s.calls ++ [⟨p, id, r⟩])).Nodup
    rw [List.map_append]
    apply h.distinct.append (List.nodup_singleton _)
    intro q hq hnew
    have heq : q = p := List.mem_singleton.mp hnew
    rw [heq] at hq
    exact hfresh.2 hq

/-- What a poll brings was never flushed before, so it is new to the client. -/
theorem Inv.poll (h : Inv s) (hw : Wf m) (hunique : UniqueIds m) (hext : Extends s.server m) :
    Inv { s with
      server := m
      poller := .answered ((m.flushed.drop s.server.flushed.length).map Flushed.result) } := by
  obtain ⟨rest, heq⟩ := hext.flushed
  have hdrop : m.flushed.drop s.server.flushed.length = rest := by
    rw [heq]
    exact List.drop_left
  have hputs : ∀ id ∈ s.puts, id ∈ s.server.flushed.map fun f => f.result.commandId :=
    fun id hid => h.flushed id (List.mem_append_left _ hid)
  have hids := hw.flushed_ids_nodup hunique.inj
  rw [heq, List.map_append] at hids
  have hbatch : ((rest.map Flushed.result).map CommandResult.commandId) =
      rest.map fun f => f.result.commandId := List.map_map
  rw [hdrop]
  refine (h.server hext).setPoller ?_ fun id hid => ?_
  · show (s.puts ++ (rest.map Flushed.result).map CommandResult.commandId).Nodup
    rw [hbatch]
    apply (List.nodup_append.mp h.nodup).1.append (List.nodup_append.mp hids).2.1
    exact fun id hid hnew => (List.nodup_append.mp hids).2.2 id (hputs id hid) id hnew rfl
  · show id ∈ m.flushed.map fun f => f.result.commandId
    rw [heq, List.map_append]
    cases List.mem_append.mp hid with
    | inl hold => exact List.mem_append_left _ (hputs id hold)
    | inr hnew => exact List.mem_append_right _ (hbatch ▸ hnew)

theorem putNext_server (h : putNext s = some t) : t.server = s.server := by
  unfold putNext at h
  split at h
  · exact Option.some.inj h ▸ rfl
  · split at h <;> exact Option.some.inj h ▸ rfl
  · cases h

theorem Inv.putNext (h : Inv s) (hstep : putNext s = some t) : Inv t := by
  unfold Results.putNext at hstep
  split at hstep
  · next hp =>
    obtain rfl := Option.some.inj hstep
    apply h.sameBatch
    rw [hp]
    rfl
  · next r rs hp =>
    rw [put, if_neg (h.absent hp)] at hstep
    obtain rfl := Option.some.inj hstep
    -- the id moves from the batch to the ones that were put
    have hpolled : s.polled = (s.puts ++ [r.commandId]) ++ rs.map CommandResult.commandId := by
      unfold State.polled
      rw [hp]
      exact List.append_cons ..
    have hnodup := h.nodup
    have hflushed := h.flushed
    rw [hpolled] at hnodup hflushed
    refine ⟨hnodup, hflushed, fun key item hl => ?_, h.kept, h.fresh, h.ack, h.got, h.calls,
      h.distinct⟩
    by_cases hkey : key = r.commandId
    · rw [hkey, AList.lookup_insert] at hl
      rw [hkey, ← Option.some.inj hl]
      exact ⟨rfl, List.mem_append_right _ (List.mem_singleton_self _)⟩
    · rw [AList.lookup_insert_ne hkey] at hl
      exact ⟨(h.keyed key item hl).1, List.mem_append_left _ (h.keyed key item hl).2⟩
  · cases hstep

/-! ## Runs -/

structure Reached (s : State) : Prop where
  wf : Wf s.server
  inv : UniqueIds s.server → Inv s

theorem reached_init : Reached State.init := ⟨wf_init, fun _ => inv_init⟩

/-- A step of the client that leaves the server alone. -/
theorem Reached.client (h : Reached s) (hserver : t.server = s.server) (hinv : Inv s → Inv t) :
    Reached t where
  wf := hserver ▸ h.wf
  inv hunique := hinv (h.inv (hserver ▸ hunique))

theorem Reached.extend (h : Reached s) (hw : Wf t.server) (hext : Extends s.server t.server)
    (hinv : UniqueIds t.server → Inv s → Inv t) : Reached t where
  wf := hw
  inv hunique := hinv hunique (h.inv (hunique.of_extends hext))

theorem reached_step (h : Reached s) (hstep : step handlers ids s a = some t) : Reached t := by
  cases a with
  | server b =>
    obtain ⟨m, hm, rfl⟩ := Option.map_eq_some_iff.mp hstep
    have heff := step_effect hm
    have hext := extends_of_effect h.wf heff
    exact h.extend (wf_step h.wf heff) hext fun _ hinv => hinv.server hext
  | send name data =>
    have heff : Effect handlers s.server (.makeCommand name data ids.command false false)
      (makeCommand handlers s.server name data ids.command false false) := step_effect rfl
    have hw := wf_step h.wf heff
    have hext := extends_of_effect h.wf heff
    rw [step] at hstep
    split at hstep
    · dsimp only at hstep
      split at hstep
      · obtain rfl := Option.some.inj hstep
        exact h.extend hw hext fun _ hinv => hinv.server hext
      · next hd hname =>
        obtain rfl := Option.some.inj hstep
        exact h.extend hw hext fun _ hinv => hinv.send hext hname
    · cases hstep
  | receiveAck =>
    rw [step] at hstep
    split at hstep
    · next p hcaller =>
      obtain ⟨-, hstep⟩ := Option.ite_none_left_eq_some.mp hstep
      obtain rfl := Option.some.inj hstep
      refine h.client rfl fun hinv => hinv.setCaller (fun q hq => ?_) (fun q id hack => ?_) nofun
      · rw [← Option.some.inj hq]
        exact hinv.fresh p (by rw [hcaller]; rfl)
      · obtain ⟨rfl, rfl⟩ := Prod.mk.inj (Option.some.inj hack)
        rfl
    · cases hstep
  | sendFails =>
    rw [step] at hstep
    split at hstep
    · obtain rfl := Option.some.inj hstep
      exact h.client rfl fun hinv => hinv.setCaller nofun nofun nofun
    · cases hstep
  | getReturns =>
    rw [step] at hstep
    split at hstep
    · next p id hcaller =>
      obtain ⟨r, hl, rfl⟩ := Option.map_eq_some_iff.mp hstep
      refine h.client rfl fun hinv => hinv.setCaller ?_ ?_ fun q i r' heq => ?_
      · have hfresh := hinv.fresh
        rw [hcaller] at hfresh
        exact hfresh
      · have hack := hinv.ack
        rw [hcaller] at hack
        exact hack
      · obtain ⟨-, rfl, rfl⟩ := Caller.got.inj heq
        exact (hinv.keyed id r hl).1
    · cases hstep
  | getThrows =>
    rw [step] at hstep
    split at hstep
    · obtain ⟨-, hstep⟩ := Option.ite_none_left_eq_some.mp hstep
      obtain rfl := Option.some.inj hstep
      exact h.client rfl fun hinv => hinv.setCaller nofun nofun nofun
    · cases hstep
  | erase =>
    rw [step] at hstep
    split at hstep
    · next p id r hcaller =>
      obtain rfl := Option.some.inj hstep
      exact h.client rfl fun hinv => hinv.erase hcaller
    · cases hstep
  | poll createdAt late =>
    rw [step] at hstep
    split at hstep
    · obtain ⟨m, hpop, rfl⟩ := Option.map_eq_some_iff.mp hstep
      have heff : Effect handlers s.server (.popResults ids.polled createdAt late) m :=
        .popResults m ids.polled createdAt late hpop
      have hw := wf_step h.wf heff
      have hext := extends_of_effect h.wf heff
      exact h.extend hw hext fun hunique hinv => hinv.poll hw hunique hext
    · cases hstep
  | receiveResults =>
    rw [step] at hstep
    split at hstep
    · next rs hp =>
      obtain rfl := Option.some.inj hstep
      refine h.client rfl fun hinv => hinv.sameBatch ?_
      rw [hp]
      rfl
    · cases hstep
  | pollFails =>
    rw [step] at hstep
    split at hstep
    · obtain rfl := Option.some.inj hstep
      refine h.client rfl fun hinv => hinv.setPoller ?_ fun id hid => ?_
      · show (s.puts ++ []).Nodup
        rw [List.append_nil]
        exact (List.nodup_append.mp hinv.nodup).1
      · have hid' : id ∈ s.puts ++ [] := hid
        rw [List.append_nil] at hid'
        exact hinv.flushed id (List.mem_append_left _ hid')
    · cases hstep
  | put => exact h.client (putNext_server hstep) fun hinv => hinv.putNext hstep

/-- In every run of the client and the server in which the ids of the server are unique, every call
gets the result of its own command, no result is handed out twice, and none is dropped by `put`. -/
theorem own_results {acts : List Action} (hrun : run (step handlers ids) State.init acts = some s)
    (hunique : UniqueIds s.server) : OwnResults s := by
  have h : Reached s := run_invariant (fun _ _ _ => reached_step) reached_init hrun
  exact (h.inv hunique).ownResults hunique

/-- The caller reads the ack of command `p`, and the server executes it. -/
def ackAndExecute (p : CommandPtr) : List Action :=
  [.server (.emplace p), .receiveAck] ++ List.replicate 4 (.server .work) ++
    [.server (.fnReturns [8])] ++ List.replicate 6 (.server .work)

/-- The result of the first call comes after it has given up; the second call gets its own. -/
def lateResult : List Action :=
  (connect 1 ++ connect 2).map .server ++ [.send "StoreValue" [7]] ++ ackAndExecute 2 ++
    [.getThrows, .server (.lookupQueue 1), .poll 1 [], .receiveResults, .put, .put,
      .send "GetValue" [9]] ++ ackAndExecute 3 ++
    [.server (.lookupQueue 1), .poll 1 [], .receiveResults, .put, .getReturns, .put, .erase]

theorem lateResult_own_results :
    ∃ s, run (step (fun _ => some plainHandler) ⟨1, 2⟩) State.init lateResult = some s ∧
      s.puts = [3, 4] ∧ s.calls.map Call.ack = [4] ∧ OwnResults s := by
  have hrun : run (step (fun _ => some plainHandler) ⟨1, 2⟩) State.init lateResult =
    some ((run (step (fun _ => some plainHandler) ⟨1, 2⟩) State.init lateResult).get (by decide)) := by
    simp
  exact ⟨_, hrun, by decide, by decide, own_results hrun (by decide)⟩

end Ra2yrcpp.MultiClient.Results
