import Ra2yrcpp.CommandManager.Model

/-!
# What one step of the command manager can do

`UserMove` lists the moves of the worker inside `emplace_user_command` that touch only the command it
holds.  `Effect` lists everything a step can do to the state; the invariants of the manager are
proved by cases on it.
-/

open Ra2yrcpp.Reasoning

namespace Ra2yrcpp.CommandManager

/-- From a command `c` at one stage to the next: what the worker, the function of the handler or the
closure it posted do. -/
inductive UserMove (h : Handler) (c : Command) : Stage → Command → Stage → Prop
  | reset : UserMove h c .taken { c with resultCode := .none } .reset
  | construct : UserMove h c .reset c (.constructed (h.unpackTo c.M))
  | allocate (m : Message) (hasync : h.async = true) :
      UserMove h c (.constructed m) (c.saveCommandResult h m).1
        (.allocated (c.saveCommandResult h m).2)
  | enter (m : Message) (hasync : h.async = false) : UserMove h c (.constructed m) c (.body m)
  | setPending (m : Message) : UserMove h c (.allocated m) { c with pending := true } (.body m)
  | post (m : Message) (hbody : h.body = .getSystemState) :
      UserMove h c (.body m) c (.posting m false)
  | runPosted (m m' : Message) : UserMove h c (.posting m false) c (.posting m' true)
  | setAsyncHandler (m : Message) (hbody : h.body = .gameloop) :
      UserMove h c (.body m) { c with pending := true } (.handlerSet m)
  | fnReturns (st : Stage) (m : Message) (hst : st.inFunction h.body = true)
      (hbody : h.body ≠ .gameloop) : UserMove h c st c (.closing m none)
  | fnThrows (st : Stage) (m : Message) (msg : String) (hst : st.inFunction h.body = true) :
      UserMove h c st c (.thrown m msg)
  | clear (m : Message) (msg : String) :
      UserMove h c (.thrown m msg) { c with M := [] } (.closing m (some msg))
  | skip (m : Message) (o : Option String) (hpending : c.pending = true) :
      UserMove h c (.closing m o) c (.handled o)
  | read (m : Message) (o : Option String) (hpending : c.pending = false) :
      UserMove h c (.closing m o) c (.packing m o)
  | pack (m : Message) (o : Option String) :
      UserMove h c (.packing m o) { c with M := h.packFrom m } (.handled o)
  | callback : UserMove h c (.handled none) c .called
  | callbackThrows (msg : String) : UserMove h c (.handled none) c (.handled (some msg))
  | assign (msg : String) :
      UserMove h c (.handled (some msg)) { c with errorMessage := msg } .erring
  | storeOk : UserMove h c .called { c with resultCode := .ok } .finished
  | storeError : UserMove h c .erring { c with resultCode := .error } .finished

/-- The stages that the closure posted by the handler, or the done callback, ends. -/
def Stage.foreign : Stage → Bool
  | .posting _ done => !done
  | .handled none => true
  | _ => false

/-- What the game thread does to the command of the item it runs. -/
inductive GameMove (c : Command) : GamePoint → Command → Option GamePoint → Prop
  | assign (msg : String) : GameMove c (.caught msg) { c with errorMessage := msg } (some .assigned)
  | storeError : GameMove c .assigned { c with resultCode := .error } (some .finished)
  | clearPending : GameMove c .finished { c with pending := false } none

inductive Effect (handlers : String → Option Handler) (s : State) : Action → State → Prop
  | makeFailed (name : String) (data : Any) (q : QueueId) (discard done : Bool) :
      Effect handlers s (.makeCommand name data q discard done)
        { s with commandCounter := nextCounter s, created := s.created + 1 }
  | makeUser (name : String) (data : Any) (q : QueueId) (discard done : Bool) (h : Handler) :
      Effect handlers s (.makeCommand name data q discard done)
        { s with
          cmds := Function.update s.cmds s.nextPtr
            ⟨⟨name, q, nextCounter s, 0, .user⟩, some h, data, .none, false, discard, "", done⟩
          commandCounter := nextCounter s
          created := s.created + 1
          nextPtr := s.nextPtr + 1
          made := s.made ++ [s.nextPtr] }
  | makeBuiltin (a : Action) (q : QueueId) (size : Nat) (ty : CommandType) (io : IoThread)
      (ha : a ≠ .work) (hty : ty ≠ .user)
      (hio : io = s.io ∨ io = .made s.nextPtr ∧ s.io = .idle ∧ ty ≠ .shutdown) :
      Effect handlers s a { makeBuiltinCommand s q size ty with io := io }
  | emplace (p : CommandPtr) (hmade : p ∈ s.made) (hty : (s.cmds p).base.type = .user)
      (hlock : s.worker.locksQueue = false) :
      Effect handlers s (.emplace p)
        { enqueueCommand s p with acks := s.acks ++ [(s.cmds p).base.taskId] }
  | enqueue (p : CommandPtr) (waiting : List CommandPtr) (hmade : p ∈ s.made)
      (hty : (s.cmds p).base.type ≠ .user) (hio : s.io ≠ .made p)
      (hlock : s.worker.locksQueue = false) :
      Effect handlers s (.enqueue p) { enqueueCommand s p with waiting := waiting }
  | ioEnqueues (p : CommandPtr) (hio : s.io = .made p) (hlock : s.worker.locksQueue = false) :
      Effect handlers s .ioEnqueues { enqueueCommand s p with io := .waiting p }
  | returns (p : CommandPtr) :
      Effect handlers s (.returns p) { s with waiting := s.waiting.erase p }
  | ioReturns (p : CommandPtr) (hio : s.io = .waiting p) (hcode : (s.cmds p).resultCode ≠ .none) :
      Effect handlers s .ioReturns { s with io := .idle }
  | take (p : CommandPtr) (rest : List CommandPtr) (hw : s.worker = .idle)
      (hq : s.workQueue = p :: rest) :
      Effect handlers s .work { s with
        workQueue := Heap.pop (queueCompare s.cmds) s.workQueue
        worker := if (s.cmds p).base.type = .user then .user p .taken else .builtin p false }
  | createQueue (p : CommandPtr) (hw : s.worker = .builtin p false)
      (hty : (s.cmds p).base.type = .createQueue) :
      Effect handlers s .work
        { createQueue s (s.cmds p).base.queueId (s.cmds p).base.queueSize with
          worker := .builtin p true }
  | destroyQueue (p : CommandPtr) (hw : s.worker = .builtin p false)
      (hty : (s.cmds p).base.type = .destroyQueue) :
      Effect handlers s .work
        { destroyQueue s (s.cmds p).base.queueId with worker := .builtin p true }
  | shutdown (p : CommandPtr) (hw : s.worker = .builtin p false)
      (hty : (s.cmds p).base.type = .shutdown) :
      Effect handlers s .work { s with worker := .exited, executed := s.executed ++ [p] }
  | finishBuiltin (p : CommandPtr) (hw : s.worker = .builtin p true) :
      Effect handlers s .work (finishBuiltin s p)
  | userMove (a : Action) (p : CommandPtr) (st st' : Stage) (h : Handler) (c : Command)
      (hw : s.worker = .user p st) (hh : st.foreign = false → (s.cmds p).handler = some h)
      (hmove : UserMove h (s.cmds p) st c st')
      (hposted : ∀ m, st = .posting m false → s.io = .idle)
      (hassign : ∀ msg, st = .handled (some msg) → a = .work) :
      Effect handlers s a (s.advance p c st')
  | putWork (p : CommandPtr) (m : Message) (hw : s.worker = .user p (.handlerSet m)) :
      Effect handlers s .work { s.advance p (s.cmds p) (.closing m none) with
        work := ⟨⟨s.work.q.q ++ [p]⟩, s.work.maxSize⟩ }
  | recordPending (p : CommandPtr) (hw : s.worker = .user p .finished) :
      Effect handlers s .work { s.advance p (s.cmds p) .storing with
        pendingCommands := if (s.cmds p).pending then
          s.pendingCommands ++ [(s.cmds p).base.taskId] else s.pendingCommands }
  | store (t : State) (p : CommandPtr) (hw : s.worker = .user p .storing)
      (hstore : storeResult s p = some t) :
      Effect handlers s .work t
  | lookupFails (id : QueueId) : Effect handlers s (.lookupQueue id) s
  | lookupQueue (id : QueueId) (rq : ResultQueue) (hl : s.results.lookup id = some rq) :
      Effect handlers s (.lookupQueue id) { s with flushes := s.flushes ++ [(id, rq.createdAt)] }
  | popResults (t : State) (id : QueueId) (createdAt : Nat) (late : List CommandPtr)
      (hpop : popResults s id createdAt late = some t) :
      Effect handlers s (.popResults id createdAt late) t
  | drain (hgame : s.game = ⟨[], none⟩) :
      Effect handlers s .drain { s with
        work := ⟨⟨[]⟩, s.work.maxSize⟩
        game := ⟨s.work.q.q, none⟩ }
  | startItem (p : CommandPtr) (items : List CommandPtr) (hgame : s.game = ⟨p :: items, none⟩)
      (howned : s.owned p = true) :
      Effect handlers s .startItem { s with game := ⟨items, some (p, .calling)⟩ }
  | handlerPacks (p : CommandPtr) (any : Any) (hgame : s.game.current = some (p, .calling))
      (howned : s.owned p = true) :
      Effect handlers s (.handlerPacks any) { s.setCommand p { s.cmds p with M := any } with
        asyncPacked := Function.update s.asyncPacked p (some any) }
  | handlerReturns (p : CommandPtr) (hgame : s.game.current = some (p, .calling))
      (howned : s.owned p = true) :
      Effect handlers s .handlerReturns { s with game := ⟨s.game.items, some (p, .finished)⟩ }
  | handlerThrows (p : CommandPtr) (msg : String) (hgame : s.game.current = some (p, .calling))
      (howned : s.owned p = true) :
      Effect handlers s (.handlerThrows msg) { s with
        game := ⟨s.game.items, some (p, .caught msg)⟩
        asyncThrew := Function.update s.asyncThrew p (some msg) }
  | finishItem (p : CommandPtr) (pt : GamePoint) (c : Command) (pt' : Option GamePoint)
      (hgame : s.game.current = some (p, pt)) (howned : s.owned p = true)
      (hmove : GameMove (s.cmds p) pt c pt') :
      Effect handlers s .finishItem { s.setCommand p c with
        game := ⟨s.game.items, pt'.map fun x => (p, x)⟩ }

/-! ## Every step has an effect -/

variable {handlers : String → Option Handler} {s t : State} {a : Action}

theorem userMove_effect {p : CommandPtr} {st st' : Stage} {h : Handler} {c : Command}
    (hw : s.worker = .user p st) (hh : (s.cmds p).handler = some h)
    (hmove : UserMove h (s.cmds p) st c st') (hst : ∀ m, st ≠ .posting m false) :
    Effect handlers s .work (s.advance p c st') :=
  .userMove _ p st st' h c hw (fun _ => hh) hmove (fun m hp => absurd hp (hst m)) fun _ _ => rfl

theorem userStep_effect {p : CommandPtr} {st : Stage} (hw : s.worker = .user p st)
    (h : userStep s p st = some t) : Effect handlers s .work t := by
  simp only [userStep] at h
  -- one case for each line of `userStep`
  split at h
  · rename_i hh
    obtain rfl := Option.some.inj h
    exact userMove_effect hw hh .reset (by simp)
  · rename_i hh
    obtain rfl := Option.some.inj h
    exact userMove_effect hw hh .construct (by simp)
  · rename_i hd m hh
    split at h
    · rename_i hasync
      obtain rfl := Option.some.inj h
      exact userMove_effect hw hh (.allocate m hasync) (by simp)
    · rename_i hasync
      obtain rfl := Option.some.inj h
      exact userMove_effect hw hh (.enter m (Bool.eq_false_iff.mpr hasync)) (by simp)
  · rename_i m hh
    obtain rfl := Option.some.inj h
    exact userMove_effect hw hh (.setPending m) (by simp)
  · rename_i hd m hh
    split at h
    · cases h
    · rename_i hbody
      obtain rfl := Option.some.inj h
      exact userMove_effect hw hh (.post m hbody) (by simp)
    · rename_i hbody
      obtain rfl := Option.some.inj h
      exact userMove_effect hw hh (.setAsyncHandler m hbody) (by simp)
  · cases h
  · rename_i m hh
    -- `CBGameCommand::work` is unbounded, so `put_work` never waits
    obtain ⟨w, hemplace, rfl⟩ := Option.map_eq_some_iff.mp h
    obtain ⟨-, rfl⟩ := AsyncQueue.stdQueue_emplace_eq_some.mp hemplace
    exact .putWork p m hw
  · rename_i m msg hh
    obtain rfl := Option.some.inj h
    exact userMove_effect hw hh (.clear m msg) (by simp)
  · rename_i m o hh
    split at h
    · rename_i hpending
      obtain rfl := Option.some.inj h
      exact userMove_effect hw hh (.skip m o hpending) (by simp)
    · rename_i hpending
      obtain rfl := Option.some.inj h
      exact userMove_effect hw hh (.read m o (Bool.eq_false_iff.mpr hpending)) (by simp)
  · rename_i hd m o hh
    obtain rfl := Option.some.inj h
    exact userMove_effect hw hh (.pack m o) (by simp)
  · rename_i hh
    obtain rfl := Option.some.inj h
    exact userMove_effect hw hh .callback (by simp)
  · rename_i msg hh
    obtain rfl := Option.some.inj h
    exact userMove_effect hw hh (.assign msg) (by simp)
  · rename_i hh
    obtain rfl := Option.some.inj h
    exact userMove_effect hw hh .storeOk (by simp)
  · rename_i hh
    obtain rfl := Option.some.inj h
    exact userMove_effect hw hh .storeError (by simp)
  · obtain rfl := Option.some.inj h
    exact .recordPending p hw
  · exact .store t p hw h
  · cases h

theorem work_effect (h : work s = some t) : Effect handlers s .work t := by
  unfold work at h
  split at h
  · rename_i hw
    unfold take at h
    split at h
    · rename_i p rest hw hq
      obtain rfl := Option.some.inj h
      exact .take p rest hw hq
    · cases h
  · rename_i p hw
    simp only [executeBuiltin] at h
    split at h
    · rename_i hty
      obtain rfl := Option.some.inj h
      exact .createQueue p hw hty
    · rename_i hty
      obtain rfl := Option.some.inj h
      exact .destroyQueue p hw hty
    · rename_i hty
      obtain rfl := Option.some.inj h
      exact .shutdown p hw hty
    · cases h
  · rename_i p hw
    obtain rfl := Option.some.inj h
    exact .finishBuiltin p hw
  · rename_i p st hw
    exact userStep_effect hw h
  · cases h

/-! ### The function of the handler, its closure and the done callback -/

theorem fnReturns_effect {m : Message} (h : fnReturns s m = some t) : Effect handlers s a t := by
  unfold fnReturns at h
  split at h
  · rename_i p st hw
    split at h
    · rename_i hd hh
      split at h
      · rename_i hc
        obtain rfl := Option.some.inj h
        refine .userMove a p st _ hd _ hw (fun _ => hh) (.fnReturns st m hc.1 hc.2) ?_ ?_
        · rintro m rfl
          simp [Stage.inFunction] at hc
        · rintro msg rfl
          cases hc.1
      · cases h
    · cases h
  · cases h

theorem fnThrows_effect {m : Message} {msg : String} (h : fnThrows s m msg = some t) :
    Effect handlers s a t := by
  unfold fnThrows at h
  split at h
  · rename_i p st hw
    split at h
    · rename_i hd hh
      split at h
      · rename_i hc
        obtain rfl := Option.some.inj h
        refine .userMove a p st _ hd _ hw (fun _ => hh) (.fnThrows st m msg hc) ?_ ?_
        · rintro m rfl
          simp [Stage.inFunction] at hc
        · rintro msg rfl
          cases hc
      · cases h
    · cases h
  · cases h

theorem callbackThrows_effect {msg : String} (h : callbackThrows s msg = some t) :
    Effect handlers s a t := by
  unfold callbackThrows at h
  split at h
  · rename_i p hw
    split at h
    · obtain rfl := Option.some.inj h
      -- the handler has no part in this move, so any will do
      exact .userMove a p _ _ ⟨false, .plain, id, id⟩ _ hw (fun hf => by cases hf)
        (.callbackThrows msg) (by simp) (by simp)
    · cases h
  · cases h

theorem ioRunsPosted_effect {m : Message} (h : ioRunsPosted s m = some t) :
    Effect handlers s a t := by
  unfold ioRunsPosted at h
  split at h
  · rename_i p m' hio hw
    obtain rfl := Option.some.inj h
    exact .userMove a p _ _ ⟨false, .plain, id, id⟩ _ hw (fun hf => by cases hf)
      (.runPosted m' m) (fun _ _ => hio) (by simp)
  · cases h

/-! ### The game thread -/

theorem drain_effect (h : drain s = some t) : Effect handlers s .drain t := by
  unfold drain at h
  split at h
  · rename_i hgame
    -- all items, in the order they were put
    rw [AsyncQueue.popRound_stdQueue] at h
    obtain rfl := Option.some.inj h
    exact .drain hgame
  · cases h

theorem startItem_effect (h : startItem s = some t) : Effect handlers s .startItem t := by
  unfold startItem at h
  split at h
  · rename_i p items hgame
    split at h
    · rename_i howned
      obtain rfl := Option.some.inj h
      exact .startItem p items hgame howned
    · cases h
  · cases h

theorem handlerPacks_effect {any : Any} (h : handlerPacks s any = some t) :
    Effect handlers s (.handlerPacks any) t := by
  unfold handlerPacks at h
  split at h
  · rename_i p hgame
    split at h
    · rename_i howned
      obtain rfl := Option.some.inj h
      exact .handlerPacks p any hgame howned
    · cases h
  · cases h

theorem handlerReturns_effect (h : handlerReturns s = some t) :
    Effect handlers s .handlerReturns t := by
  unfold handlerReturns at h
  split at h
  · rename_i p hgame
    split at h
    · rename_i howned
      obtain rfl := Option.some.inj h
      exact .handlerReturns p hgame howned
    · cases h
  · cases h

theorem handlerThrows_effect {msg : String} (h : handlerThrows s msg = some t) :
    Effect handlers s (.handlerThrows msg) t := by
  unfold handlerThrows at h
  split at h
  · rename_i p hgame
    split at h
    · rename_i howned
      obtain rfl := Option.some.inj h
      exact .handlerThrows p msg hgame howned
    · cases h
  · cases h

theorem finishItem_effect (h : finishItem s = some t) : Effect handlers s .finishItem t := by
  simp only [finishItem] at h
  split at h
  · rename_i p pt hgame
    split at h
    · rename_i howned
      cases pt with
      | calling => cases h
      | caught msg =>
        obtain rfl := Option.some.inj h
        exact .finishItem p _ _ _ hgame howned (.assign msg)
      | assigned =>
        obtain rfl := Option.some.inj h
        exact .finishItem p _ _ _ hgame howned .storeError
      | finished =>
        obtain rfl := Option.some.inj h
        exact .finishItem p _ _ _ hgame howned .clearPending
    · cases h
  · cases h

/-! ### The io thread -/

theorem ioMakes_effect {q : QueueId} {size : Nat} {ty : CommandType}
    (h : ioMakes s q size ty = some t) : Effect handlers s (.ioMakes q size ty) t := by
  unfold ioMakes at h
  split at h
  · rename_i hc
    obtain rfl := Option.some.inj h
    have hty : ty ≠ .user ∧ ty ≠ .shutdown := by
      rcases hc.2 with rfl | rfl <;> decide
    exact .makeBuiltin _ q size ty _ (by simp) hty.1 (Or.inr ⟨rfl, hc.1, hty.2⟩)
  · cases h

theorem ioEnqueues_effect (h : ioEnqueues s = some t) : Effect handlers s .ioEnqueues t := by
  unfold ioEnqueues at h
  split at h
  · rename_i p hio
    split at h
    · cases h
    · rename_i hlock
      obtain rfl := Option.some.inj h
      exact .ioEnqueues p hio (Bool.eq_false_iff.mpr hlock)
  · cases h

theorem ioReturns_effect (h : ioReturns s = some t) : Effect handlers s .ioReturns t := by
  unfold ioReturns at h
  split at h
  · rename_i p hio
    split at h
    · cases h
    · rename_i hcode
      obtain rfl := Option.some.inj h
      exact .ioReturns p hio hcode
  · cases h

theorem step_effect (h : step handlers s a = some t) : Effect handlers s a t := by
  cases a with
  | makeCommand name data q discard done =>
    obtain rfl := Option.some.inj h
    unfold makeCommand
    dsimp only
    split
    -- handlers_.at(name) throws
    · exact .makeFailed name data q discard done
    · exact .makeUser name data q discard done _
  | emplace p =>
    simp only [step] at h
    split at h
    · rename_i hc
      obtain rfl := Option.some.inj h
      exact .emplace p hc.1 hc.2.1 hc.2.2
    · cases h
  | makeBuiltin q size ty =>
    simp only [step] at h
    split at h
    · cases h
    · rename_i hty
      obtain rfl := Option.some.inj h
      exact .makeBuiltin _ q size ty s.io (by simp) hty (Or.inl rfl)
  | enqueue p =>
    simp only [step] at h
    split at h
    · rename_i hc
      obtain rfl := Option.some.inj h
      exact .enqueue p _ hc.1 hc.2.1 hc.2.2.1 hc.2.2.2
    · cases h
  | returns p =>
    simp only [step] at h
    split at h
    · obtain rfl := Option.some.inj h
      exact .returns p
    · cases h
  | ioMakes q size ty => exact ioMakes_effect h
  | ioEnqueues => exact ioEnqueues_effect h
  | ioReturns => exact ioReturns_effect h
  | ioRunsPosted m => exact ioRunsPosted_effect h
  | work => exact work_effect h
  | fnReturns m => exact fnReturns_effect h
  | fnThrows m msg => exact fnThrows_effect h
  | callbackThrows msg => exact callbackThrows_effect h
  | lookupQueue id =>
    obtain rfl := Option.some.inj h
    unfold CommandManager.lookupQueue
    split
    · exact .lookupFails id
    · rename_i rq hl
      exact .lookupQueue id rq hl
  | popResults id createdAt late => exact .popResults t id createdAt late h
  | drain => exact drain_effect h
  | startItem => exact startItem_effect h
  | handlerPacks any => exact handlerPacks_effect h
  | handlerReturns => exact handlerReturns_effect h
  | handlerThrows msg => exact handlerThrows_effect h
  | finishItem => exact finishItem_effect h

end Ra2yrcpp.CommandManager
