import Ra2yrcpp.CommandManager.GameWork

/-!
# Results of asynchronous handlers

The worker and the game thread write to one command: the worker its result code, and in the
destructor of `ISCommand` its message, unless it sees the `pending` flag; the game thread the message,
an error, and last the flag.  When the game thread is faster than the worker, the worker's writes
come second and replace what the asynchronous handler left.
-/

open Ra2yrcpp.Reasoning

namespace Ra2yrcpp.CommandManager

variable {handlers : String → Option Handler} {s t : State} {a : Action} {p : CommandPtr}

/-- A command whose asynchronous handler threw is reported as failed, with the handler's message. -/
def ErrorsReported (s : State) : Prop :=
  ∀ f ∈ s.flushed, ∀ msg ∈ s.asyncThrew f.ptr,
    f.result.resultCode = .error ∧ f.result.errorMessage = msg

/-- A flushed command carries what its asynchronous handler packed. -/
def PayloadsKept (s : State) : Prop :=
  ∀ f ∈ s.flushed, ∀ any ∈ s.asyncPacked f.ptr, f.result.result = any

instance (s : State) : Decidable (ErrorsReported s) :=
  inferInstanceAs (Decidable (∀ f ∈ s.flushed, ∀ msg ∈ s.asyncThrew f.ptr, _ ∧ _))

instance (s : State) : Decidable (PayloadsKept s) :=
  inferInstanceAs (Decidable (∀ f ∈ s.flushed, ∀ any ∈ s.asyncPacked f.ptr, _ = _))

/-! ## A frame between `put_work` and the worker's next store -/

/-- The command is in `CBGameCommand::work`, the worker about to destroy the `ISCommand`. -/
def workPut : List Action :=
  connect 1 ++ [.makeCommand "PlaceQuery" [7] 1 false false, .emplace 1] ++ List.replicate 7 .work

/-- The rest of `emplace_user_command`, and a poll. -/
def finishAndPoll (n : Nat) : List Action :=
  List.replicate n .work ++ [.lookupQueue 1, .popResults 1 1 []]

/-- The game thread runs the handler, which throws, before the worker goes on. -/
def throwsEarly : List Action :=
  workPut ++ [.drain, .startItem, .handlerThrows "invalid house", .finishItem, .finishItem,
    .finishItem] ++ finishAndPoll 6

theorem failed_command_reported_ok :
    ∃ s, run (step fun _ => some gameloopHandler) State.init throwsEarly = some s ∧
      s.asyncThrew 1 = some "invalid house" ∧
      s.flushed.map (fun f => f.result.resultCode) = [.ok] ∧ ¬ ErrorsReported s := by
  refine ⟨(run (step fun _ => some gameloopHandler) State.init throwsEarly).get (by decide),
    by simp, by decide, by decide, fun h => ?_⟩
  have herr := h ⟨1, 0, ⟨2, [7], .ok, ""⟩⟩ (by decide) "invalid house" (by decide)
  exact absurd herr.1 (by decide)

/-- The game thread runs the handler, which packs `[9]`, before the worker goes on. -/
def packsEarly : List Action :=
  workPut ++ [.drain, .startItem, .handlerPacks [9], .handlerReturns, .finishItem] ++ finishAndPoll 6

theorem packed_payload_lost :
    ∃ s, run (step fun _ => some gameloopHandler) State.init packsEarly = some s ∧
      s.asyncPacked 1 = some [9] ∧ s.flushed.map (fun f => f.result.result) = [[7]] ∧
      ¬ PayloadsKept s := by
  refine ⟨(run (step fun _ => some gameloopHandler) State.init packsEarly).get (by decide),
    by simp, by decide, by decide, by decide⟩

/-! ## Where the worker is -/

/-- The worker may still store `OK`, or an error message of its own. -/
def Stage.beforeOk : Stage → Bool
  | .erring => false
  | .finished => false
  | .storing => false
  | _ => true

/-- The next store is that of the worker's own error message. -/
def Stage.hasError : Stage → Bool
  | .handled (some _) => true
  | _ => false

/-- The destructor of `ISCommand` is still to read the flag. -/
def Stage.beforeRead : Stage → Bool
  | .closing _ _ => true
  | st => st.beforePut

/-- The worker executes the command and is at a stage of this kind. -/
def State.workerAt (s : State) (kind : Stage → Bool) (p : CommandPtr) : Bool :=
  match s.worker with
  | .user q st => q == p && kind st
  | _ => false

/-- Once the game thread has assigned the message of an exception, the worker does not assign one of
its own, and it has stored the result code before the game thread does. -/
def ErrorAfterStore (s : State) (a : Action) : Prop :=
  ∀ e ∈ s.game.current, e.2 = .assigned →
    (a = .work → s.workerAt Stage.hasError e.1 = false) ∧
    (a = .finishItem → s.workerAt Stage.beforeOk e.1 = false)

/-- The game thread clears the flag of a command whose handler packed a result only after the
destructor of the worker's `ISCommand` has read it. -/
def ClearAfterRead (s : State) (a : Action) : Prop :=
  a = .finishItem → ∀ e ∈ s.game.current, e.2 = .finished → (s.asyncPacked e.1).isSome = true →
    s.workerAt Stage.beforeRead e.1 = false

instance (s : State) (a : Action) : Decidable (ErrorAfterStore s a) :=
  inferInstanceAs (Decidable
    (∀ e ∈ s.game.current, e.2 = .assigned → (_ → _ = false) ∧ (_ → _ = false)))

instance (s : State) (a : Action) : Decidable (ClearAfterRead s a) :=
  inferInstanceAs (Decidable
    (a = .finishItem → ∀ e ∈ s.game.current, e.2 = .finished → _ → _ = false))

theorem workerAt_user {kind : Stage → Bool} {st : Stage} (hst : s.worker = .user p st) :
    s.workerAt kind p = kind st := by
  unfold State.workerAt
  rw [hst]
  simp

theorem workerAt_of_ne {kind : Stage → Bool} (h : ∀ st, s.worker ≠ .user p st) :
    s.workerAt kind p = false := by
  unfold State.workerAt
  split
  · rename_i q st hst
    have hne : q ≠ p := by
      rintro rfl
      exact h st hst
    simp [hne]
  · rfl

theorem hasError_of_beforeOk (h : s.workerAt Stage.beforeOk p = false) :
    s.workerAt Stage.hasError p = false := by
  unfold State.workerAt at h ⊢
  split at h
  · rename_i q st hst
    cases st with
    | erring | finished | storing => exact Bool.and_false _
    | _ =>
      rw [show (q == p) = false from by simpa [Stage.beforeOk] using h]
      rfl
  · rfl

theorem UserMove.errorMessage {h : Handler} {c c' : Command} {st st' : Stage}
    (hmove : UserMove h c st c' st') (hst : st.hasError = false) :
    c'.errorMessage = c.errorMessage := by
  cases hmove with
  | allocate m hasync =>
    unfold Command.saveCommandResult
    split <;> rfl
  | assign msg => cases hst
  | _ => rfl

theorem UserMove.storesError {h : Handler} {c c' : Command} {st st' : Stage}
    (hmove : UserMove h c st c' st') (hst : st.beforeOk = false) :
    st'.beforeOk = false ∧ c'.resultCode = .error := by
  cases hmove with
  | storeError => exact ⟨rfl, rfl⟩
  | fnReturns _ m hin hbody => cases st <;> first | cases hin | cases hst
  | fnThrows _ m msg hin => cases st <;> first | cases hin | cases hst
  | _ => cases hst

/-- A step in which the worker leaves the error of a command as it is. -/
structure Settled (s t : State) (p : CommandPtr) : Prop where
  errorMessage : (t.cmds p).errorMessage = (s.cmds p).errorMessage
  resultCode : s.workerAt Stage.beforeOk p = false → (s.cmds p).resultCode = .error →
    t.workerAt Stage.beforeOk p = false ∧ (t.cmds p).resultCode = .error

theorem settled_of_cmds (hcmds : t.cmds p = s.cmds p)
    (hworker : s.workerAt Stage.beforeOk p = false → t.workerAt Stage.beforeOk p = false) :
    Settled s t p :=
  ⟨by rw [hcmds], fun hat hcode => ⟨hworker hat, by rw [hcmds]; exact hcode⟩⟩

theorem settled_of_ne (hcmds : t.cmds p = s.cmds p) (hworker : ∀ st, t.worker ≠ .user p st) :
    Settled s t p :=
  settled_of_cmds hcmds fun _ => workerAt_of_ne hworker

theorem workerAt_congr {kind : Stage → Bool} (h : t.worker = s.worker) (p : CommandPtr) :
    t.workerAt kind p = s.workerAt kind p := by
  unfold State.workerAt
  rw [h]

theorem settled_of_worker (hcmds : t.cmds p = s.cmds p) (hworker : t.worker = s.worker) :
    Settled s t p :=
  settled_of_cmds hcmds (workerAt_congr hworker p).trans

/-- A step in which the game thread stays where it is, and the worker assigns no error. -/
theorem Effect.settled (heff : Effect handlers s a t) (hw : Wf s) (hput : Put s p)
    (hwork : a = .work → s.workerAt Stage.hasError p = false)
    (hgame : t.game.current = s.game.current) : Settled s t p := by
  cases heff with
  | makeUser name data q discard done hd =>
    exact settled_of_worker (Function.update_of_ne (Nat.ne_of_lt hput.exists_) ..) rfl
  | makeBuiltin a q size ty io ha hty hio =>
    exact settled_of_worker (Function.update_of_ne (Nat.ne_of_lt hput.exists_) ..) rfl
  | take q rest hidle hq =>
    exact settled_of_ne rfl (hput.ne_taken hq)
  | createQueue q hb hty =>
    refine settled_of_ne ?_ fun st hst => by cases hst
    obtain ⟨_, _, heq⟩ := createQueue_frame s (s.cmds q).base.queueId (s.cmds q).base.queueSize
    rw [heq]
  | destroyQueue q hb hty =>
    refine settled_of_ne ?_ fun st hst => by cases hst
    obtain ⟨_, _, heq⟩ := destroyQueue_frame s (s.cmds q).base.queueId
    rw [heq]
  | shutdown q hb hty => exact settled_of_ne rfl fun st hst => by cases hst
  | finishBuiltin q hb =>
    exact settled_of_ne (Function.update_of_ne (hput.ne_builtin hw hb) ..) fun st hst => by cases hst
  | userMove a q st st' hd c hst hh hmove hposted hassign =>
    by_cases hpq : p = q
    · subst hpq
      have hself : Function.update s.cmds p c p = c := Function.update_self ..
      -- the one stage that assigns a message is left by the worker's own step
      have herr : st.hasError = false := by
        cases st with
        | handled o =>
          cases o with
          | none => rfl
          | some msg =>
            have hat := hwork (hassign msg rfl)
            rw [workerAt_user hst] at hat
            exact hat
        | _ => rfl
      refine ⟨?_, fun hat _ => ?_⟩
      · change (Function.update s.cmds p c p).errorMessage = _
        rw [hself]
        exact hmove.errorMessage herr
      · rw [workerAt_user hst] at hat
        obtain ⟨hat', hcode⟩ := hmove.storesError hat
        refine ⟨(workerAt_user (s := s.advance p c st') rfl).trans hat', ?_⟩
        change (Function.update s.cmds p c p).resultCode = _
        rw [hself]
        exact hcode
    · refine settled_of_ne (Function.update_of_ne hpq ..) fun st hst => ?_
      obtain ⟨rfl, -⟩ := Worker.user.inj hst
      exact hpq rfl
  | putWork q m hst =>
    have hne := hput.ne_armed hst
    refine settled_of_ne (Function.update_of_ne hne ..) fun st hst => ?_
    obtain ⟨rfl, -⟩ := Worker.user.inj hst
    exact hne rfl
  | recordPending q hst =>
    have hcmds : Function.update s.cmds q (s.cmds q) = s.cmds := Function.update_eq_self ..
    refine settled_of_cmds (congrFun hcmds p) fun _ => ?_
    change (q == p && Stage.beforeOk .storing) = false
    exact Bool.and_false _
  | store t q hst hstore =>
    obtain ⟨_, _, rfl⟩ := storeResult_frame hstore
    exact settled_of_ne rfl fun st hst => by cases hst
  | popResults t id createdAt late hpop =>
    obtain ⟨rq, pc, -, -, rfl⟩ := popResults_cases hw.rings hpop
    exact settled_of_worker rfl rfl
  | handlerPacks q any hcalling howned =>
    have hfield : ∀ {α : Type} (f : Command → α), f { s.cmds q with M := any } = f (s.cmds q) →
        f (Function.update s.cmds q { s.cmds q with M := any } p) = f (s.cmds p) := fun f hf =>
      update_field f hf p
    exact ⟨hfield _ rfl, fun hat hcode =>
      ⟨(workerAt_congr rfl p).trans hat, (hfield Command.resultCode rfl).trans hcode⟩⟩
  | finishItem q pt c pt' hcurrent howned hmove =>
    -- a step of the game thread
    change pt'.map (fun x => (q, x)) = _ at hgame
    rw [hcurrent] at hgame
    cases hmove <;> cases hgame
  | _ => exact settled_of_worker rfl rfl

/-! ## Exceptions -/

/-- An exception of a handler is on its way into the command, or there to stay. -/
structure Threw (s : State) : Prop where
  caught : ∀ p m, s.game.current = some (p, .caught m) → s.asyncThrew p = some m
  put : ∀ p m, s.asyncThrew p = some m → Put s p
  outcome : ∀ p m, s.asyncThrew p = some m →
    s.game.current = some (p, .caught m) ∨
    (s.cmds p).errorMessage = m ∧ (s.game.current = some (p, .assigned) ∨
      s.workerAt Stage.beforeOk p = false ∧ (s.cmds p).resultCode = .error)
  flushed : ErrorsReported s

theorem threw_init : Threw State.init where
  caught _ _ h := by cases h
  put _ _ h := by cases h
  outcome _ _ h := by cases h
  flushed _ h := by cases h

def GamePoint.erring : GamePoint → Bool
  | .caught _ => true
  | .assigned => true
  | _ => false

/-- When the game thread is not about to write the error of a command, the error is in place. -/
theorem Threw.in_place (h : Threw s) {m : String} (hm : s.asyncThrew p = some m)
    (hgame : ∀ pt, pt.erring = true → s.game.current ≠ some (p, pt)) :
    (s.cmds p).errorMessage = m ∧ s.workerAt Stage.beforeOk p = false ∧
      (s.cmds p).resultCode = .error := by
  rcases h.outcome p m hm with hc | ⟨hmsg, hc | hcode⟩
  · exact absurd hc (hgame _ rfl)
  · exact absurd hc (hgame _ rfl)
  · exact ⟨hmsg, hcode⟩

/-- Steps in which no exception moves on. -/
theorem Threw.frame (h : Threw s) (hput : ∀ p, Put s p → Put t p)
    (hgame : ∀ p pt, pt.erring = true →
      (t.game.current = some (p, pt) ↔ s.game.current = some (p, pt)))
    (hthrew : t.asyncThrew = s.asyncThrew)
    (hsettled : ∀ p, Put s p → (s.game.current = some (p, .assigned) ∨
      s.workerAt Stage.beforeOk p = false) → Settled s t p)
    (hflushed : ErrorsReported t) : Threw t where
  caught p m hm := by
    rw [hthrew]
    exact h.caught p m ((hgame p _ rfl).mp hm)
  put p m hm := hput p (h.put p m (hthrew ▸ hm))
  outcome p m hm := by
    rw [hthrew] at hm
    rcases h.outcome p m hm with hc | ⟨hmsg, hc | ⟨hat, hcode⟩⟩
    · exact Or.inl ((hgame p _ rfl).mpr hc)
    · have hs := hsettled p (h.put p m hm) (Or.inl hc)
      exact Or.inr ⟨hs.errorMessage.trans hmsg, Or.inl ((hgame p _ rfl).mpr hc)⟩
    · have hs := hsettled p (h.put p m hm) (Or.inr hat)
      exact Or.inr ⟨hs.errorMessage.trans hmsg, Or.inr (hs.resultCode hat hcode)⟩
  flushed := hflushed

theorem errorsReported_congr (h : ErrorsReported s) (hflushed : t.flushed = s.flushed)
    (hthrew : t.asyncThrew = s.asyncThrew) : ErrorsReported t := by
  unfold ErrorsReported
  rw [hflushed, hthrew]
  exact h

/-- What a flush returns is not with the game thread any more, so its error is there. -/
theorem Threw.pop (h : Threw s) (hw : Wf s) (he : Entries s) {id : QueueId} {createdAt : Nat}
    {late : List CommandPtr} (hpop : popResults s id createdAt late = some t) : ErrorsReported t := by
  obtain ⟨rq, pc, hl, -, rfl⟩ := popResults_cases hw.rings hpop
  intro f hf msg hmsg
  rcases List.mem_append.mp hf with hf | hf
  · exact h.flushed f hf msg hmsg
  · obtain ⟨q, hq, rfl⟩ := List.mem_map.mp hf
    have hready := (List.mem_filter.mp (List.mem_reverse.mp hq)).2
    -- the flag is set as long as the game thread has the command
    have hidle : ∀ pt, pt.erring = true → s.game.current ≠ some (q, pt) := by
      intro pt _ hc
      have hpending := he.pending q (mem_entries_of_current hc)
      unfold State.ready at hready
      rw [hpending] at hready
      cases hready
    obtain ⟨hmessage, -, hcode⟩ := h.in_place hmsg hidle
    change (s.cmds q).toResult.resultCode = .error ∧ (s.cmds q).toResult.errorMessage = msg
    unfold Command.toResult
    rw [if_pos hcode]
    exact ⟨rfl, hmessage⟩

theorem Threw.throws (h : Threw s) (he : Entries s) {msg : String}
    (hgame : s.game.current = some (p, .calling)) :
    Threw { s with
      game := ⟨s.game.items, some (p, .caught msg)⟩
      asyncThrew := Function.update s.asyncThrew p (some msg) } := by
  have hmem := mem_entries_of_current hgame
  have hputp := he.put p hmem
  refine ⟨fun q m hc => ?_, fun q m hm => ?_, fun q m hm => ?_, fun f hf m hm => ?_⟩
  · cases hc
    exact Function.update_self ..
  · have hput : Put s q := by
      by_cases hqp : q = p
      · subst hqp
        exact hputp
      · dsimp only at hm
        rw [Function.update_of_ne hqp] at hm
        exact h.put q m hm
    exact ⟨hput.exists_, hput.user, hput.made, hput.workQueue, hput.worker⟩
  · dsimp only at hm ⊢
    by_cases hqp : q = p
    · subst hqp
      rw [Function.update_self] at hm
      obtain rfl := Option.some.inj hm
      exact Or.inl rfl
    · -- the error of another command is already in place
      rw [Function.update_of_ne hqp] at hm
      obtain ⟨hmsg, hcode⟩ := h.in_place hm fun pt herr hc => by
        rw [hgame] at hc
        cases hc
        cases herr
      exact Or.inr ⟨hmsg, Or.inr hcode⟩
  -- a command with an entry was not flushed
  · have hne : f.ptr ≠ p := by
      rintro rfl
      exact he.flushed f hf hmem
    dsimp only at hm
    rw [Function.update_of_ne hne] at hm
    exact h.flushed f hf m hm

theorem Threw.finishItem (h : Threw s) {pt : GamePoint} {c : Command}
    {pt' : Option GamePoint} (hgame : s.game.current = some (p, pt))
    (hmove : GameMove (s.cmds p) pt c pt') (hok : ErrorAfterStore s .finishItem)
    (hput : ∀ q, Put s q → Put { s.setCommand p c with
      game := ⟨s.game.items, pt'.map fun x => (p, x)⟩ } q) :
    Threw { s.setCommand p c with game := ⟨s.game.items, pt'.map fun x => (p, x)⟩ } := by
  have hself : Function.update s.cmds p c p = c := Function.update_self ..
  refine ⟨fun q m hc => ?_, fun q m hm => hput q (h.put q m hm), fun q m hm => ?_, h.flushed⟩
  · change pt'.map (fun x => (p, x)) = some (q, .caught m) at hc
    cases hmove <;> cases hc
  · change s.asyncThrew q = some m at hm
    right
    by_cases hqp : q = p
    · subst hqp
      change (Function.update s.cmds q c q).errorMessage = m ∧
        (_ ∨ s.workerAt Stage.beforeOk q = false ∧ (Function.update s.cmds q c q).resultCode = .error)
      rw [hself]
      cases hmove with
      | assign msg =>
        have hm' := h.caught q msg hgame
        rw [hm] at hm'
        obtain rfl := Option.some.inj hm'
        exact ⟨rfl, Or.inl rfl⟩
      | storeError =>
        -- the worker has stored its result code before
        rcases h.outcome q m hm with hc | ⟨hmsg, -⟩
        · rw [hgame] at hc
          cases hc
        · exact ⟨hmsg, Or.inr ⟨(hok _ hgame rfl).2 rfl, rfl⟩⟩
      | clearPending =>
        obtain ⟨hmsg, hcode⟩ := h.in_place hm fun pt herr hc => by
          rw [hgame] at hc
          cases hc
          cases herr
        exact ⟨hmsg, Or.inr hcode⟩
    · -- another command is not with the game thread, and nothing changes for it
      change (Function.update s.cmds p c q).errorMessage = m ∧
        (_ ∨ s.workerAt Stage.beforeOk q = false ∧ (Function.update s.cmds p c q).resultCode = .error)
      rw [Function.update_of_ne hqp]
      obtain ⟨hmsg, hcode⟩ := h.in_place hm fun pt _ hc => by
        rw [hgame] at hc
        cases hc
        exact hqp rfl
      exact ⟨hmsg, Or.inr hcode⟩

theorem threw_step (h : Threw s) (hw : Wf s) (he : Entries s) (hok : ErrorAfterStore s a)
    (heff : Effect handlers s a t) : Threw t := by
  have hput : ∀ p, Put s p → Put t p := fun p hp => hp.step hw heff
  have hsettled : t.game.current = s.game.current → ∀ p, Put s p →
      (s.game.current = some (p, .assigned) ∨ s.workerAt Stage.beforeOk p = false) →
      Settled s t p := by
    rintro hgame p hp (hc | hat)
    · exact heff.settled hw hp (hok _ hc rfl).1 hgame
    · exact heff.settled hw hp (fun _ => hasError_of_beforeOk hat) hgame
  cases heff with
  | createQueue p hb hty =>
    obtain ⟨_, _, heq⟩ := createQueue_frame s (s.cmds p).base.queueId (s.cmds p).base.queueSize
    rw [heq] at hput hsettled ⊢
    exact h.frame hput (fun _ _ _ => Iff.rfl) rfl (hsettled rfl)
      (errorsReported_congr h.flushed rfl rfl)
  | destroyQueue p hb hty =>
    obtain ⟨_, _, heq⟩ := destroyQueue_frame s (s.cmds p).base.queueId
    rw [heq] at hput hsettled ⊢
    exact h.frame hput (fun _ _ _ => Iff.rfl) rfl (hsettled rfl)
      (errorsReported_congr h.flushed rfl rfl)
  | store t p hst hstore =>
    obtain ⟨_, _, rfl⟩ := storeResult_frame hstore
    exact h.frame hput (fun _ _ _ => Iff.rfl) rfl (hsettled rfl)
      (errorsReported_congr h.flushed rfl rfl)
  | popResults t id createdAt late hpop =>
    have hflushed := h.pop hw he hpop
    obtain ⟨rq, pc, -, -, rfl⟩ := popResults_cases hw.rings hpop
    exact h.frame hput (fun _ _ _ => Iff.rfl) rfl (hsettled rfl) hflushed
  | drain hgame =>
    refine h.frame hput (fun p pt _ => ?_) rfl (hsettled ?_) (errorsReported_congr h.flushed rfl rfl)
    · rw [hgame]
    · rw [hgame]
  | startItem p items hgame howned =>
    refine h.frame hput (fun q pt herr => ?_) rfl
      (fun _ _ _ => settled_of_worker rfl rfl)
      (errorsReported_congr h.flushed rfl rfl)
    rw [hgame]
    refine ⟨fun hc => ?_, fun hc => by cases hc⟩
    cases hc
    cases herr
  | handlerReturns p hgame howned =>
    refine h.frame hput (fun q pt herr => ?_) rfl
      (fun _ _ _ => settled_of_worker rfl rfl)
      (errorsReported_congr h.flushed rfl rfl)
    rw [hgame]
    refine ⟨fun hc => ?_, fun hc => ?_⟩ <;>
    · cases hc
      cases herr
  | handlerThrows p msg hgame howned => exact h.throws he hgame
  | finishItem p pt c pt' hgame howned hmove => exact h.finishItem hgame hmove hok hput
  | _ =>
    exact h.frame hput (fun _ _ _ => Iff.rfl) rfl (hsettled rfl)
      (errorsReported_congr h.flushed rfl rfl)

/-- In every run in which the worker's stores to the result code and the error message come before
those of the game thread, a failed asynchronous command is reported as failed. -/
theorem errors_reported {acts : List Action}
    (hok : Conforms (step handlers) ErrorAfterStore State.init acts)
    (hrun : run (step handlers) State.init acts = some s) : ErrorsReported s := by
  have hstep : ∀ s a t, Wf s ∧ Entries s ∧ Threw s → ErrorAfterStore s a →
      step handlers s a = some t → Wf t ∧ Entries t ∧ Threw t := by
    rintro s a t ⟨hw, he, ht⟩ hok h
    have heff := step_effect h
    exact ⟨wf_step hw heff, entries_step he hw heff, threw_step ht hw he hok heff⟩
  exact (run_invariant_of_conforms hstep ⟨wf_init, entries_init, threw_init⟩ hok hrun).2.2.flushed

/-- The same frame, after the worker has stored the result. -/
def throwsLate : List Action :=
  workPut ++ List.replicate 5 .work ++ [.drain, .startItem, .handlerThrows "invalid house",
    .finishItem, .finishItem, .finishItem] ++ finishAndPoll 0

theorem throwsLate_reported :
    ∃ s, run (step fun _ => some gameloopHandler) State.init throwsLate = some s ∧
      s.flushed.map (fun f => f.result.errorMessage) = ["invalid house"] ∧ ErrorsReported s := by
  have hrun : run (step fun _ => some gameloopHandler) State.init throwsLate =
      some ((run (step fun _ => some gameloopHandler) State.init throwsLate).get (by decide)) := by
    simp
  have hok : Conforms (step fun _ => some gameloopHandler) ErrorAfterStore State.init throwsLate := by
    decide
  exact ⟨_, hrun, by decide, errors_reported hok hrun⟩

/-! ## Payloads -/

def Stage.isPacking : Stage → Bool
  | .packing _ _ => true
  | _ => false

/-- What a handler packed stays in the command: the worker has seen the flag or will see it. -/
structure Packed (s : State) : Prop where
  packing : ∀ p st, s.worker = .user p st → st.isPacking = true →
    p ∉ s.entries ∧ s.asyncPacked p = none
  put : ∀ p any, s.asyncPacked p = some any → Put s p
  kept : ∀ p any, s.asyncPacked p = some any → (s.cmds p).M = any
  read : ∀ p any, s.asyncPacked p = some any → s.workerAt Stage.beforeRead p = true →
    (s.cmds p).pending = true
  flushed : PayloadsKept s

theorem packed_init : Packed State.init where
  packing _ _ h := by cases h
  put _ _ h := by cases h
  kept _ _ h := by cases h
  read _ _ h := by cases h
  flushed _ h := by cases h

/-- Past `put_work`, with the flag set until it is read, the worker does not write the message. -/
theorem UserMove.keeps {h : Handler} {c c' : Command} {st st' : Stage}
    (hmove : UserMove h c st c' st') (hput : st.beforePut = false) (hpack : st.isPacking = false)
    (hread : st.beforeRead = true → c.pending = true) :
    c'.M = c.M ∧ st'.beforeRead = false ∧ st'.isPacking = false := by
  cases hmove with
  | fnReturns _ m hin hbody =>
    rw [Stage.beforePut_of_inFunction hin] at hput
    cases hput
  | fnThrows _ m msg hin =>
    rw [Stage.beforePut_of_inFunction hin] at hput
    cases hput
  -- the destructor sees the flag, so it does not go on to pack
  | read m o hpending =>
    rw [hread rfl] at hpending
    cases hpending
  | pack m o => cases hpack
  | skip | callback | callbackThrows | assign | storeOk | storeError => exact ⟨rfl, rfl, rfl⟩
  | _ => cases hput

/-- A step after which the worker has no more to write than before. -/
structure Kept (s t : State) (p : CommandPtr) : Prop where
  M : (t.cmds p).M = (s.cmds p).M
  read : t.workerAt Stage.beforeRead p = true →
    s.workerAt Stage.beforeRead p = true ∧ (t.cmds p).pending = (s.cmds p).pending

theorem kept_of_cmds (hcmds : t.cmds p = s.cmds p)
    (hworker : t.workerAt Stage.beforeRead p = true → s.workerAt Stage.beforeRead p = true) :
    Kept s t p :=
  ⟨by rw [hcmds], fun h => ⟨hworker h, by rw [hcmds]⟩⟩

theorem kept_of_ne (hcmds : t.cmds p = s.cmds p) (hworker : ∀ st, t.worker ≠ .user p st) :
    Kept s t p := by
  apply kept_of_cmds hcmds
  rw [workerAt_of_ne hworker]
  exact fun h => by cases h

theorem Packed.frame (h : Packed s) (hput : ∀ p, Put s p → Put t p)
    (hpacked : t.asyncPacked = s.asyncPacked)
    (hpacking : ∀ p st, t.worker = .user p st → st.isPacking = true →
      p ∉ t.entries ∧ s.asyncPacked p = none)
    (hkept : ∀ p any, s.asyncPacked p = some any → Kept s t p)
    (hflushed : PayloadsKept t) : Packed t where
  packing p st hst hpack := by
    rw [hpacked]
    exact hpacking p st hst hpack
  put p any hany := hput p (h.put p any (hpacked ▸ hany))
  kept p any hany := by
    rw [hpacked] at hany
    rw [(hkept p any hany).M]
    exact h.kept p any hany
  read p any hany hat := by
    rw [hpacked] at hany
    obtain ⟨hat', hpending⟩ := (hkept p any hany).read hat
    rw [hpending]
    exact h.read p any hany hat'
  flushed := hflushed

theorem payloadsKept_congr (h : PayloadsKept s) (hflushed : t.flushed = s.flushed)
    (hpacked : t.asyncPacked = s.asyncPacked) : PayloadsKept t := by
  unfold PayloadsKept
  rw [hflushed, hpacked]
  exact h

/-- The worker gives its command up, or holds a built-in one. -/
theorem Packed.noUser (h : Packed s) (hput : ∀ p, Put s p → Put t p)
    (hpacked : t.asyncPacked = s.asyncPacked) (hcmds : ∀ p, Put s p → t.cmds p = s.cmds p)
    (hworker : ∀ p st, t.worker ≠ .user p st) (hflushed : t.flushed = s.flushed) : Packed t :=
  h.frame hput hpacked (fun p st hst => absurd hst (hworker p st))
    (fun p any hany => kept_of_ne (hcmds p (h.put p any hany)) (hworker p))
    (payloadsKept_congr h.flushed hflushed hpacked)

/-- The worker and the entries stay where they are. -/
theorem Packed.sameWorker (h : Packed s) (hput : ∀ p, Put s p → Put t p)
    (hpacked : t.asyncPacked = s.asyncPacked) (hcmds : ∀ p, Put s p → t.cmds p = s.cmds p)
    (hworker : t.worker = s.worker) (hentries : ∀ p ∈ t.entries, p ∈ s.entries)
    (hflushed : PayloadsKept t) : Packed t := by
  refine h.frame hput hpacked (fun p st hst hpack => ?_) (fun p any hany => ?_) hflushed
  · obtain ⟨hnot, hnone⟩ := h.packing p st (hworker ▸ hst) hpack
    exact ⟨fun hmem => hnot (hentries p hmem), hnone⟩
  · refine kept_of_cmds (hcmds p (h.put p any hany)) fun hat => ?_
    rw [← hat]
    exact (workerAt_congr hworker p).symm

theorem Packed.userMove (h : Packed s) (he : Entries s) {hd : Handler} {c : Command}
    {st st' : Stage} (hput : ∀ q, Put s q → Put (s.advance p c st') q)
    (hst : s.worker = .user p st) (hmove : UserMove hd (s.cmds p) st c st') :
    Packed (s.advance p c st') := by
  have hat : s.workerAt Stage.beforeRead p = st.beforeRead := workerAt_user hst
  refine h.frame hput rfl (fun q st'' hst'' hpack => ?_) (fun q any hany => ?_) h.flushed
  · obtain ⟨rfl, rfl⟩ := Worker.user.inj hst''
    -- only the destructor that has read `false` packs
    cases hmove with
    | read m o hpending =>
      refine ⟨fun hmem => ?_, ?_⟩
      · have hset := he.pending p hmem
        rw [hset] at hpending
        cases hpending
      · cases hany : s.asyncPacked p with
        | none => rfl
        | some any =>
          have hset := h.read p any hany hat
          rw [hset] at hpending
          cases hpending
    | _ => cases hpack
  · by_cases hqp : q = p
    · subst hqp
      have hpack : st.isPacking = false := by
        by_contra hpack
        have hnone := (h.packing q st hst (Bool.not_eq_false _ ▸ hpack)).2
        rw [hany] at hnone
        cases hnone
      obtain ⟨hM, hread, -⟩ := hmove.keeps ((h.put q any hany).worker st hst) hpack
        (fun hread => h.read q any hany (hat.trans hread))
      refine ⟨?_, fun hat' => ?_⟩
      · change (Function.update s.cmds q c q).M = _
        rw [Function.update_self]
        exact hM
      · rw [workerAt_user (s := s.advance q c st') rfl, hread] at hat'
        cases hat'
    · refine kept_of_ne (Function.update_of_ne hqp ..) fun st'' hst'' => ?_
      obtain ⟨rfl, -⟩ := Worker.user.inj hst''
      exact hqp rfl

theorem Packed.pop (h : Packed s) (hw : Wf s) {id : QueueId} {createdAt : Nat}
    {late : List CommandPtr} (hpop : popResults s id createdAt late = some t) : PayloadsKept t := by
  obtain ⟨rq, pc, -, -, rfl⟩ := popResults_cases hw.rings hpop
  intro f hf any hany
  rcases List.mem_append.mp hf with hf | hf
  · exact h.flushed f hf any hany
  · obtain ⟨q, -, rfl⟩ := List.mem_map.mp hf
    change (s.cmds q).toResult.result = any
    rw [← h.kept q any hany]
    unfold Command.toResult
    split <;> rfl

/-- The command that a handler packs has its flag set, and was never flushed. -/
theorem Packed.packs (h : Packed s) (he : Entries s) {any : Any}
    (hgame : s.game.current = some (p, .calling))
    (hput : ∀ q, Put s q → Put { s.setCommand p { s.cmds p with M := any } with
      asyncPacked := Function.update s.asyncPacked p (some any) } q) :
    Packed { s.setCommand p { s.cmds p with M := any } with
      asyncPacked := Function.update s.asyncPacked p (some any) } := by
  have hmem := mem_entries_of_current hgame
  have hold : ∀ q any', q ≠ p → Function.update s.asyncPacked p (some any) q = some any' →
      s.asyncPacked q = some any' := by
    intro q any' hqp hany
    rw [Function.update_of_ne hqp] at hany
    exact hany
  refine ⟨fun q st hst hpack => ?_, fun q any' hany => ?_, fun q any' hany => ?_,
    fun q any' hany hat => ?_, fun f hf any' hany => ?_⟩
  · obtain ⟨hnot, hnone⟩ := h.packing q st hst hpack
    have hqp : q ≠ p := by
      rintro rfl
      exact hnot hmem
    refine ⟨hnot, ?_⟩
    change Function.update s.asyncPacked p (some any) q = none
    rw [Function.update_of_ne hqp]
    exact hnone
  · by_cases hqp : q = p
    · subst hqp
      exact hput q (he.put q hmem)
    · exact hput q (h.put q any' (hold q any' hqp hany))
  · change (Function.update s.cmds p { s.cmds p with M := any } q).M = any'
    by_cases hqp : q = p
    · subst hqp
      rw [Function.update_self]
      change Function.update s.asyncPacked q (some any) q = some any' at hany
      rw [Function.update_self] at hany
      exact Option.some.inj hany
    · rw [Function.update_of_ne hqp]
      exact h.kept q any' (hold q any' hqp hany)
  · change (Function.update s.cmds p { s.cmds p with M := any } q).pending = true
    by_cases hqp : q = p
    · subst hqp
      rw [Function.update_self]
      exact he.pending q hmem
    · rw [Function.update_of_ne hqp]
      exact h.read q any' (hold q any' hqp hany) hat
  · have hne : f.ptr ≠ p := by
      intro heq
      exact he.flushed f hf (heq ▸ hmem)
    exact h.flushed f hf any' (hold _ any' hne hany)

theorem Packed.finishItem (h : Packed s) {pt : GamePoint} {c : Command}
    {pt' : Option GamePoint} (hgame : s.game.current = some (p, pt))
    (hmove : GameMove (s.cmds p) pt c pt') (hok : ClearAfterRead s .finishItem)
    (hput : ∀ q, Put s q → Put { s.setCommand p c with
      game := ⟨s.game.items, pt'.map fun x => (p, x)⟩ } q) :
    Packed { s.setCommand p c with game := ⟨s.game.items, pt'.map fun x => (p, x)⟩ } := by
  refine h.frame hput rfl (fun q st hst hpack => ?_) (fun q any hany => ?_) h.flushed
  · obtain ⟨hnot, hnone⟩ := h.packing q st hst hpack
    refine ⟨fun hmem => hnot ?_, hnone⟩
    -- the item that was run may go, and no other comes
    have hcurrent : ((pt'.map fun x => (p, x)).map Prod.fst).toList ⊆
        (s.game.current.map Prod.fst).toList := by
      rw [hgame]
      cases pt' <;> simp
    unfold State.entries
    rcases List.mem_append.mp hmem with hmem | hmem
    · exact List.mem_append_left _ hmem
    · rcases List.mem_append.mp hmem with hmem | hmem
      · exact List.mem_append_right _ (List.mem_append_left _ hmem)
      · exact List.mem_append_right _ (List.mem_append_right _ (hcurrent hmem))
  · by_cases hqp : q = p
    · subst hqp
      have hself : Function.update s.cmds q c q = c := Function.update_self ..
      constructor
      · change (Function.update s.cmds q c q).M = _
        rw [hself]
        cases hmove <;> rfl
      · intro hat
        change s.workerAt Stage.beforeRead q = true at hat
        change s.workerAt Stage.beforeRead q = true ∧ (Function.update s.cmds q c q).pending = _
        rw [hself]
        cases hmove with
        | assign msg => exact ⟨hat, rfl⟩
        | storeError => exact ⟨hat, rfl⟩
        | clearPending =>
          -- the destructor has read the flag before
          rw [hok rfl _ hgame rfl (by rw [hany]; rfl)] at hat
          cases hat
    · exact kept_of_cmds (Function.update_of_ne hqp ..) fun hat => hat

theorem packed_step (h : Packed s) (hw : Wf s) (he : Entries s) (hok : ClearAfterRead s a)
    (heff : Effect handlers s a t) : Packed t := by
  have hput : ∀ p, Put s p → Put t p := fun p hp => hp.step hw heff
  have hnew : ∀ (c : Command) p, Put s p → Function.update s.cmds s.nextPtr c p = s.cmds p :=
    fun c p hp => Function.update_of_ne (Nat.ne_of_lt hp.exists_) ..
  cases heff with
  | makeUser name data q discard done hd =>
    exact h.sameWorker hput rfl (hnew _) rfl (fun _ hp => hp) (payloadsKept_congr h.flushed rfl rfl)
  | makeBuiltin a q size ty io ha hty hio =>
    exact h.sameWorker hput rfl (hnew _) rfl (fun _ hp => hp) (payloadsKept_congr h.flushed rfl rfl)
  | take q rest hidle hq =>
    refine h.frame hput rfl (fun p st hst hpack => ?_) (fun p any hany => ?_) h.flushed
    · dsimp only at hst
      split at hst
      · obtain ⟨rfl, rfl⟩ := Worker.user.inj hst
        cases hpack
      · cases hst
    · exact kept_of_ne rfl ((h.put p any hany).ne_taken hq)
  | createQueue p hb hty =>
    obtain ⟨_, _, heq⟩ := createQueue_frame s (s.cmds p).base.queueId (s.cmds p).base.queueSize
    rw [heq] at hput ⊢
    exact h.noUser hput rfl (fun _ _ => rfl) (fun _ _ hst => by cases hst) rfl
  | destroyQueue p hb hty =>
    obtain ⟨_, _, heq⟩ := destroyQueue_frame s (s.cmds p).base.queueId
    rw [heq] at hput ⊢
    exact h.noUser hput rfl (fun _ _ => rfl) (fun _ _ hst => by cases hst) rfl
  | shutdown p hb hty => exact h.noUser hput rfl (fun _ _ => rfl) (fun _ _ hst => by cases hst) rfl
  | finishBuiltin q hb =>
    exact h.noUser hput rfl (fun p hp => Function.update_of_ne (hp.ne_builtin hw hb) ..)
      (fun _ _ hst => by cases hst) rfl
  | userMove a p st st' hd c hst hh hmove hposted hassign => exact h.userMove he hput hst hmove
  | putWork q m hst =>
    refine h.frame hput rfl (fun p st hst' hpack => ?_) (fun p any hany => ?_) h.flushed
    · obtain ⟨-, rfl⟩ := Worker.user.inj hst'
      cases hpack
    · have hne := (h.put p any hany).ne_armed hst
      refine kept_of_ne (Function.update_of_ne hne ..) fun st hst' => ?_
      obtain ⟨rfl, -⟩ := Worker.user.inj hst'
      exact hne rfl
  | recordPending q hst =>
    have hcmds : Function.update s.cmds q (s.cmds q) = s.cmds := Function.update_eq_self ..
    refine h.frame hput rfl (fun p st hst' hpack => ?_) (fun p any hany => ?_) h.flushed
    · obtain ⟨-, rfl⟩ := Worker.user.inj hst'
      cases hpack
    · refine kept_of_cmds (congrFun hcmds p) fun hat => ?_
      change (q == p && Stage.beforeRead .storing) = true at hat
      rw [show Stage.beforeRead .storing = false from rfl, Bool.and_false] at hat
      cases hat
  | store t p hst hstore =>
    obtain ⟨_, _, rfl⟩ := storeResult_frame hstore
    exact h.noUser hput rfl (fun _ _ => rfl) (fun _ _ hst => by cases hst) rfl
  | popResults t id createdAt late hpop =>
    have hflushed := h.pop hw hpop
    obtain ⟨rq, pc, -, -, rfl⟩ := popResults_cases hw.rings hpop
    exact h.sameWorker hput rfl (fun _ _ => rfl) rfl (fun _ hp => hp) hflushed
  | drain hgame =>
    refine h.sameWorker hput rfl (fun _ _ => rfl) rfl (fun p hp => ?_) h.flushed
    unfold State.entries at hp ⊢
    rw [hgame]
    simpa using hp
  | startItem q items hgame howned =>
    refine h.sameWorker hput rfl (fun _ _ => rfl) rfl (fun p hp => ?_) h.flushed
    unfold State.entries at hp ⊢
    rw [hgame]
    simp only [Option.map_some, Option.map_none, Option.toList_some, Option.toList_none,
      List.mem_append, List.mem_cons, List.not_mem_nil, or_false] at hp ⊢
    tauto
  | handlerPacks q any hgame howned => exact h.packs he hgame hput
  | handlerReturns q hgame howned =>
    refine h.sameWorker hput rfl (fun _ _ => rfl) rfl (fun p hp => ?_) h.flushed
    unfold State.entries at hp ⊢
    rw [hgame]
    exact hp
  | handlerThrows q msg hgame howned =>
    refine h.sameWorker hput rfl (fun _ _ => rfl) rfl (fun p hp => ?_) h.flushed
    unfold State.entries at hp ⊢
    rw [hgame]
    exact hp
  | finishItem p pt c pt' hgame howned hmove => exact h.finishItem hgame hmove hok hput
  | _ =>
    exact h.sameWorker hput rfl (fun _ _ => rfl) rfl (fun _ hp => hp)
      (payloadsKept_congr h.flushed rfl rfl)

/-- In every run in which the game thread clears the flag of a command only after the destructor of
its `ISCommand` has read it, the client gets what the asynchronous handler packed. -/
theorem payloads_kept {acts : List Action}
    (hok : Conforms (step handlers) ClearAfterRead State.init acts)
    (hrun : run (step handlers) State.init acts = some s) : PayloadsKept s := by
  have hstep : ∀ s a t, Wf s ∧ Entries s ∧ Packed s → ClearAfterRead s a →
      step handlers s a = some t → Wf t ∧ Entries t ∧ Packed t := by
    rintro s a t ⟨hw, he, hp⟩ hok h
    have heff := step_effect h
    exact ⟨wf_step hw heff, entries_step he hw heff, packed_step hp hw he hok heff⟩
  exact (run_invariant_of_conforms hstep ⟨wf_init, entries_init, packed_init⟩ hok hrun).2.2.flushed

/-- The same frame, after the worker has stored the result. -/
def packsLate : List Action :=
  workPut ++ List.replicate 5 .work ++ [.drain, .startItem, .handlerPacks [9], .handlerReturns,
    .finishItem] ++ finishAndPoll 0

theorem packsLate_kept :
    ∃ s, run (step fun _ => some gameloopHandler) State.init packsLate = some s ∧
      s.flushed.map (fun f => f.result.result) = [[9]] ∧ PayloadsKept s := by
  have hrun : run (step fun _ => some gameloopHandler) State.init packsLate =
      some ((run (step fun _ => some gameloopHandler) State.init packsLate).get (by decide)) := by
    simp
  have hok : Conforms (step fun _ => some gameloopHandler) ClearAfterRead State.init packsLate := by
    decide
  exact ⟨_, hrun, by decide, payloads_kept hok hrun⟩

end Ra2yrcpp.CommandManager
