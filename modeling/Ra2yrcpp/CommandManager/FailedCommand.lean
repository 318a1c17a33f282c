import Ra2yrcpp.CommandManager.OneCommand

/-!
# Commands that fail

An exception leaves the handler through the catch block of `get_cmd`, which clears the message in the
command, then through the destructor of `ISCommand`, and ends in the handler of
`emplace_user_command`, which records the error.  The destructor does what it does after a command
that succeeds: it packs the message the handler worked on, unless the `pending` flag is set.  The flag
is set for an asynchronous command from its start, and the game loop, which would clear it, never
hears of the command.
-/

open Ra2yrcpp.Reasoning

namespace Ra2yrcpp.CommandManager

variable {handlers : String → Option Handler} {s t : State} {a : Action} {p : CommandPtr}
  {h : Handler} {m : Message} {msg : String} {c : Command} {acts acts' : List Action}

/-- The client learns of the error when it polls the queue that has the command. -/
structure Delivered (s : State) (p : CommandPtr) : Prop where
  resultCode : (s.cmds p).resultCode = .error
  pending : (s.cmds p).pending = false
  flushed : ∀ id createdAt late rq t, s.results.lookup id = some rq → p ∈ rq.contents → p ∉ late →
    popResults s id createdAt late = some t →
    ∃ f ∈ t.flushed, f.ptr = p ∧ f.result.resultCode = .error

/-! ## A failed `PlaceQuery` and a failed `StoreValue` -/

/-- An asynchronous handler throws before `get_gameloop_command`, and the client polls. -/
def asyncThrows : List Action :=
  connect 1 ++ [Action.makeCommand "PlaceQuery" [7] 1 false false, Action.emplace 1] ++
    List.replicate 5 Action.work ++ [Action.fnThrows [7] "no storage"] ++
    List.replicate 6 Action.work ++ [Action.lookupQueue 1, Action.popResults 1 1 []]

theorem failed_command_not_delivered :
    ∃ s, run (step fun _ => some gameloopHandler) State.init asyncThrows = some s ∧
      s.worker = .idle ∧ (s.cmds 1).resultCode = .error ∧ (s.cmds 1).pending = true ∧
      s.stored = [1] ∧ s.flushed = [] ∧ ¬ Delivered s 1 := by
  refine ⟨(run (step fun _ => some gameloopHandler) State.init asyncThrows).get (by decide),
    by simp, by decide, by decide, by decide, by decide, by decide, fun h => ?_⟩
  have hpending := h.pending
  revert hpending
  decide

/-- An `Any` starts with the name of its type, here one byte. -/
def storeValueHandler : Handler := ⟨false, .plain, List.tail, List.cons 7⟩

/-- A synchronous handler sets a field of its message and throws. -/
def syncThrows : List Action :=
  connect 1 ++ [Action.makeCommand "StoreValue" [7, 1] 1 false false, Action.emplace 1] ++
    List.replicate 4 Action.work ++ [Action.fnThrows [1, 9] "bad value"]

/-- From the catch block to the result queue. -/
def unwinding : List Action := List.replicate 7 .work

theorem failed_payload_returned :
    ∃ s, run (step fun _ => some storeValueHandler) State.init
        (syncThrows ++ unwinding ++ [Action.lookupQueue 1, Action.popResults 1 1 []]) = some s ∧
      (s.cmds 1).M = [7, 1, 9] ∧
      s.flushed.map Flushed.result = [⟨2, [7, 1, 9], .error, "bad value"⟩] := by
  refine ⟨(run (step fun _ => some storeValueHandler) State.init
    (syncThrows ++ unwinding ++ [Action.lookupQueue 1, Action.popResults 1 1 []])).get (by decide),
    by simp, by decide, by decide⟩

/-! ## The flag until the handler ends -/

/-- Where the function can throw, the flag says how the command was registered. -/
def FlagAt (h : Handler) (c : Command) : Stage → Prop
  | .taken => c.pending = false
  | .reset => c.pending = false
  | .constructed _ => c.pending = false
  | .allocated _ => c.pending = false ∧ h.async = true
  | .body _ => c.pending = h.async
  | .posting _ _ => c.pending = h.async
  | .thrown _ _ => c.pending = h.async
  | _ => True

theorem UserMove.flagAt {h' : Handler} {c' : Command} {st st' : Stage}
    (hmove : UserMove h' c st c' st') (hh : st.foreign = false → h' = h) (hf : FlagAt h c st) :
    FlagAt h c' st' := by
  cases hmove with
  | reset => exact hf
  | construct => exact hf
  | allocate m hasync =>
    have hpending : (c.saveCommandResult h' m).1.pending = c.pending := by
      unfold Command.saveCommandResult
      split <;> rfl
    exact ⟨hpending.trans hf, hh rfl ▸ hasync⟩
  | enter m hasync =>
    show c.pending = h.async
    rw [← hh rfl, hasync]
    exact hf
  | setPending m => exact hf.2.symm
  | post m hbody => exact hf
  | runPosted m m' => exact hf
  | fnThrows st m msg hst =>
    cases st with
    | body m => exact hf
    | posting m done => exact hf
    | _ => cases hst
  | _ => trivial

structure Flagged (s : State) : Prop where
  waits : ∀ p, s.waits p → (s.cmds p).base.type = .user → (s.cmds p).pending = false
  stage : ∀ p st h, s.worker = .user p st → (s.cmds p).handler = some h → FlagAt h (s.cmds p) st

theorem flagged_init : Flagged State.init where
  waits _ hwaits _ := hwaits.elim nofun nofun
  stage _ _ _ hst := by cases hst

theorem Wf.lt_of_waits (hw : Wf s) (hwaits : s.waits p) : p < s.nextPtr := by
  rcases hwaits with hmem | hmem
  · exact hw.lt_of_copies (copies_pos_of_made hmem)
  · exact hw.lt_of_copies (copies_pos_of_workQueue hmem)

/-- A command that has been put was taken before. -/
theorem Put.not_waits (hput : Put s p) : ¬ s.waits p := by
  rintro (hmem | hmem)
  · exact hput.made hmem
  · exact hput.workQueue hmem

theorem flagged_step (hf : Flagged s) (hw : Wf s) (he : Entries s) (heff : Effect handlers s a t) :
    Flagged t := by
  have hw' := wf_step hw heff
  have hkeeps := heff.keeps hw
  refine ⟨fun p hwaits hty => ?_, fun p st h hst hh => ?_⟩
  · by_cases hlt : p < s.nextPtr
    · rw [hkeeps.base hlt] at hty
      obtain ⟨hwaits, hcmd⟩ := (heff.course hw hlt hty).waits hw' hwaits
      rw [hcmd fun hmem => (he.put p hmem).not_waits hwaits]
      exact hf.waits p hwaits hty
    · exact (heff.created hw (hw'.lt_of_waits hwaits) hlt).1
  · have hlt' := hw'.held_lt hst
    by_cases hlt : p < s.nextPtr
    · have hty := hw'.user p st hst
      rw [hkeeps.base hlt] at hty
      rw [(hkeeps.same p hlt).2.1] at hh
      cases heff.course hw hlt hty with
      | same hworker hsame hcmd hentries =>
        have hst := (hworker st).mp hst
        -- past `put_work` nothing is said of the flag
        by_cases hput : st.beforePut = true
        · rw [hcmd fun hmem => by rw [(he.put p hmem).worker st hst] at hput; cases hput]
          exact hf.stage p st h hst hh
        · cases st with
          | taken | reset | constructed | allocated | body | posting | thrown => exact absurd rfl hput
          | _ => trivial
      | taken hwaits hworker hcmd =>
        rw [hst] at hworker
        obtain ⟨-, rfl⟩ := Worker.user.inj hworker
        show (t.cmds p).pending = false
        rw [hcmd]
        exact hf.waits p hwaits hty
      | move st₀ st' h' c hst₀ hh' hmove hst' hcmd =>
        rw [hst] at hst'
        obtain ⟨-, rfl⟩ := Worker.user.inj hst'
        rw [hcmd]
        refine hmove.flagAt (fun hforeign => ?_) (hf.stage p st₀ h hst₀ hh)
        exact Option.some.inj ((hh' hforeign).symm.trans hh)
      | put m _ hst' =>
        rw [hst] at hst'
        obtain ⟨-, rfl⟩ := Worker.user.inj hst'
        trivial
      | record _ hst' =>
        rw [hst] at hst'
        obtain ⟨-, rfl⟩ := Worker.user.inj hst'
        trivial
      | store _ hworker => exact absurd hst (hworker st)
    · -- the worker does not hold a command that was not there
      rw [(heff.created hw hlt' hlt).2.1] at hst
      exact absurd (hw.held_lt hst) hlt

/-! ## From the exception to the result -/

/-- What the destructor leaves. -/
structure Left (h : Handler) (m : Message) (c : Command) : Prop where
  pending : c.pending = h.async
  M : c.M = if h.async then [] else h.packFrom m

structure Ended (h : Handler) (m : Message) (msg : String) (c : Command) : Prop where
  left : Left h m c
  errorMessage : c.errorMessage = msg
  resultCode : c.resultCode = .error

/-- The command on its way out of the handler, which threw `msg` and left its message as `m`. -/
def FailedAt (h : Handler) (m : Message) (msg : String) (c : Command) : Stage → Prop
  | .thrown m' msg' => m' = m ∧ msg' = msg ∧ c.pending = h.async
  | .closing m' o => m' = m ∧ o = some msg ∧ c.pending = h.async ∧ c.M = []
  | .packing m' o => m' = m ∧ o = some msg ∧ c.pending = h.async ∧ h.async = false
  | .handled o => o = some msg ∧ Left h m c
  | .erring => Left h m c ∧ c.errorMessage = msg
  | .finished => Ended h m msg c
  | .storing => Ended h m msg c
  | _ => False

theorem UserMove.failedAt {h' : Handler} {c' : Command} {st st' : Stage}
    (hmove : UserMove h' c st c' st') (hh : st.foreign = false → h' = h)
    (hf : FailedAt h m msg c st) : FailedAt h m msg c' st' := by
  cases hmove with
  | clear m' msg' =>
    obtain ⟨rfl, rfl, hpending⟩ := hf
    exact ⟨rfl, rfl, hpending, rfl⟩
  | skip m' o hset =>
    obtain ⟨rfl, rfl, hpending, hM⟩ := hf
    refine ⟨rfl, hpending, ?_⟩
    rw [← hpending, if_pos hset, hM]
  | read m' o hset =>
    obtain ⟨rfl, rfl, hpending, hM⟩ := hf
    exact ⟨rfl, rfl, hpending, hpending ▸ hset⟩
  | pack m' o =>
    -- what the catch block has cleared is written again
    obtain ⟨rfl, rfl, hpending, hsync⟩ := hf
    refine ⟨rfl, hpending, ?_⟩
    rw [hh rfl, hsync]
    rfl
  | callback => cases hf.1
  | callbackThrows msg' => cases hf.1
  | assign msg' =>
    obtain ⟨heq, hleft⟩ := hf
    obtain rfl := Option.some.inj heq
    exact ⟨⟨hleft.pending, hleft.M⟩, rfl⟩
  | storeError => exact ⟨⟨hf.1.pending, hf.1.M⟩, hf.2, rfl⟩
  | fnReturns st m' hst hbody =>
    cases st with
    | body | posting => exact hf.elim
    | _ => cases hst
  | fnThrows st m' msg' hst =>
    cases st with
    | body | posting => exact hf.elim
    | _ => cases hst
  | _ => exact hf.elim

/-- The rest of the life of a command whose handler threw. -/
structure Failed (h : Handler) (m : Message) (msg : String) (p : CommandPtr) (s : State) : Prop where
  lt : p < s.nextPtr
  user : (s.cmds p).base.type = .user
  handler : (s.cmds p).handler = some h
  waits : ¬ s.waits p
  entries : p ∉ s.entries
  stage : ∀ st, s.worker = .user p st → FailedAt h m msg (s.cmds p) st
  ended : (∀ st, s.worker ≠ .user p st) → Ended h m msg (s.cmds p)
  flushed : ∀ f ∈ s.flushed, f.ptr = p → h.async = false ∧ f.result.result = h.packFrom m

theorem failed_of_thrown (hw : Wf s) (he : Entries s) (hf : Flagged s)
    (hst : s.worker = .user p (.thrown m msg)) (hh : (s.cmds p).handler = some h) :
    Failed h m msg p s where
  lt := hw.held_lt hst
  user := hw.user p _ hst
  handler := hh
  waits := hw.not_waits hst
  entries hmem := by
    have hbefore := (he.put p hmem).worker _ hst
    cases hbefore
  stage st hst' := by
    rw [hst] at hst'
    obtain ⟨-, rfl⟩ := Worker.user.inj hst'
    exact ⟨rfl, rfl, hf.stage p _ h hst hh⟩
  ended hnone := absurd hst (hnone _)
  flushed f hmem hptr := by
    subst hptr
    exact (hw.held_not_flushed hmem hst).elim

theorem failed_step (hf : Failed h m msg p s) (hw : Wf s) (heff : Effect handlers s a t) :
    Failed h m msg p t := by
  have hkeeps := heff.keeps hw
  have hsame := hkeeps.same p hf.lt
  have hcourse := heff.course hw hf.lt hf.user
  refine ⟨Nat.lt_of_lt_of_le hf.lt hkeeps.next, by rw [hkeeps.base hf.lt]; exact hf.user,
    hsame.2.1.trans hf.handler, fun hwaits => hf.waits (hcourse.waits (wf_step hw heff) hwaits).1,
    fun hmem => ?_, fun st hst => ?_, fun hnone => ?_, fun f hmem hptr => ?_⟩
  · cases hcourse with
    | same _ _ _ hentries => exact hf.entries (hentries hmem)
    | taken hwaits => exact hf.waits hwaits
    | move _ _ _ _ _ _ _ _ _ hentries => exact hf.entries (hentries hmem)
    -- the handler threw before `put_work`
    | put _ hst => exact hf.stage _ hst
    | record _ _ _ hentries => exact hf.entries (hentries hmem)
    | store _ _ _ _ hentries => exact hf.entries (hentries hmem)
  · cases hcourse with
    | same hworker _ hcmd =>
      rw [hcmd hf.entries]
      exact hf.stage st ((hworker st).mp hst)
    | taken hwaits => exact absurd hwaits hf.waits
    | move st₀ st' h' c hst₀ hh' hmove hst' hcmd =>
      rw [hst] at hst'
      obtain ⟨-, rfl⟩ := Worker.user.inj hst'
      rw [hcmd]
      refine hmove.failedAt (fun hforeign => ?_) (hf.stage st₀ hst₀)
      exact Option.some.inj ((hh' hforeign).symm.trans hf.handler)
    | put _ hst₀ => exact (hf.stage _ hst₀).elim
    | record hst₀ hst' hcmd =>
      rw [hst] at hst'
      obtain ⟨-, rfl⟩ := Worker.user.inj hst'
      rw [hcmd]
      exact hf.stage .finished hst₀
    | store _ hworker => exact absurd hst (hworker st)
  · cases hcourse with
    | same hworker _ hcmd =>
      rw [hcmd hf.entries]
      exact hf.ended fun st hst => hnone st ((hworker st).mpr hst)
    | taken _ hworker => exact absurd hworker (hnone _)
    | move _ _ _ _ _ _ _ hst' => exact absurd hst' (hnone _)
    | put _ _ hst' => exact absurd hst' (hnone _)
    | record _ hst' => exact absurd hst' (hnone _)
    | store hst _ _ hcmd =>
      rw [hcmd]
      exact hf.stage _ hst
  · rcases heff.flushed_ready hw hmem with hmem | ⟨hstored, hpending, -, hresult⟩
    · exact hf.flushed f hmem hptr
    · subst hptr
      -- a command in a result queue is not with the worker
      have hended : Ended h m msg (s.cmds f.ptr) := by
        apply hf.ended
        intro st hst
        exact (hw.done_alone (Or.inl hstored)).2.2.2 (mem_held_of_user hst)
      have hsync : h.async = false := hended.left.pending.symm.trans hpending
      refine ⟨hsync, ?_⟩
      rw [hresult, Command.toResult, if_pos hended.resultCode, hended.left.M, hsync]
      rfl

theorem failed_run (hrun : run (step handlers) State.init acts = some s)
    (hst : s.worker = .user p (.thrown m msg)) (hh : (s.cmds p).handler = some h)
    (hrun' : run (step handlers) s acts' = some t) : Wf t ∧ Failed h m msg p t := by
  have hstep : ∀ s a t, Wf s ∧ Entries s ∧ Flagged s → step handlers s a = some t →
      Wf t ∧ Entries t ∧ Flagged t := by
    rintro s a t ⟨hw, he, hf⟩ hstep
    have heff := step_effect hstep
    exact ⟨wf_step hw heff, entries_step he hw heff, flagged_step hf hw he heff⟩
  obtain ⟨hw, he, hf⟩ := run_invariant hstep ⟨wf_init, entries_init, flagged_init⟩ hrun
  have hstep' : ∀ s a t, Wf s ∧ Failed h m msg p s → step handlers s a = some t →
      Wf t ∧ Failed h m msg p t := by
    rintro s a t ⟨hw, hf⟩ hstep
    have heff := step_effect hstep
    exact ⟨wf_step hw heff, failed_step hf hw heff⟩
  exact run_invariant hstep' ⟨hw, failed_of_thrown hw he hf hst hh⟩ hrun'

/-! ## What the client gets -/

theorem Ended.delivered (hended : Ended h m msg (s.cmds p)) (hw : Wf s) (hsync : h.async = false) :
    Delivered s p := by
  have hpending : (s.cmds p).pending = false := hended.left.pending.trans hsync
  refine ⟨hended.resultCode, hpending, fun id createdAt late rq t hl hmem hlate hpop => ?_⟩
  obtain ⟨rq', pc, hl', -, rfl⟩ := popResults_cases hw.rings hpop
  obtain rfl : rq = rq' := Option.some.inj (hl.symm.trans hl')
  have hready : s.ready late p = true := by
    unfold State.ready
    rw [hpending, List.contains_eq_mem, decide_eq_false hlate]
    rfl
  refine ⟨⟨p, s.flushCalls, (s.cmds p).toResult⟩, ?_, rfl, ?_⟩
  · apply List.mem_append_right
    apply List.mem_map_of_mem
    rw [List.mem_reverse, List.mem_filter, List.mem_reverse]
    exact ⟨hmem, hready⟩
  · show (s.cmds p).toResult.resultCode = .error
    rw [Command.toResult, if_pos hended.resultCode]

/-- For every handler that throws before it has queued work for the game loop, in every interleaving:
once the worker is done with the command, it is delivered as failed exactly when the handler was
registered with `get_cmd`.  One registered with `get_async_cmd` stays pending, and no flush returns
it. -/
theorem failed_delivered_iff (hrun : run (step handlers) State.init acts = some s)
    (hthrown : s.worker = .user p (.thrown m msg)) (hh : (s.cmds p).handler = some h)
    (hrun' : run (step handlers) s acts' = some t) (hstored : ∀ st, t.worker ≠ .user p st) :
    (Delivered t p ↔ h.async = false) ∧
    (h.async = true → (t.cmds p).resultCode = .error ∧ (t.cmds p).pending = true ∧
      ∀ f ∈ t.flushed, f.ptr ≠ p) := by
  obtain ⟨hw, hf⟩ := failed_run hrun hthrown hh hrun'
  have hended := hf.ended hstored
  refine ⟨⟨fun hd => ?_, hended.delivered hw⟩, fun hasync => ⟨hended.resultCode, ?_, ?_⟩⟩
  · rw [← hended.left.pending]
    exact hd.pending
  · rw [hended.left.pending, hasync]
  · intro f hmem hptr
    have hsync := (hf.flushed f hmem hptr).1
    rw [hasync] at hsync
    cases hsync

theorem syncThrows_run :
    ∃ s t, run (step fun _ => some storeValueHandler) State.init syncThrows = some s ∧
      s.worker = .user 1 (.thrown [1, 9] "bad value") ∧
      (s.cmds 1).handler = some storeValueHandler ∧
      run (step fun _ => some storeValueHandler) s unwinding = some t ∧
      t.worker = .idle ∧ t.stored = [1] := by
  refine ⟨(run (step fun _ => some storeValueHandler) State.init syncThrows).get (by decide),
    (run (step fun _ => some storeValueHandler)
      ((run (step fun _ => some storeValueHandler) State.init syncThrows).get (by decide))
      unwinding).get (by decide), by simp, by decide, rfl, by simp, by decide, by decide⟩

theorem syncThrows_delivered :
    ∃ s t, run (step fun _ => some storeValueHandler) State.init syncThrows = some s ∧
      run (step fun _ => some storeValueHandler) s unwinding = some t ∧
      t.stored = [1] ∧ Delivered t 1 := by
  obtain ⟨s, t, hrun, hthrown, hh, hrun', hidle, hstored⟩ := syncThrows_run
  have hdone : ∀ st, t.worker ≠ .user 1 st := by
    rw [hidle]
    exact nofun
  exact ⟨s, t, hrun, hrun', hstored, (failed_delivered_iff hrun hthrown hh hrun' hdone).1.mpr rfl⟩

/-- The message of a synchronous command that failed is packed into the result after the catch block
has cleared it: the client gets the message as the handler left it. -/
theorem failed_payload_kept (hrun : run (step handlers) State.init acts = some s)
    (hthrown : s.worker = .user p (.thrown m msg)) (hh : (s.cmds p).handler = some h)
    (hsync : h.async = false) (hpack : ∀ m, h.packFrom m ≠ [])
    (hrun' : run (step handlers) s acts' = some t) (hstored : ∀ st, t.worker ≠ .user p st) :
    (t.cmds p).M = h.packFrom m ∧ (t.cmds p).M ≠ [] ∧
    ∀ f ∈ t.flushed, f.ptr = p → f.result.result = h.packFrom m := by
  obtain ⟨-, hf⟩ := failed_run hrun hthrown hh hrun'
  have hM := (hf.ended hstored).left.M
  rw [if_neg (by rw [hsync]; decide)] at hM
  refine ⟨hM, ?_, fun f hmem hptr => (hf.flushed f hmem hptr).2⟩
  rw [hM]
  exact hpack m

theorem syncThrows_payload_kept :
    ∃ s t, run (step fun _ => some storeValueHandler) State.init syncThrows = some s ∧
      run (step fun _ => some storeValueHandler) s unwinding = some t ∧
      (t.cmds 1).M = [7, 1, 9] ∧ (t.cmds 1).M ≠ [] := by
  obtain ⟨s, t, hrun, hthrown, hh, hrun', hidle, -⟩ := syncThrows_run
  have hdone : ∀ st, t.worker ≠ .user 1 st := by
    rw [hidle]
    exact nofun
  have hkept := failed_payload_kept hrun hthrown hh rfl (List.cons_ne_nil 7) hrun' hdone
  exact ⟨s, t, hrun, hrun', hkept.1, hkept.2.1⟩

end Ra2yrcpp.CommandManager
