import Ra2yrcpp.CommandManager.Ledger

/-!
# Work queued for the game loop

`get_gameloop_command` leaves a bare pointer to the command in `CBGameCommand::work`.  The command
has its `pending` flag set until the game thread is done with it, so no flush lets it go; but the
flag does not keep its result queue from evicting it or from being destroyed, and a discarded result
is not stored at all.
-/

open Ra2yrcpp.Reasoning

namespace Ra2yrcpp.CommandManager

variable {handlers : String → Option Handler} {s t : State} {a : Action} {p : CommandPtr}

/-- Every pointer in `CBGameCommand::work` is to a command that the worker or a result queue owns. -/
def NoDangling (s : State) : Prop := ∀ p ∈ s.work.q.q, s.owned p = true

instance (s : State) : Decidable (NoDangling s) :=
  inferInstanceAs (Decidable (∀ p ∈ s.work.q.q, s.owned p = true))

/-! ## A client that disconnects -/

/-- A client sends a game loop command and disconnects before the next frame. -/
def disconnectBeforeFrame : List Action :=
  connect 1 ++ [.makeCommand "PlaceQuery" [7] 1 false false, .emplace 1] ++
    List.replicate 12 .work ++ disconnect 1

theorem dangling_after_disconnect :
    ∃ s, run (step fun _ => some gameloopHandler) State.init disconnectBeforeFrame = some s ∧
      s.work.q.q = [1] ∧ s.dropped = [(1, .queueDestroyed)] ∧ ¬ NoDangling s := by
  refine ⟨(run (step fun _ => some gameloopHandler) State.init disconnectBeforeFrame).get
    (by decide), by simp, by decide, by decide, by decide⟩

/-! ## Entries of the game thread -/

/-- The pointers in the queue and those the game thread has taken out of it. -/
def State.entries (s : State) : List CommandPtr :=
  s.work.q.q ++ (s.game.items ++ (s.game.current.map Prod.fst).toList)

theorem mem_entries_of_current {pt : GamePoint} (h : s.game.current = some (p, pt)) :
    p ∈ s.entries := by
  unfold State.entries
  rw [h]
  exact List.mem_append_right _ (List.mem_append_right _ (List.mem_singleton_self p))

/-- The handler has not reached `put_work`, and never will after a throw. -/
def Stage.beforePut : Stage → Bool
  | .taken => true
  | .reset => true
  | .constructed _ => true
  | .allocated _ => true
  | .body _ => true
  | .posting _ _ => true
  | .handlerSet _ => true
  | .thrown _ _ => true
  | _ => false

/-- The command was executed at least as far as `put_work`. -/
structure Put (s : State) (p : CommandPtr) : Prop where
  exists_ : p < s.nextPtr
  user : (s.cmds p).base.type = .user
  made : p ∉ s.made
  workQueue : p ∉ s.workQueue
  worker : ∀ st, s.worker = .user p st → st.beforePut = false

structure Entries (s : State) : Prop where
  nodup : s.entries.Nodup
  pending : ∀ p ∈ s.entries, (s.cmds p).pending = true
  put : ∀ p ∈ s.entries, Put s p
  armed : ∀ p m, s.worker = .user p (.handlerSet m) → (s.cmds p).pending = true
  flushed : ∀ f ∈ s.flushed, f.ptr ∉ s.entries

theorem entries_init : Entries State.init where
  nodup := List.nodup_nil
  pending _ h := by cases h
  put _ h := by cases h
  armed _ _ h := by cases h
  flushed _ h := by cases h

theorem Stage.beforePut_of_inFunction {b : Body} {st : Stage} (hst : st.inFunction b = true) :
    st.beforePut = true := by
  cases st with
  | body m => rfl
  | posting m done => rfl
  | _ => cases hst

theorem UserMove.beforePut {h : Handler} {c c' : Command} {st st' : Stage}
    (hmove : UserMove h c st c' st') (hst : st.beforePut = false) : st'.beforePut = false := by
  cases hmove with
  | fnReturns st m hin hbody => rfl
  | fnThrows st m msg hin =>
    rw [Stage.beforePut_of_inFunction hin] at hst
    cases hst
  -- the moves from a stage before `put_work`, and those that end past it
  | _ => first | rfl | cases hst

/-- The worker never clears the flag. -/
theorem UserMove.pending {h : Handler} {c c' : Command} {st st' : Stage}
    (hmove : UserMove h c st c' st') (hc : c.pending = true) : c'.pending = true := by
  cases hmove with
  | allocate m hasync =>
    unfold Command.saveCommandResult
    rw [if_pos hc]
    exact hc
  | setPending => rfl
  | setAsyncHandler => rfl
  | _ => exact hc

/-- `set_async_handler` comes right before. -/
theorem UserMove.armed {h : Handler} {c c' : Command} {st : Stage} {m : Message}
    (hmove : UserMove h c st c' (.handlerSet m)) : c'.pending = true := by
  cases hmove
  rfl

/-! ### Commands stay past `put_work` -/

theorem Put.quiet (h : Put s p) (hq : Quiet s t)
    (hworker : ∀ st, t.worker = .user p st → st.beforePut = false) : Put t p where
  exists_ := by rw [hq.nextPtr]; exact h.exists_
  user := by rw [hq.base]; exact h.user
  made := by rw [hq.made]; exact h.made
  workQueue := by rw [hq.workQueue]; exact h.workQueue
  worker := hworker

theorem Put.make (h : Put s p) (c : Command) :
    Put { s with
      cmds := Function.update s.cmds s.nextPtr c
      nextPtr := s.nextPtr + 1
      made := s.made ++ [s.nextPtr] } p := by
  have hne : p ≠ s.nextPtr := Nat.ne_of_lt h.exists_
  refine ⟨Nat.lt_succ_of_lt h.exists_, ?_, fun hmem => ?_, h.workQueue, h.worker⟩
  · dsimp only
    rw [Function.update_of_ne hne]
    exact h.user
  · rcases List.mem_append.mp hmem with hmem | hmem
    · exact h.made hmem
    · exact hne (List.mem_singleton.mp hmem)

theorem Put.enqueue (h : Put s p) {q : CommandPtr} (hq : q ∈ s.made) :
    Put (enqueueCommand s q) p := by
  refine ⟨h.exists_, h.user, fun hmem => h.made (List.mem_of_mem_erase hmem), fun hmem => ?_,
    h.worker⟩
  rcases mem_push.mp hmem with rfl | hmem
  · exact h.made hq
  · exact h.workQueue hmem

/-- The worker holds no command, or a built-in one. -/
theorem Put.noUser (h : Put s p) (hnext : t.nextPtr = s.nextPtr) (hmade : t.made = s.made)
    (hqueue : t.workQueue = s.workQueue) (hsame : ∀ p, (s.cmds p).Same (t.cmds p))
    (hworker : ∀ st, t.worker ≠ .user p st) : Put t p where
  exists_ := by rw [hnext]; exact h.exists_
  user := by rw [(hsame p).1]; exact h.user
  made := by rw [hmade]; exact h.made
  workQueue := by rw [hqueue]; exact h.workQueue
  worker st hst := absurd hst (hworker st)

/-! What a command past `put_work` is not: the one the worker takes from the work queue, a built-in
one, or one that is about to be put. -/

theorem Put.ne_taken (h : Put s p) {q : CommandPtr} {rest : List CommandPtr}
    (hq : s.workQueue = q :: rest) (st : Stage) :
    (if (s.cmds q).base.type = .user then Worker.user q .taken else .builtin q false) ≠
      .user p st := by
  intro hst
  split at hst
  · obtain ⟨rfl, -⟩ := Worker.user.inj hst
    exact h.workQueue (by rw [hq]; exact List.mem_cons_self)
  · cases hst

theorem Put.ne_builtin (h : Put s p) (hw : Wf s) {q : CommandPtr} {b : Bool}
    (hb : s.worker = .builtin q b) : p ≠ q := by
  rintro rfl
  exact hw.builtin p b hb h.user

theorem Put.ne_armed (h : Put s p) {q : CommandPtr} {m : Message}
    (hst : s.worker = .user q (.handlerSet m)) : p ≠ q := by
  rintro rfl
  have hbefore := h.worker _ hst
  cases hbefore

theorem Put.step (h : Put s p) (hw : Wf s) (heff : Effect handlers s a t) : Put t p := by
  cases heff with
  | makeUser name data q discard done hd =>
    exact (h.make _).quiet (quiet_of_eq rfl fun _ h => h) h.worker
  | makeBuiltin a q size ty io ha hty hio =>
    have hmake := h.make (Command.make ⟨"", q, 0, size, ty⟩ none [] false)
    exact ⟨hmake.exists_, hmake.user, hmake.made, hmake.workQueue, hmake.worker⟩
  | emplace q hmade hty hlock =>
    exact (h.enqueue hmade).quiet (quiet_of_eq rfl fun _ h => h) h.worker
  | enqueue q waiting hmade hty hio hlock =>
    exact (h.enqueue hmade).quiet (quiet_of_eq rfl fun _ h => h) h.worker
  | ioEnqueues q hio hlock =>
    exact (h.enqueue (hw.io q hio).1).quiet (quiet_of_eq rfl fun _ h => by cases h) h.worker
  | ioReturns q hio hcode => exact h.quiet (quiet_of_eq rfl fun _ h => by cases h) h.worker
  | take q rest hidle hq =>
    refine ⟨h.exists_, h.user, h.made, fun hmem => h.workQueue ?_, fun st hst => ?_⟩
    · rw [hq]
      exact List.mem_cons_of_mem _ ((hw.pop_perm hq).mem_iff.mp hmem)
    · exact absurd hst (h.ne_taken hq st)
  | createQueue q hb hty =>
    obtain ⟨_, _, heq⟩ := createQueue_frame s (s.cmds q).base.queueId (s.cmds q).base.queueSize
    rw [heq]
    exact h.noUser rfl rfl rfl (fun _ => Command.Same.refl _) (fun _ => by simp)
  | destroyQueue q hb hty =>
    obtain ⟨_, _, heq⟩ := destroyQueue_frame s (s.cmds q).base.queueId
    rw [heq]
    exact h.noUser rfl rfl rfl (fun _ => Command.Same.refl _) (fun _ => by simp)
  | shutdown q hb hty => exact h.noUser rfl rfl rfl (fun _ => Command.Same.refl _) (fun _ => by simp)
  | finishBuiltin q hb =>
    have hsame : (s.cmds q).Same { s.cmds q with resultCode := .ok } := ⟨rfl, rfl, rfl⟩
    exact h.noUser rfl rfl rfl (same_update hsame) (fun _ => by simp [finishBuiltin])
  | userMove a q st st' hd c hst hh hmove hposted hassign =>
    apply h.quiet (quiet_advance hst hmove.base_eq)
    intro st'' hst''
    obtain ⟨rfl, rfl⟩ := Worker.user.inj hst''
    exact hmove.beforePut (h.worker st hst)
  | putWork q m hst =>
    refine h.quiet (quiet_putWork hst _) fun st hst' => ?_
    obtain ⟨-, rfl⟩ := Worker.user.inj hst'
    rfl
  | recordPending q hst =>
    refine h.quiet (quiet_recordPending hst _) fun st hst' => ?_
    obtain ⟨-, rfl⟩ := Worker.user.inj hst'
    rfl
  | store t q hst hstore =>
    obtain ⟨_, _, rfl⟩ := storeResult_frame hstore
    exact h.noUser rfl rfl rfl (fun _ => Command.Same.refl _) (fun _ => by simp)
  | popResults t id createdAt late hpop =>
    obtain ⟨rq, pc, -, -, rfl⟩ := popResults_cases hw.rings hpop
    exact ⟨h.exists_, h.user, h.made, h.workQueue, h.worker⟩
  | handlerPacks q any hgame howned => exact h.quiet (quiet_handlerPacks s q any _) h.worker
  | finishItem q pt c pt' hgame howned hmove => exact h.quiet (quiet_finishItem hmove _) h.worker
  | _ => exact h.quiet (quiet_of_eq rfl fun _ h => h) h.worker

/-! ### Entries are pending -/

theorem Wf.held_lt (hw : Wf s) {st : Stage} (hst : s.worker = .user p st) : p < s.nextPtr := by
  exact hw.lt_of_copies (copies_pos_of_held (mem_held_of_user hst))

/-- Steps that keep the entries, and the flags of the commands that have one. -/
theorem Entries.frame (h : Entries s) (hput : ∀ p, Put s p → Put t p)
    (hentries : t.entries.Perm s.entries)
    (hpending : ∀ p ∈ s.entries, (t.cmds p).pending = true)
    (harmed : ∀ p m, t.worker = .user p (.handlerSet m) → (t.cmds p).pending = true)
    (hflushed : t.flushed = s.flushed) : Entries t where
  nodup := hentries.nodup_iff.mpr h.nodup
  pending p hp := hpending p (hentries.mem_iff.mp hp)
  put p hp := hput p (h.put p (hentries.mem_iff.mp hp))
  armed := harmed
  flushed f hf hmem := h.flushed f (hflushed ▸ hf) (hentries.mem_iff.mp hmem)

/-- Steps that change no flag. -/
theorem Entries.sameFlags (h : Entries s) (hput : ∀ p, Put s p → Put t p)
    (hentries : t.entries.Perm s.entries)
    (hpending : ∀ p, p < s.nextPtr → (t.cmds p).pending = (s.cmds p).pending)
    (harmed : ∀ p m, t.worker = .user p (.handlerSet m) → s.worker = t.worker ∧ p < s.nextPtr)
    (hflushed : t.flushed = s.flushed) : Entries t := by
  apply h.frame hput hentries
  · intro p hp
    rw [hpending p (h.put p hp).exists_]
    exact h.pending p hp
  · intro p m hst
    obtain ⟨heq, hlt⟩ := harmed p m hst
    rw [hpending p hlt]
    exact h.armed p m (heq.trans hst)
  · exact hflushed

/-- A field that an update leaves as it is. -/
theorem update_field {α : Type} (f : Command → α) {c : Command} (hc : f c = f (s.cmds p))
    (q : CommandPtr) : f (Function.update s.cmds p c q) = f (s.cmds q) := by
  by_cases hqp : q = p
  · subst hqp
    rw [Function.update_self]
    exact hc
  · rw [Function.update_of_ne hqp]

/-- The worker goes on with its command. -/
theorem Entries.advance (h : Entries s) {st' : Stage} {c : Command}
    (hput : ∀ q, Put s q → Put (s.advance p c st') q)
    (hpending : (s.cmds p).pending = true → c.pending = true)
    (harmed : ∀ m, st' = .handlerSet m → c.pending = true) : Entries (s.advance p c st') := by
  refine h.frame hput (List.Perm.refl _) (fun q hq => ?_) (fun q m hst => ?_) rfl
  · change (Function.update s.cmds p c q).pending = true
    by_cases hqp : q = p
    · subst hqp
      rw [Function.update_self]
      exact hpending (h.pending q hq)
    · rw [Function.update_of_ne hqp]
      exact h.pending q hq
  · obtain ⟨rfl, rfl⟩ := Worker.user.inj hst
    change (Function.update s.cmds _ c _).pending = true
    rw [Function.update_self]
    exact harmed m rfl

theorem Wf.held_not_flushed (hw : Wf s) {f : Flushed} (hf : f ∈ s.flushed) {st : Stage}
    (hst : s.worker = .user f.ptr st) : False := by
  have hdone := hw.done_alone (Or.inr (Or.inl (List.mem_map_of_mem hf)))
  exact hdone.2.2.2 (mem_held_of_user hst)

theorem Entries.putWork (h : Entries s) (hw : Wf s) {m : Message}
    (hst : s.worker = .user p (.handlerSet m))
    (hput : ∀ q, Put s q → Put { s.advance p (s.cmds p) (.closing m none) with
      work := ⟨⟨s.work.q.q ++ [p]⟩, s.work.maxSize⟩ } q) :
    Entries { s.advance p (s.cmds p) (.closing m none) with
      work := ⟨⟨s.work.q.q ++ [p]⟩, s.work.maxSize⟩ } := by
  have hnot : p ∉ s.entries := fun hmem => (h.put p hmem).ne_armed hst rfl
  -- the entry is new, and joins the others
  have hperm : (s.work.q.q ++ [p] ++ (s.game.items ++ (s.game.current.map Prod.fst).toList)).Perm
      (p :: s.entries) := by
    rw [List.append_assoc]
    exact List.perm_middle
  have hcmds : (Function.update s.cmds p (s.cmds p)) = s.cmds := Function.update_eq_self ..
  have hnew : Put { s.advance p (s.cmds p) (.closing m none) with
      work := ⟨⟨s.work.q.q ++ [p]⟩, s.work.maxSize⟩ } p := by
    -- the worker has the command, so nobody else does
    obtain ⟨hmade, hqueue⟩ := hw.held_alone (mem_held_of_user hst)
    refine ⟨hw.held_lt hst, ?_, hmade, hqueue, fun st hst' => ?_⟩
    · change (Function.update s.cmds p (s.cmds p) p).base.type = _
      rw [hcmds]
      exact hw.user p _ hst
    · obtain ⟨-, rfl⟩ := Worker.user.inj hst'
      rfl
  refine ⟨?_, fun q hq => ?_, fun q hq => ?_, fun q m' hst' => (by cases hst'), fun f hf hmem => ?_⟩
  · exact hperm.nodup_iff.mpr (List.nodup_cons.mpr ⟨hnot, h.nodup⟩)
  · change (Function.update s.cmds p (s.cmds p) q).pending = true
    rw [hcmds]
    rcases List.mem_cons.mp (hperm.mem_iff.mp hq) with rfl | hq
    · exact h.armed q m hst
    · exact h.pending q hq
  · rcases List.mem_cons.mp (hperm.mem_iff.mp hq) with rfl | hq
    · exact hnew
    · exact hput q (h.put q hq)
  · rcases List.mem_cons.mp (hperm.mem_iff.mp hmem) with heq | hmem
    · exact hw.held_not_flushed hf (heq ▸ hst)
    · exact h.flushed f hf hmem

theorem Entries.pop (h : Entries s) (hw : Wf s) {id : QueueId} {createdAt : Nat}
    {late : List CommandPtr} (hput : ∀ p, Put s p → Put t p)
    (hpop : popResults s id createdAt late = some t) : Entries t := by
  obtain ⟨rq, pc, hl, -, rfl⟩ := popResults_cases hw.rings hpop
  refine ⟨h.nodup, h.pending, fun p hp => hput p (h.put p hp), h.armed, fun f hf hmem => ?_⟩
  rcases List.mem_append.mp hf with hf | hf
  · exact h.flushed f hf hmem
  · -- what a flush returns was read as not pending
    obtain ⟨q, hq, rfl⟩ := List.mem_map.mp hf
    have hready := (List.mem_filter.mp (List.mem_reverse.mp hq)).2
    have hpending := h.pending q hmem
    unfold State.ready at hready
    rw [hpending] at hready
    cases hready

/-- The game thread is done with its item: the flag may go. -/
theorem Entries.clearPending (h : Entries s) {c : Command}
    (hcurrent : s.game.current.map Prod.fst = some p)
    (hput : ∀ q, Put s q → Put { s.setCommand p c with game := ⟨s.game.items, none⟩ } q) :
    Entries { s.setCommand p c with game := ⟨s.game.items, none⟩ } := by
  -- the entry of the item that is done goes, and no other is for the same command
  have hperm : s.entries.Perm (p :: (s.work.q.q ++ (s.game.items ++ []))) := by
    unfold State.entries
    rw [hcurrent, List.append_nil, ← List.append_assoc]
    exact List.perm_append_singleton p _
  obtain ⟨hnot, hnodup⟩ := List.nodup_cons.mp (hperm.nodup_iff.mp h.nodup)
  have hsub : ∀ q, q ∈ s.work.q.q ++ (s.game.items ++ []) → q ∈ s.entries ∧ q ≠ p := by
    intro q hq
    refine ⟨hperm.mem_iff.mpr (List.mem_cons_of_mem _ hq), ?_⟩
    rintro rfl
    exact hnot hq
  refine ⟨hnodup, fun q hq => ?_, fun q hq => ?_, fun q m hst => ?_, fun f hf hmem => ?_⟩
  · obtain ⟨hmem, hne⟩ := hsub q hq
    change (Function.update s.cmds p c q).pending = true
    rw [Function.update_of_ne hne]
    exact h.pending q hmem
  · exact hput q (h.put q (hsub q hq).1)
  · -- the worker is not at `put_work` with a command that has an entry already
    have hne : q ≠ p := ((h.put p (hperm.mem_iff.mpr List.mem_cons_self)).ne_armed hst).symm
    change (Function.update s.cmds p c q).pending = true
    rw [Function.update_of_ne hne]
    exact h.armed q m hst
  · exact h.flushed f hf (hsub _ hmem).1

theorem entries_step (h : Entries s) (hw : Wf s) (heff : Effect handlers s a t) : Entries t := by
  have hput : ∀ p, Put s p → Put t p := fun p hp => hp.step hw heff
  have hnew : ∀ (c : Command) p, p < s.nextPtr →
      (Function.update s.cmds s.nextPtr c p).pending = (s.cmds p).pending := by
    intro c p hp
    rw [Function.update_of_ne (Nat.ne_of_lt hp)]
  have hkeep : ∀ p m, s.worker = .user p (.handlerSet m) → s.worker = s.worker ∧ p < s.nextPtr :=
    fun p m hst => ⟨rfl, hw.held_lt hst⟩
  cases heff with
  | makeUser name data q discard done hd =>
    exact h.sameFlags hput (List.Perm.refl _) (hnew _) hkeep rfl
  | makeBuiltin a q size ty io ha hty hio =>
    exact h.sameFlags hput (List.Perm.refl _) (hnew _) hkeep rfl
  | take p rest hidle hq =>
    refine h.sameFlags hput (List.Perm.refl _) (fun _ _ => rfl) (fun q m hst => ?_) rfl
    dsimp only at hst
    split at hst <;> cases hst
  | createQueue p hb hty =>
    obtain ⟨_, _, heq⟩ := createQueue_frame s (s.cmds p).base.queueId (s.cmds p).base.queueSize
    rw [heq] at hput ⊢
    exact h.sameFlags hput (List.Perm.refl _) (fun _ _ => rfl) (fun _ _ hst => by cases hst) rfl
  | destroyQueue p hb hty =>
    obtain ⟨_, _, heq⟩ := destroyQueue_frame s (s.cmds p).base.queueId
    rw [heq] at hput ⊢
    exact h.sameFlags hput (List.Perm.refl _) (fun _ _ => rfl) (fun _ _ hst => by cases hst) rfl
  | shutdown p hb hty =>
    exact h.sameFlags hput (List.Perm.refl _) (fun _ _ => rfl) (fun _ _ hst => by cases hst) rfl
  | finishBuiltin p hb =>
    exact h.sameFlags hput (List.Perm.refl _)
      (fun q _ => update_field Command.pending (c := { s.cmds p with resultCode := .ok }) rfl q)
      (fun _ _ hst => by cases hst) rfl
  | userMove a p st st' hd c hst hh hmove hposted hassign =>
    exact h.advance hput hmove.pending fun m heq => UserMove.armed (heq ▸ hmove)
  -- the one step that makes an entry
  | putWork p m hst => exact h.putWork hw hst hput
  | recordPending p hst =>
    exact h.sameFlags hput (List.Perm.refl _) (fun q _ => update_field Command.pending rfl q)
      (fun _ _ hst => by cases hst) rfl
  | store t p hst hstore =>
    obtain ⟨_, _, rfl⟩ := storeResult_frame hstore
    exact h.sameFlags hput (List.Perm.refl _) (fun _ _ => rfl) (fun _ _ hst => by cases hst) rfl
  | popResults t id createdAt late hpop => exact h.pop hw hput hpop
  | drain hgame =>
    -- the entries move from the queue to the game thread
    refine h.sameFlags hput ?_ (fun _ _ => rfl) hkeep rfl
    unfold State.entries
    rw [hgame]
    simp
  | startItem p items hgame howned =>
    refine h.sameFlags hput ?_ (fun _ _ => rfl) hkeep rfl
    unfold State.entries
    rw [hgame]
    apply List.Perm.append_left
    change (items ++ [p]).Perm (p :: items ++ [])
    rw [List.append_nil]
    exact List.perm_append_singleton p items
  | handlerPacks p any hgame howned =>
    exact h.sameFlags hput (List.Perm.refl _)
      (fun q _ => update_field Command.pending (c := { s.cmds p with M := any }) rfl q) hkeep rfl
  | handlerReturns p hgame howned =>
    refine h.sameFlags hput ?_ (fun _ _ => rfl) hkeep rfl
    unfold State.entries
    rw [hgame]
    exact List.Perm.refl _
  | handlerThrows p msg hgame howned =>
    refine h.sameFlags hput ?_ (fun _ _ => rfl) hkeep rfl
    unfold State.entries
    rw [hgame]
    exact List.Perm.refl _
  | finishItem p pt c pt' hgame howned hmove =>
    have hcurrent : s.game.current.map Prod.fst = some p := by rw [hgame]; rfl
    have hentries : (s.work.q.q ++ (s.game.items ++ [p])).Perm s.entries := by
      unfold State.entries
      rw [hcurrent]
      exact List.Perm.refl _
    cases hmove with
    -- the one step that clears a flag
    | clearPending => exact h.clearPending hcurrent hput
    | assign msg =>
      exact h.sameFlags hput hentries
        (fun q _ => update_field Command.pending (c := { s.cmds p with errorMessage := msg }) rfl q) hkeep rfl
    | storeError =>
      exact h.sameFlags hput hentries
        (fun q _ => update_field Command.pending (c := { s.cmds p with resultCode := .error }) rfl q) hkeep rfl
  | _ => exact h.sameFlags hput (List.Perm.refl _) (fun _ _ => rfl) hkeep rfl

/-! ## Commands that are let go -/

/-- The commands whose last owner a step gives up: a result that is discarded, has no queue or
evicts another one, and those in a queue that is destroyed. -/
def State.releases (s : State) : Action → List CommandPtr
  | .work =>
    match s.worker with
    | .user p .storing =>
      if (s.cmds p).discardResult then [p]
      else
        match s.results.lookup (s.cmds p).base.queueId with
        | none => [p]
        | some rq => rq.q.q.evicted.toList
    | .builtin p false =>
      if (s.cmds p).base.type = .destroyQueue then
        ((s.results.lookup (s.cmds p).base.queueId).map ResultQueue.contents).getD []
      else []
    | _ => []
  | _ => []

/-- The step lets go of no command that has an entry in `CBGameCommand::work`. -/
def ReleasesNoEntry (s : State) (a : Action) : Prop := ∀ p ∈ s.releases a, p ∉ s.work.q.q

instance (s : State) (a : Action) : Decidable (ReleasesNoEntry s a) :=
  inferInstanceAs (Decidable (∀ p ∈ s.releases a, p ∉ s.work.q.q))

theorem owned_iff : s.owned p = true ↔ p ∈ s.worker.held ∨ p ∈ s.stored := by
  unfold State.owned State.stored contents
  simp [List.mem_flatMap]

theorem Wf.executed_count (hw : Wf s) (hty : (s.cmds p).base.type = .user) :
    s.executed.count p = 0 :=
  List.count_eq_zero.mpr fun hmem => hw.executed p hmem hty

/-- A command with an entry is owned unless it was dropped. -/
theorem Entries.owned_iff (h : Entries s) (hw : Wf s) (hp : p ∈ s.entries) :
    s.owned p = true ↔ p ∉ s.dropped.map Prod.fst := by
  have hput := h.put p hp
  have hone := hw.copies p
  rw [if_pos hput.exists_] at hone
  have hmade : s.made.count p = 0 := List.count_eq_zero.mpr hput.made
  have hqueue : s.workQueue.count p = 0 := List.count_eq_zero.mpr hput.workQueue
  have hexecuted := hw.executed_count hput.user
  -- it is with the worker, in a result queue, or dropped: no other place is left
  have hflushed : (s.flushed.map Flushed.ptr).count p = 0 := by
    rw [List.count_eq_zero]
    intro hmem
    obtain ⟨f, hf, rfl⟩ := List.mem_map.mp hmem
    exact h.flushed f hf hp
  unfold State.copies at hone
  rw [CommandManager.owned_iff, ← List.count_pos_iff, ← List.count_pos_iff, ← List.count_eq_zero]
  omega

theorem UserMove.ne_storing {h : Handler} {c c' : Command} {st st' : Stage}
    (hmove : UserMove h c st c' st') : st ≠ .storing := by
  rintro rfl
  cases hmove with
  | fnReturns _ m hin hbody => cases hin
  | fnThrows _ m msg hin => cases hin

theorem releases_of_user {st : Stage} (hst : s.worker = .user p st) (hne : st ≠ .storing)
    (a : Action) : s.releases a = [] := by
  cases a with
  | work =>
    unfold State.releases
    rw [hst]
    cases st <;> first | rfl | exact absurd rfl hne
  | _ => rfl

/-- The dropped commands are those that the steps released. -/
theorem Effect.dropped (heff : Effect handlers s a t) (hw : Wf s) :
    t.dropped.map Prod.fst = s.dropped.map Prod.fst ++ s.releases a := by
  have hnil : s.dropped.map Prod.fst = s.dropped.map Prod.fst ++ [] := (List.append_nil _).symm
  cases heff with
  | makeBuiltin a q size ty io ha hty hio =>
    have hrel : s.releases a = [] := by
      cases a with
      | work => exact absurd rfl ha
      | _ => rfl
    rw [hrel]
    exact hnil
  | take p rest hidle hq =>
    unfold State.releases
    rw [hidle]
    exact hnil
  | createQueue p hb hty =>
    have hrel : s.releases .work = [] := by
      unfold State.releases
      rw [hb]
      exact if_neg (by rw [hty]; decide)
    rw [hrel]
    obtain ⟨_, _, heq⟩ := createQueue_frame s (s.cmds p).base.queueId (s.cmds p).base.queueSize
    rw [heq]
    exact hnil
  | destroyQueue p hb hty =>
    have hrel : s.releases .work =
        ((s.results.lookup (s.cmds p).base.queueId).map ResultQueue.contents).getD [] := by
      unfold State.releases
      rw [hb]
      exact if_pos hty
    rw [hrel]
    rcases destroyQueue_cases s (s.cmds p).base.queueId with ⟨hl, heq⟩ | ⟨rq, hl, heq⟩
    · rw [heq, hl]
      exact hnil
    · rw [heq, hl]
      dsimp only
      rw [List.map_append, List.map_map]
      congr 1
      exact List.map_id _
  | shutdown p hb hty =>
    have hrel : s.releases .work = [] := by
      unfold State.releases
      rw [hb]
      exact if_neg (by rw [hty]; decide)
    rw [hrel]
    exact hnil
  | finishBuiltin p hb =>
    have hrel : s.releases .work = [] := by
      unfold State.releases
      rw [hb]
    rw [hrel]
    exact hnil
  | userMove a p st st' hd c hst hh hmove hposted hassign =>
    rw [releases_of_user hst hmove.ne_storing]
    exact hnil
  | putWork p m hst =>
    rw [releases_of_user hst (by simp)]
    exact hnil
  | recordPending p hst =>
    rw [releases_of_user hst (by simp)]
    exact hnil
  | store t p hst hstore =>
    unfold State.releases
    rw [hst]
    dsimp only
    rcases storeResult_cases hstore with ⟨hd, rfl⟩ | ⟨hd, hl, rfl⟩ | ⟨rq, hd, hl, rfl⟩
    · rw [if_pos hd, List.map_append]
      rfl
    · rw [if_neg (by rw [hd]; decide), hl, List.map_append]
      rfl
    · rw [if_neg (by rw [hd]; decide), hl, List.map_append, List.map_map]
      congr 1
      exact List.map_id _
  | popResults t id createdAt late hpop =>
    obtain ⟨rq, pc, -, -, rfl⟩ := popResults_cases hw.rings hpop
    exact hnil
  | _ => exact hnil

/-- What a step can do to `CBGameCommand::work`; it changes only when nothing is released. -/
theorem Effect.work (heff : Effect handlers s a t) (hw : Wf s) :
    t.work.q.q = s.work.q.q ∨ (s.releases a = [] ∧
      (t.work.q.q = [] ∨ ∃ p ∈ t.worker.held, t.work.q.q = s.work.q.q ++ [p])) := by
  cases heff with
  | createQueue p hb hty =>
    left
    obtain ⟨_, _, heq⟩ := createQueue_frame s (s.cmds p).base.queueId (s.cmds p).base.queueSize
    rw [heq]
  | destroyQueue p hb hty =>
    left
    obtain ⟨_, _, heq⟩ := destroyQueue_frame s (s.cmds p).base.queueId
    rw [heq]
  | putWork p m hst =>
    exact Or.inr ⟨releases_of_user hst (by simp) _, Or.inr ⟨p, List.mem_singleton_self p, rfl⟩⟩
  | store t p hst hstore =>
    left
    obtain ⟨_, _, rfl⟩ := storeResult_frame hstore
    rfl
  | popResults t id createdAt late hpop =>
    left
    obtain ⟨rq, pc, -, -, rfl⟩ := popResults_cases hw.rings hpop
    rfl
  | drain hgame => exact Or.inr ⟨rfl, Or.inl rfl⟩
  | _ => exact Or.inl rfl

theorem mem_entries_of_work (h : p ∈ s.work.q.q) : p ∈ s.entries := List.mem_append_left _ h

/-- One step keeps the pointers valid exactly when it releases no command with an entry. -/
theorem noDangling_step_iff (hw : Wf s) (he : Entries s) (hs : NoDangling s)
    (heff : Effect handlers s a t) : NoDangling t ↔ ReleasesNoEntry s a := by
  have hw' := wf_step hw heff
  have he' := entries_step he hw heff
  have hdropped := heff.dropped hw
  have hfree : ∀ p ∈ s.work.q.q, p ∉ s.dropped.map Prod.fst := fun p hp =>
    (he.owned_iff hw (mem_entries_of_work hp)).mp (hs p hp)
  have hiff : ∀ p ∈ t.work.q.q,
      (t.owned p = true ↔ p ∉ s.dropped.map Prod.fst ∧ p ∉ s.releases a) := by
    intro p hp
    rw [he'.owned_iff hw' (mem_entries_of_work hp), hdropped, List.mem_append, not_or]
  rcases heff.work hw with hwork | ⟨hrel, hwork⟩
  -- the entries stay: an owner is lost by a release only
  · constructor
    · intro hd p hp hmem
      rw [← hwork] at hmem
      exact ((hiff p hmem).mp (hd p hmem)).2 hp
    · intro hok p hp
      rw [hiff p hp]
      rw [hwork] at hp
      exact ⟨hfree p hp, fun hmem => hok p hmem hp⟩
  -- the game thread takes all entries, or the worker adds one for the command it holds
  · have hok : ReleasesNoEntry s a := by
      intro p hp
      rw [hrel] at hp
      cases hp
    refine ⟨fun _ => hok, fun _ p hp => ?_⟩
    rcases hwork with hwork | ⟨q, hq, hwork⟩
    · rw [hwork] at hp
      cases hp
    · have hp' := hp
      rw [hwork] at hp'
      rcases List.mem_append.mp hp' with hold | hnew
      · rw [hiff p hp, hrel]
        exact ⟨hfree p hold, List.not_mem_nil⟩
      · rw [List.mem_singleton.mp hnew]
        exact CommandManager.owned_iff.mpr (Or.inl hq)

/-- All along a run the pointers are valid exactly when every step of it that lets commands go lets
go of none that still has an entry in `CBGameCommand::work`. -/
theorem noDangling_iff_releasesNoEntry {acts : List Action}
    (hrun : run (step handlers) State.init acts = some s) :
    Always (step handlers) NoDangling State.init acts ↔
      Conforms (step handlers) ReleasesNoEntry State.init acts := by
  have hinv : ∀ s a t, Wf s ∧ Entries s → step handlers s a = some t → Wf t ∧ Entries t :=
    fun s a t hi h =>
      ⟨wf_step hi.1 (step_effect h), entries_step hi.2 hi.1 (step_effect h)⟩
  exact always_iff_conforms hinv
    (fun s a t hi hs h => noDangling_step_iff hi.1 hi.2 hs (step_effect h))
    ⟨wf_init, entries_init⟩ (fun _ h => by cases h) hrun

/-- The client waits for the game thread and its result before it disconnects. -/
def disconnectAfterFrame : List Action :=
  connect 1 ++ [.makeCommand "PlaceQuery" [7] 1 false false, .emplace 1] ++
    List.replicate 12 .work ++
    [.drain, .startItem, .handlerPacks [9], .handlerReturns, .finishItem] ++ disconnect 1

theorem disconnectAfterFrame_noDangling :
    Always (step fun _ => some gameloopHandler) NoDangling State.init disconnectAfterFrame := by
  have hrun : run (step fun _ => some gameloopHandler) State.init disconnectAfterFrame =
      some ((run (step fun _ => some gameloopHandler) State.init disconnectAfterFrame).get
        (by decide)) := by
    simp
  exact (noDangling_iff_releasesNoEntry hrun).mpr (by decide)

end Ra2yrcpp.CommandManager
