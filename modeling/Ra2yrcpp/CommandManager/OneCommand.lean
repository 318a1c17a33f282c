import Ra2yrcpp.CommandManager.GameWork

/-!
# What a step does to one command

A `USER` command waits for the worker, is executed, and is stored.  The worker is the only thread that
writes to it, unless it is in `CBGameCommand::work` or with the game thread.  `Course` lists what a
step can do to such a command and to the worker that holds it.
-/

open Ra2yrcpp.Reasoning

namespace Ra2yrcpp.CommandManager

variable {handlers : String → Option Handler} {s t : State} {a : Action} {p : CommandPtr}

/-- The worker has not taken the command yet. -/
def State.waits (s : State) (p : CommandPtr) : Prop := p ∈ s.made ∨ p ∈ s.workQueue

inductive Course (s t : State) (p : CommandPtr) : Prop
  | same (hworker : ∀ st, t.worker = .user p st ↔ s.worker = .user p st)
      (hwaits : t.waits p ↔ s.waits p) (hcmd : p ∉ s.entries → t.cmds p = s.cmds p)
      (hentries : p ∈ t.entries → p ∈ s.entries)
  | taken (hwaits : s.waits p) (hworker : t.worker = .user p .taken) (hcmd : t.cmds p = s.cmds p)
      (hentries : p ∈ t.entries → p ∈ s.entries)
  | move (st st' : Stage) (h : Handler) (c : Command) (hst : s.worker = .user p st)
      (hh : st.foreign = false → (s.cmds p).handler = some h) (hmove : UserMove h (s.cmds p) st c st')
      (hst' : t.worker = .user p st') (hcmd : t.cmds p = c)
      (hentries : p ∈ t.entries → p ∈ s.entries)
  | put (m : Message) (hst : s.worker = .user p (.handlerSet m))
      (hst' : t.worker = .user p (.closing m none)) (hcmd : t.cmds p = s.cmds p)
  | record (hst : s.worker = .user p .finished) (hst' : t.worker = .user p .storing)
      (hcmd : t.cmds p = s.cmds p) (hentries : p ∈ t.entries → p ∈ s.entries)
  | store (hst : s.worker = .user p .storing) (hworker : ∀ st, t.worker ≠ .user p st)
      (hwaits : t.waits p ↔ s.waits p) (hcmd : t.cmds p = s.cmds p)
      (hentries : p ∈ t.entries → p ∈ s.entries)

/-- Steps of other threads. -/
theorem course_of_eq (hworker : t.worker = s.worker) (hwaits : t.waits p ↔ s.waits p)
    (hcmd : p ∉ s.entries → t.cmds p = s.cmds p) (hentries : p ∈ t.entries → p ∈ s.entries) :
    Course s t p :=
  .same (fun st => by rw [hworker]) hwaits hcmd hentries

/-- The worker is busy with another command, before and after. -/
theorem course_of_ne (hs : ∀ st, s.worker ≠ .user p st) (ht : ∀ st, t.worker ≠ .user p st)
    (hwaits : t.waits p ↔ s.waits p) (hcmd : t.cmds p = s.cmds p) (hentries : t.entries = s.entries) :
    Course s t p := by
  refine .same (fun st => ⟨fun h => absurd h (ht st), fun h => absurd h (hs st)⟩) hwaits
    (fun _ => hcmd) ?_
  rw [hentries]
  exact id

theorem waits_make (hlt : p < s.nextPtr) (hmade : t.made = s.made ++ [s.nextPtr])
    (hqueue : t.workQueue = s.workQueue) : t.waits p ↔ s.waits p := by
  have hne : p ≠ s.nextPtr := Nat.ne_of_lt hlt
  unfold State.waits
  rw [hmade, hqueue, List.mem_append, List.mem_singleton]
  simp [hne]

/-- A command that is enqueued waits in the queue instead. -/
theorem waits_enqueue {q : CommandPtr} (hq : q ∈ s.made) (hmade : t.made = s.made.erase q)
    (hqueue : t.workQueue = Heap.push (queueCompare s.cmds) s.workQueue q) :
    t.waits p ↔ s.waits p := by
  unfold State.waits
  rw [hmade, hqueue, mem_push]
  by_cases hpq : p = q
  · subst hpq
    simp [hq]
  · rw [List.mem_erase_of_ne hpq]
    simp [hpq]

theorem waits_take (hw : Wf s) {q : CommandPtr} {rest : List CommandPtr}
    (hq : s.workQueue = q :: rest) (hpq : p ≠ q) (hmade : t.made = s.made)
    (hqueue : t.workQueue = Heap.pop (queueCompare s.cmds) s.workQueue) : t.waits p ↔ s.waits p := by
  unfold State.waits
  rw [hmade, hqueue, (hw.pop_perm hq).mem_iff, hq, List.mem_cons]
  simp [hpq]

/-- A command that waits is not with the worker. -/
theorem Wf.not_waits (hw : Wf s) {st : Stage} (hst : s.worker = .user p st) : ¬ s.waits p := by
  obtain ⟨hmade, hqueue⟩ := hw.held_alone (mem_held_of_user hst)
  rintro (hmem | hmem)
  · exact hmade hmem
  · exact hqueue hmem

theorem user_ne {q : CommandPtr} (hpq : p ≠ q) (st st' : Stage) :
    Worker.user q st ≠ .user p st' := by
  intro heq
  exact hpq (Worker.user.inj heq).1.symm

theorem Effect.course (heff : Effect handlers s a t) (hw : Wf s) (hlt : p < s.nextPtr)
    (huser : (s.cmds p).base.type = .user) : Course s t p := by
  have hnew : ∀ c : Command, Function.update s.cmds s.nextPtr c p = s.cmds p := fun c =>
    Function.update_of_ne (Nat.ne_of_lt hlt) ..
  -- a built-in command is not this one
  have hbuiltin : ∀ q b, s.worker = .builtin q b → p ≠ q := by
    rintro q b hb rfl
    exact hw.builtin p b hb huser
  cases heff with
  | makeUser name data q discard done hd =>
    exact course_of_eq rfl (waits_make hlt rfl rfl) (fun _ => hnew _) id
  | makeBuiltin a q size ty io ha hty hio =>
    exact course_of_eq rfl (waits_make hlt rfl rfl) (fun _ => hnew _) id
  | emplace q hmade hty hlock =>
    exact course_of_eq rfl (waits_enqueue hmade rfl rfl) (fun _ => rfl) id
  | enqueue q waiting hmade hty hio hlock =>
    exact course_of_eq rfl (waits_enqueue hmade rfl rfl) (fun _ => rfl) id
  | ioEnqueues q hio hlock =>
    exact course_of_eq rfl (waits_enqueue (hw.io q hio).1 rfl rfl) (fun _ => rfl) id
  | take q rest hidle hq =>
    by_cases hpq : p = q
    · subst hpq
      have hwaits : s.waits p := Or.inr (by rw [hq]; exact List.mem_cons_self)
      exact .taken hwaits (if_pos huser) rfl id
    · refine course_of_ne (fun st hst => ?_) (fun st hst => ?_) (waits_take hw hq hpq rfl rfl) rfl rfl
      · rw [hidle] at hst
        cases hst
      · dsimp only at hst
        split at hst
        · exact hpq (Worker.user.inj hst).1.symm
        · cases hst
  | createQueue q hb hty =>
    have hs : ∀ st, s.worker ≠ .user p st := by simp [hb]
    obtain ⟨_, _, heq⟩ := createQueue_frame s (s.cmds q).base.queueId (s.cmds q).base.queueSize
    rw [heq]
    exact course_of_ne hs (by simp) Iff.rfl rfl rfl
  | destroyQueue q hb hty =>
    have hs : ∀ st, s.worker ≠ .user p st := by simp [hb]
    obtain ⟨_, _, heq⟩ := destroyQueue_frame s (s.cmds q).base.queueId
    rw [heq]
    exact course_of_ne hs (by simp) Iff.rfl rfl rfl
  | shutdown q hb hty =>
    exact course_of_ne (by simp [hb]) (by simp) Iff.rfl rfl rfl
  | finishBuiltin q hb =>
    refine course_of_ne (by simp [hb]) (fun st hst => by cases hst) Iff.rfl ?_ rfl
    exact Function.update_of_ne (hbuiltin q true hb) ..
  | userMove a q st st' hd c hst hh hmove hposted hassign =>
    by_cases hpq : p = q
    · subst hpq
      exact .move st st' hd c hst hh hmove rfl (Function.update_self ..) id
    · refine course_of_ne (fun st₀ => ?_) (user_ne hpq st') Iff.rfl (Function.update_of_ne hpq ..) rfl
      rw [hst]
      exact user_ne hpq st st₀
  | putWork q m hst =>
    have hcmds : Function.update s.cmds q (s.cmds q) = s.cmds := Function.update_eq_self ..
    by_cases hpq : p = q
    · subst hpq
      exact .put m hst rfl (congrFun hcmds p)
    · refine .same (fun st' => ?_) Iff.rfl (fun _ => congrFun hcmds p) fun hmem => ?_
      · rw [hst]
        exact ⟨fun h => absurd h (user_ne hpq _ st'), fun h => absurd h (user_ne hpq _ st')⟩
      · -- the new entry is for the other command
        change p ∈ s.work.q.q ++ [q] ++ (s.game.items ++ (s.game.current.map Prod.fst).toList) at hmem
        unfold State.entries
        simp only [List.mem_append, List.mem_singleton] at hmem ⊢
        rcases hmem with (hmem | hmem) | hmem
        · exact Or.inl hmem
        · exact absurd hmem hpq
        · exact Or.inr hmem
  | recordPending q hst =>
    have hcmds : Function.update s.cmds q (s.cmds q) = s.cmds := Function.update_eq_self ..
    by_cases hpq : p = q
    · subst hpq
      exact .record hst rfl (congrFun hcmds p) id
    · refine course_of_ne (fun st => ?_) (user_ne hpq .storing) Iff.rfl (congrFun hcmds p) rfl
      rw [hst]
      exact user_ne hpq .finished st
  | store t q hst hstore =>
    have hidle : t.worker = .idle ∧ t.made = s.made ∧ t.workQueue = s.workQueue ∧ t.cmds = s.cmds ∧
        t.entries = s.entries := by
      obtain ⟨_, _, rfl⟩ := storeResult_frame hstore
      exact ⟨rfl, rfl, rfl, rfl, rfl⟩
    obtain ⟨hworker, hmade, hqueue, hcmds, hentries⟩ := hidle
    have ht : ∀ st, t.worker ≠ .user p st := by
      intro st
      rw [hworker]
      exact nofun
    have hwaits : t.waits p ↔ s.waits p := by
      unfold State.waits
      rw [hmade, hqueue]
    by_cases hpq : p = q
    · subst hpq
      exact .store hst ht hwaits (by rw [hcmds]) (by rw [hentries]; exact id)
    · refine course_of_ne (fun st' hst' => ?_) ht hwaits (by rw [hcmds]) hentries
      rw [hst] at hst'
      exact hpq (Worker.user.inj hst').1.symm
  | popResults t q createdAt late hpop =>
    obtain ⟨rq, pc, -, -, rfl⟩ := popResults_cases hw.rings hpop
    exact course_of_eq rfl Iff.rfl (fun _ => rfl) id
  | drain hgame =>
    refine course_of_eq rfl Iff.rfl (fun _ => rfl) fun hmem => ?_
    unfold State.entries at hmem ⊢
    rw [hgame]
    simpa using hmem
  | startItem q items hgame howned =>
    refine course_of_eq rfl Iff.rfl (fun _ => rfl) fun hmem => ?_
    unfold State.entries at hmem ⊢
    rw [hgame]
    simp only [Option.map_some, Option.toList_some, List.mem_append, List.mem_singleton] at hmem
    simp only [List.mem_append, List.mem_cons]
    tauto
  | handlerPacks q any hgame howned =>
    refine course_of_eq rfl Iff.rfl (fun hmem => Function.update_of_ne ?_ ..) id
    rintro rfl
    exact hmem (mem_entries_of_current hgame)
  | handlerReturns q hgame howned =>
    refine course_of_eq rfl Iff.rfl (fun _ => rfl) fun hmem => ?_
    unfold State.entries at hmem ⊢
    rw [hgame]
    exact hmem
  | handlerThrows q msg hgame howned =>
    refine course_of_eq rfl Iff.rfl (fun _ => rfl) fun hmem => ?_
    unfold State.entries at hmem ⊢
    rw [hgame]
    exact hmem
  | finishItem q pt c pt' hgame howned hmove =>
    refine course_of_eq rfl Iff.rfl (fun hmem => Function.update_of_ne ?_ ..) fun hmem => ?_
    · rintro rfl
      exact hmem (mem_entries_of_current hgame)
    · unfold State.entries at hmem ⊢
      rw [hgame]
      cases hmove with
      | assign | storeError => exact hmem
      | clearPending =>
        change p ∈ s.work.q.q ++ (s.game.items ++ []) at hmem
        rw [List.append_nil] at hmem
        rw [← List.append_assoc]
        exact List.mem_append_left _ hmem
  | _ => exact course_of_eq rfl Iff.rfl (fun _ => rfl) id

/-- No step puts a command back, or writes to one that waits. -/
theorem Course.waits (hcourse : Course s t p) (hw' : Wf t) (hwaits : t.waits p) :
    s.waits p ∧ (p ∉ s.entries → t.cmds p = s.cmds p) := by
  cases hcourse with
  | same _ hsame hcmd => exact ⟨hsame.mp hwaits, hcmd⟩
  | taken _ hworker => exact absurd hwaits (hw'.not_waits hworker)
  | move _ _ _ _ _ _ _ hst' => exact absurd hwaits (hw'.not_waits hst')
  | put _ _ hst' => exact absurd hwaits (hw'.not_waits hst')
  | record _ hst' => exact absurd hwaits (hw'.not_waits hst')
  | store _ _ hsame hcmd => exact ⟨hsame.mp hwaits, fun _ => hcmd⟩

/-! ## New commands and flushed ones -/

theorem Effect.created (heff : Effect handlers s a t) (hw : Wf s) (hlt : p < t.nextPtr)
    (hnew : ¬ p < s.nextPtr) : (t.cmds p).pending = false ∧ t.worker = s.worker ∧ t.waits p := by
  have hfresh : ∀ c : Command, c.pending = false → p < s.nextPtr + 1 →
      (Function.update s.cmds s.nextPtr c p).pending = false := by
    intro c hc hp
    have hp : p = s.nextPtr := Nat.le_antisymm (Nat.le_of_lt_succ hp) (Nat.le_of_not_lt hnew)
    rw [hp, Function.update_self]
    exact hc
  have hmade : p < s.nextPtr + 1 → p ∈ s.made ++ [s.nextPtr] := by
    intro hp
    have hp : p = s.nextPtr := Nat.le_antisymm (Nat.le_of_lt_succ hp) (Nat.le_of_not_lt hnew)
    rw [hp]
    exact List.mem_append_right _ (List.mem_singleton_self _)
  cases heff with
  | makeUser name data q discard done hd => exact ⟨hfresh _ rfl hlt, rfl, Or.inl (hmade hlt)⟩
  | makeBuiltin a q size ty io ha hty hio => exact ⟨hfresh _ rfl hlt, rfl, Or.inl (hmade hlt)⟩
  | createQueue q hb hty =>
    obtain ⟨_, _, heq⟩ := createQueue_frame s (s.cmds q).base.queueId (s.cmds q).base.queueSize
    rw [heq] at hlt
    exact absurd hlt hnew
  | destroyQueue q hb hty =>
    obtain ⟨_, _, heq⟩ := destroyQueue_frame s (s.cmds q).base.queueId
    rw [heq] at hlt
    exact absurd hlt hnew
  | store t q hst hstore =>
    obtain ⟨_, _, rfl⟩ := storeResult_frame hstore
    exact absurd hlt hnew
  | popResults t q createdAt late hpop =>
    obtain ⟨rq, pc, -, -, rfl⟩ := popResults_cases hw.rings hpop
    exact absurd hlt hnew
  | _ => exact absurd hlt hnew

theorem Effect.doneCallback (heff : Effect handlers s a t) (hw : Wf s) (hlt : p < s.nextPtr) :
    (t.cmds p).doneCallback = (s.cmds p).doneCallback := by
  have hnew : ∀ c : Command,
      (Function.update s.cmds s.nextPtr c p).doneCallback = (s.cmds p).doneCallback := fun c => by
    rw [Function.update_of_ne (Nat.ne_of_lt hlt)]
  cases heff with
  | makeUser name data q discard done hd => exact hnew _
  | makeBuiltin a q size ty io ha hty hio => exact hnew _
  | createQueue q hb hty =>
    obtain ⟨_, _, heq⟩ := createQueue_frame s (s.cmds q).base.queueId (s.cmds q).base.queueSize
    rw [heq]
  | destroyQueue q hb hty =>
    obtain ⟨_, _, heq⟩ := destroyQueue_frame s (s.cmds q).base.queueId
    rw [heq]
  | finishBuiltin q hb =>
    exact update_field Command.doneCallback (c := { s.cmds q with resultCode := .ok }) rfl p
  | userMove a q st st' hd c hst hh hmove hposted hassign =>
    refine update_field Command.doneCallback ?_ p
    cases hmove with
    | allocate m hasync =>
      unfold Command.saveCommandResult
      split <;> rfl
    | _ => rfl
  | putWork q m hst => exact update_field Command.doneCallback rfl p
  | recordPending q hst => exact update_field Command.doneCallback rfl p
  | store t q hst hstore =>
    obtain ⟨_, _, rfl⟩ := storeResult_frame hstore
    rfl
  | popResults t q createdAt late hpop =>
    obtain ⟨rq, pc, -, -, rfl⟩ := popResults_cases hw.rings hpop
    rfl
  | handlerPacks q any hgame howned =>
    exact update_field Command.doneCallback (c := { s.cmds q with M := any }) rfl p
  | finishItem q pt c pt' hgame howned hmove =>
    refine update_field Command.doneCallback ?_ p
    cases hmove <;> rfl
  | _ => rfl

/-- A command is flushed when it is in its queue with the flag cleared. -/
theorem Effect.flushed_ready (heff : Effect handlers s a t) (hw : Wf s) {f : Flushed}
    (hf : f ∈ t.flushed) :
    f ∈ s.flushed ∨ f.ptr ∈ s.stored ∧ (s.cmds f.ptr).pending = false ∧ t.cmds = s.cmds ∧
      f.result = (s.cmds f.ptr).toResult := by
  cases heff with
  | createQueue q hb hty =>
    obtain ⟨_, _, heq⟩ := createQueue_frame s (s.cmds q).base.queueId (s.cmds q).base.queueSize
    rw [heq] at hf
    exact Or.inl hf
  | destroyQueue q hb hty =>
    obtain ⟨_, _, heq⟩ := destroyQueue_frame s (s.cmds q).base.queueId
    rw [heq] at hf
    exact Or.inl hf
  | store t q hst hstore =>
    obtain ⟨_, _, rfl⟩ := storeResult_frame hstore
    exact Or.inl hf
  | popResults t q createdAt late hpop =>
    obtain ⟨rq, pc, hl, -, rfl⟩ := popResults_cases hw.rings hpop
    rcases List.mem_append.mp hf with hf | hf
    · exact Or.inl hf
    · obtain ⟨x, hx, rfl⟩ := List.mem_map.mp hf
      obtain ⟨hmem, hready⟩ := List.mem_filter.mp (List.mem_reverse.mp hx)
      right
      refine ⟨mem_stored.mpr ⟨q, rq, hl, List.mem_reverse.mp hmem⟩, ?_, rfl, rfl⟩
      unfold State.ready at hready
      cases hpending : (s.cmds x).pending with
      | false => rfl
      | true =>
        rw [hpending] at hready
        cases hready
  | _ => exact Or.inl hf

end Ra2yrcpp.CommandManager
