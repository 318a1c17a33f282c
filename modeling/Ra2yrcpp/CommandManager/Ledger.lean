import Ra2yrcpp.CommandManager.Steps
import Ra2yrcpp.Reasoning.Buckets

/-!
# Where the commands are

A command has one owner at a time: the thread that made it, the work queue, the worker, a result
queue, the caller of one flush, or nobody once it was dropped or, for a built-in command, executed.
The ledger lists them all; every step moves entries of it and loses none.
-/

open Ra2yrcpp.Reasoning

namespace Ra2yrcpp.CommandManager

inductive Place
  | caller
  | workQueue
  | worker
  | resultQueue (id : QueueId)
  | flush (call : Nat)
  | dropped (reason : DropReason)
  | executed
  deriving DecidableEq, Repr

/-- Every place of every command. -/
def State.ledger (s : State) : List (CommandPtr × Place) :=
  s.made.map (·, .caller) ++ s.workQueue.map (·, .workQueue) ++ s.worker.held.map (·, .worker) ++
    contents (fun id rq => rq.contents.map (·, .resultQueue id)) s.results ++
    s.flushed.map (fun f => (f.ptr, .flush f.call)) ++
    s.dropped.map (fun d => (d.1, .dropped d.2)) ++ s.executed.map (·, .executed)

def State.places (s : State) (p : CommandPtr) : List Place :=
  (s.ledger.filter fun e => e.1 == p).map Prod.snd

/-- The commands in the result queues. -/
def State.stored (s : State) : List CommandPtr := contents (fun _ rq => rq.contents) s.results

def State.copies (s : State) (p : CommandPtr) : Nat :=
  s.made.count p + s.workQueue.count p + s.worker.held.count p + s.stored.count p +
    (s.flushed.map Flushed.ptr).count p + (s.dropped.map Prod.fst).count p + s.executed.count p

variable {handlers : String → Option Handler} {s t : State} {a : Action} {p : CommandPtr}

theorem countP_fst_map {α : Type} (f : α → CommandPtr) (g : α → Place) (l : List α) :
    (l.map fun x => (f x, g x)).countP (fun e => e.1 == p) = (l.map f).count p := by
  rw [List.countP_map, List.count, List.countP_map]
  rfl

theorem countP_fst_contents (m : AList fun _ : QueueId => ResultQueue) :
    (contents (fun id rq => rq.contents.map fun x => (x, Place.resultQueue id)) m).countP
      (fun e => e.1 == p) = (contents (fun _ rq => rq.contents) m).count p := by
  unfold contents
  rw [List.countP_flatMap, List.count, List.countP_flatMap]
  congr 1
  apply List.map_congr_left
  rintro ⟨id, rq⟩ -
  change (rq.contents.map fun x => (x, Place.resultQueue id)).countP _ = rq.contents.countP _
  rw [List.countP_map]
  rfl

theorem length_places (s : State) (p : CommandPtr) : (s.places p).length = s.copies p := by
  unfold State.places State.ledger State.copies State.stored
  rw [List.length_map, ← List.countP_eq_length_filter]
  simp only [List.countP_append, countP_fst_contents]
  rw [countP_fst_map (fun x => x), countP_fst_map (fun x => x), countP_fst_map (fun x => x),
    countP_fst_map Flushed.ptr, countP_fst_map Prod.fst, countP_fst_map (fun x => x)]
  simp only [List.map_id']

theorem mem_stored : p ∈ s.stored ↔ ∃ id rq, s.results.lookup id = some rq ∧ p ∈ rq.contents :=
  mem_contents

/-! ## The work queue -/

/-- The order in which commands leave the work queue. -/
def before (cmds : CommandPtr → Command) (p q : CommandPtr) : Prop :=
  (cmds p).base.type.val ≤ (cmds q).base.type.val

theorem queueCompare_ranks (cmds : CommandPtr → Command) :
    Heap.Ranks (queueCompare cmds) (before cmds) where
  refl _ := Nat.le_refl _
  trans := Nat.le_trans
  below h := by simpa [queueCompare, before] using h
  above h := by
    have hlt := of_decide_eq_false h
    exact Nat.le_of_lt (Nat.lt_of_not_le hlt)

theorem mem_push {q : CommandPtr} :
    q ∈ Heap.push (queueCompare s.cmds) s.workQueue p ↔ q = p ∨ q ∈ s.workQueue := by
  rw [(Heap.push_perm s.workQueue p).mem_iff, List.mem_cons]

/-! ## The invariant -/

structure Wf (s : State) : Prop where
  copies : ∀ p, s.copies p = if p < s.nextPtr then 1 else 0
  heap : Heap.IsHeap (before s.cmds) s.workQueue
  rings : ∀ id rq, s.results.lookup id = some rq → rq.q.q.Bounded ∧ rq.q.maxSize = 0
  builtin : ∀ p b, s.worker = .builtin p b → (s.cmds p).base.type ≠ .user
  user : ∀ p st, s.worker = .user p st → (s.cmds p).base.type = .user
  executed : ∀ p ∈ s.executed, (s.cmds p).base.type ≠ .user
  io : ∀ p, s.io = .made p → p ∈ s.made ∧ (s.cmds p).base.type ≠ .user
  stored : ∀ p ∈ s.stored, (s.cmds p).base.type = .user
  flushed : ∀ f ∈ s.flushed, (s.cmds f.ptr).base.type = .user ∧
    f.result.commandId = (s.cmds f.ptr).base.taskId

theorem wf_init : Wf State.init where
  copies _ := rfl
  heap := Heap.isHeap_nil
  rings _ _ h := by cases h
  builtin _ _ h := by cases h
  user _ _ h := by cases h
  executed _ h := by cases h
  io _ h := by cases h
  stored _ h := by cases h
  flushed _ h := by cases h

theorem Wf.lt_of_copies (hw : Wf s) (h : 0 < s.copies p) : p < s.nextPtr := by
  rw [hw.copies] at h
  split at h
  · assumption
  · omega

theorem copies_pos_of_made (h : p ∈ s.made) : 0 < s.copies p := by
  have hpos := List.count_pos_iff.mpr h
  unfold State.copies
  omega

theorem copies_pos_of_workQueue (h : p ∈ s.workQueue) : 0 < s.copies p := by
  have hpos := List.count_pos_iff.mpr h
  unfold State.copies
  omega

theorem copies_pos_of_held (h : p ∈ s.worker.held) : 0 < s.copies p := by
  have hpos := List.count_pos_iff.mpr h
  unfold State.copies
  omega

theorem copies_pos_of_stored (h : p ∈ s.stored) : 0 < s.copies p := by
  have hpos := List.count_pos_iff.mpr h
  unfold State.copies
  omega

theorem copies_pos_of_flushed {f : Flushed} (h : f ∈ s.flushed) : 0 < s.copies f.ptr := by
  have hpos := List.count_pos_iff.mpr (List.mem_map_of_mem (f := Flushed.ptr) h)
  unfold State.copies
  omega

theorem copies_pos_of_executed (h : p ∈ s.executed) : 0 < s.copies p := by
  have hpos := List.count_pos_iff.mpr h
  unfold State.copies
  omega

theorem mem_held_of_user {st : Stage} (hst : s.worker = .user p st) : p ∈ s.worker.held := by
  rw [hst]
  exact List.mem_singleton_self p

/-- What is left in the work queue when the worker has taken the first command. -/
theorem Wf.pop_perm (hw : Wf s) {rest : List CommandPtr} (hq : s.workQueue = p :: rest) :
    (Heap.pop (queueCompare s.cmds) s.workQueue).Perm rest := by
  have hheap := hw.heap
  rw [hq] at hheap ⊢
  exact Heap.pop_perm (queueCompare_ranks s.cmds) p hheap

theorem held_taken (cmds : CommandPtr → Command) (p : CommandPtr) :
    (if (cmds p).base.type = .user then Worker.user p .taken else .builtin p false).held = [p] := by
  split <;> rfl

/-- Two places of one command cannot both be taken. -/
theorem Wf.copies_le (hw : Wf s) (p : CommandPtr) : s.copies p ≤ 1 := by
  rw [hw.copies]
  split <;> omega

theorem Wf.queued_alone (hw : Wf s) (h : p ∈ s.workQueue) : p ∉ s.made := by
  have hone := hw.copies_le p
  have hpos := List.count_pos_iff.mpr h
  unfold State.copies at hone
  apply List.count_eq_zero.mp
  omega

theorem Wf.held_alone (hw : Wf s) (h : p ∈ s.worker.held) : p ∉ s.made ∧ p ∉ s.workQueue := by
  have hone := hw.copies_le p
  have hpos := List.count_pos_iff.mpr h
  unfold State.copies at hone
  constructor
  · apply List.count_eq_zero.mp
    omega
  · apply List.count_eq_zero.mp
    omega

/-- A command that was stored, flushed or dropped is not on its way to the worker any more. -/
theorem Wf.done_alone (hw : Wf s)
    (h : p ∈ s.stored ∨ p ∈ s.flushed.map Flushed.ptr ∨ p ∈ s.dropped.map Prod.fst) :
    p < s.nextPtr ∧ p ∉ s.made ∧ p ∉ s.workQueue ∧ p ∉ s.worker.held := by
  have hone := hw.copies_le p
  have hpos : 0 < s.stored.count p + (s.flushed.map Flushed.ptr).count p +
      (s.dropped.map Prod.fst).count p := by
    rcases h with hmem | hmem | hmem
    · have hcount := List.count_pos_iff.mpr hmem
      omega
    · have hcount := List.count_pos_iff.mpr hmem
      omega
    · have hcount := List.count_pos_iff.mpr hmem
      omega
  refine ⟨hw.lt_of_copies (by unfold State.copies; omega), ?_, ?_, ?_⟩
  all_goals
    unfold State.copies at hone
    apply List.count_eq_zero.mp
    omega

/-! ## Commands keep their base data -/

theorem UserMove.base_eq {h : Handler} {c c' : Command} {st st' : Stage}
    (hmove : UserMove h c st c' st') :
    c'.base = c.base ∧ c'.handler = c.handler ∧ c'.discardResult = c.discardResult := by
  cases hmove with
  | allocate m hasync =>
    unfold Command.saveCommandResult
    split <;> exact ⟨rfl, rfl, rfl⟩
  | _ => exact ⟨rfl, rfl, rfl⟩

theorem GameMove.base_eq {c c' : Command} {pt : GamePoint} {pt' : Option GamePoint}
    (hmove : GameMove c pt c' pt') :
    c'.base = c.base ∧ c'.handler = c.handler ∧ c'.discardResult = c.discardResult := by
  cases hmove <;> exact ⟨rfl, rfl, rfl⟩

/-- What no step changes in a command that exists. -/
def Command.Same (c c' : Command) : Prop :=
  c'.base = c.base ∧ c'.handler = c.handler ∧ c'.discardResult = c.discardResult

theorem Command.Same.refl (c : Command) : c.Same c := ⟨rfl, rfl, rfl⟩

theorem same_update {c : Command} (hc : (s.cmds p).Same c) (q : CommandPtr) :
    (s.cmds q).Same (Function.update s.cmds p c q) := by
  by_cases hq : q = p
  · subst hq
    rw [Function.update_self]
    exact hc
  · rw [Function.update_of_ne hq]
    exact Command.Same.refl _

/-! ## What the longer operations do -/

theorem storeResult_cases (h : storeResult s p = some t) :
    ((s.cmds p).discardResult = true ∧
      t = { s with worker := .idle, dropped := s.dropped ++ [(p, .discarded)] }) ∨
    ((s.cmds p).discardResult = false ∧ s.results.lookup (s.cmds p).base.queueId = none ∧
      t = { s with worker := .idle, dropped := s.dropped ++ [(p, .noQueue)] }) ∨
    (∃ rq, (s.cmds p).discardResult = false ∧
      s.results.lookup (s.cmds p).base.queueId = some rq ∧
      t = { s with
        worker := .idle
        results := s.results.insert (s.cmds p).base.queueId
          { rq with q := ⟨rq.q.q.emplace p, rq.q.maxSize⟩ }
        dropped := s.dropped ++ rq.q.q.evicted.toList.map (·, .evicted) }) := by
  simp only [storeResult] at h
  split at h
  -- discard_result
  · rename_i hd
    exact Or.inl ⟨hd, (Option.some.inj h).symm⟩
  · rename_i hd
    have hd' := Bool.eq_false_iff.mpr hd
    split at h
    -- std::out_of_range
    · rename_i hl
      exact Or.inr (Or.inl ⟨hd', hl, (Option.some.inj h).symm⟩)
    · rename_i rq hl
      obtain ⟨q, hq, rfl⟩ := Option.map_eq_some_iff.mp h
      unfold AsyncQueue.emplace at hq
      split at hq
      · cases hq
      · obtain rfl := Option.some.inj hq
        exact Or.inr (Or.inr ⟨rq, hd', hl, rfl⟩)

/-- The commands that a flush finds ready. -/
def State.ready (s : State) (late : List CommandPtr) (p : CommandPtr) : Bool :=
  !(s.cmds p).pending && !late.contains p

theorem storeResult_frame (h : storeResult s p = some t) :
    ∃ results dropped, t = { s with worker := .idle, results := results, dropped := dropped } := by
  rcases storeResult_cases h with ⟨-, heq⟩ | ⟨-, -, heq⟩ | ⟨_, -, -, heq⟩
  · exact ⟨s.results, _, heq⟩
  · exact ⟨s.results, _, heq⟩
  · exact ⟨_, _, heq⟩

theorem popResults_cases {id : QueueId} {createdAt : Nat} {late : List CommandPtr}
    (hrings : ∀ id rq, s.results.lookup id = some rq → rq.q.q.Bounded ∧ rq.q.maxSize = 0)
    (h : popResults s id createdAt late = some t) :
    ∃ rq pc, s.results.lookup id = some rq ∧ rq.createdAt = createdAt ∧
      t = { s with
        results := s.results.insert id
          ⟨⟨⟨rq.contents.reverse.filter fun p => !s.ready late p, rq.q.q.maxSize⟩,
            rq.q.maxSize⟩, rq.createdAt⟩
        flushes := s.flushes.erase (id, createdAt)
        pendingCommands := pc
        flushCalls := s.flushCalls + 1
        flushed := s.flushed ++ (rq.contents.reverse.filter (s.ready late)).reverse.map
          fun p => ⟨p, s.flushCalls, (s.cmds p).toResult⟩ } := by
  unfold popResults at h
  split at h
  · cases h
  · rename_i rq hl
    split at h
    · rename_i hc
      -- a pop without a count is one round over the whole queue
      have hpop := RingBuffer.popRound_zero (s.ready late) (hrings id rq hl).1 rq.q.maxSize
      have hround : rq.q.popRound 0 (fun p => !(s.cmds p).pending && !late.contains p) [] = _ := hpop
      rw [hround] at h
      exact ⟨rq, _, hl, hc.2, (Option.some.inj h).symm⟩
    · cases h

theorem createQueue_cases (s : State) (id : QueueId) (n : Nat) :
    (∃ rq, s.results.lookup id = some rq ∧ createQueue s id n = s) ∨
    (id ∉ s.results ∧ createQueue s id n = { s with
      results := s.results.insert id ⟨⟨⟨[], n⟩, 0⟩, s.clock⟩
      clock := s.clock + 1 }) := by
  unfold createQueue
  split
  · rename_i hmem
    obtain ⟨rq, hl⟩ := Option.isSome_iff_exists.mp (AList.lookup_isSome.mpr hmem)
    exact Or.inl ⟨rq, hl, rfl⟩
  · rename_i hmem
    exact Or.inr ⟨hmem, rfl⟩

/-- The commands and the threads stay as they are. -/
theorem createQueue_frame (s : State) (id : QueueId) (n : Nat) :
    ∃ results clock, createQueue s id n = { s with results := results, clock := clock } := by
  rcases createQueue_cases s id n with ⟨_, -, heq⟩ | ⟨-, heq⟩
  · exact ⟨s.results, s.clock, heq⟩
  · exact ⟨_, _, heq⟩

theorem createQueue_worker (s : State) (id : QueueId) (n : Nat) :
    (createQueue s id n).worker = s.worker := by
  obtain ⟨_, _, heq⟩ := createQueue_frame s id n
  rw [heq]

theorem destroyQueue_cases (s : State) (id : QueueId) :
    (s.results.lookup id = none ∧ destroyQueue s id = s) ∨
    (∃ rq, s.results.lookup id = some rq ∧ destroyQueue s id = { s with
      results := s.results.erase id
      dropped := s.dropped ++ rq.contents.map (·, .queueDestroyed) }) := by
  unfold destroyQueue
  split
  · rename_i hl
    exact Or.inl ⟨hl, rfl⟩
  · rename_i rq hl
    exact Or.inr ⟨rq, hl, rfl⟩

theorem destroyQueue_frame (s : State) (id : QueueId) :
    ∃ results dropped, destroyQueue s id = { s with results := results, dropped := dropped } := by
  rcases destroyQueue_cases s id with ⟨-, heq⟩ | ⟨_, -, heq⟩
  · exact ⟨s.results, s.dropped, heq⟩
  · exact ⟨_, _, heq⟩

theorem destroyQueue_worker (s : State) (id : QueueId) :
    (destroyQueue s id).worker = s.worker := by
  obtain ⟨_, _, heq⟩ := destroyQueue_frame s id
  rw [heq]

/-! ## Steps keep the ledger -/

/-- Nothing changes owner. -/
structure Quiet (s t : State) : Prop where
  made : t.made = s.made
  workQueue : t.workQueue = s.workQueue
  held : t.worker.held = s.worker.held
  results : t.results = s.results
  flushed : t.flushed = s.flushed
  dropped : t.dropped = s.dropped
  executed : t.executed = s.executed
  nextPtr : t.nextPtr = s.nextPtr
  same : ∀ p, (s.cmds p).Same (t.cmds p)
  builtin : ∀ p b, t.worker = .builtin p b → ∃ b', s.worker = .builtin p b'
  user : ∀ p st, t.worker = .user p st → ∃ st', s.worker = .user p st'
  io : ∀ p, t.io = .made p → s.io = .made p

theorem Quiet.copies (h : Quiet s t) (p : CommandPtr) : t.copies p = s.copies p := by
  unfold State.copies State.stored
  rw [h.made, h.workQueue, h.held, h.results, h.flushed, h.dropped, h.executed]

theorem Quiet.base (h : Quiet s t) (p : CommandPtr) : (t.cmds p).base = (s.cmds p).base :=
  (h.same p).1

theorem Wf.quiet (hw : Wf s) (h : Quiet s t) : Wf t where
  copies p := by rw [h.copies, h.nextPtr]; exact hw.copies p
  heap := by
    rw [h.workQueue]
    refine hw.heap.congr fun p _ q _ hpq => ?_
    unfold before at *
    rwa [h.base, h.base]
  rings := by rw [h.results]; exact hw.rings
  builtin p b hb := by
    obtain ⟨b', hb'⟩ := h.builtin p b hb
    rw [h.base]
    exact hw.builtin p b' hb'
  user p st hst := by
    obtain ⟨st', hst'⟩ := h.user p st hst
    rw [h.base]
    exact hw.user p st' hst'
  executed p hp := by
    rw [h.executed] at hp
    rw [h.base]
    exact hw.executed p hp
  io p hp := by
    rw [h.made, h.base]
    exact hw.io p (h.io p hp)
  stored p hp := by
    unfold State.stored at hp
    rw [h.results] at hp
    rw [h.base]
    exact hw.stored p hp
  flushed f hf := by
    rw [h.flushed] at hf
    rw [h.base]
    exact hw.flushed f hf

/-- The worker goes on with its command. -/
theorem quiet_advance {st st' : Stage} {c : Command} (hw : s.worker = .user p st)
    (hc : (s.cmds p).Same c) : Quiet s (s.advance p c st') where
  made := rfl
  workQueue := rfl
  held := by rw [hw]; rfl
  results := rfl
  flushed := rfl
  dropped := rfl
  executed := rfl
  nextPtr := rfl
  same := same_update hc
  builtin _ _ h := by cases h
  user q st'' h := by
    obtain ⟨rfl, -⟩ := Worker.user.inj h
    exact ⟨st, hw⟩
  io _ h := h

theorem quiet_builtin {b b' : Bool} (hb : s.worker = .builtin p b) :
    Quiet s { s with worker := .builtin p b' } where
  made := rfl
  workQueue := rfl
  held := by rw [hb]; rfl
  results := rfl
  flushed := rfl
  dropped := rfl
  executed := rfl
  nextPtr := rfl
  same _ := Command.Same.refl _
  builtin q b'' h := by
    obtain ⟨rfl, -⟩ := Worker.builtin.inj h
    exact ⟨b, hb⟩
  user _ _ h := by cases h
  io _ h := h

/-- A command changes and stays where it is. -/
theorem quiet_setCommand {c : Command} (hc : (s.cmds p).Same c) : Quiet s (s.setCommand p c) :=
  ⟨rfl, rfl, rfl, rfl, rfl, rfl, rfl, rfl, same_update hc, fun _ b h => ⟨b, h⟩,
    fun _ st h => ⟨st, h⟩, fun _ h => h⟩

theorem Quiet.trans {u : State} (h : Quiet s t) (h' : Quiet t u) : Quiet s u where
  made := h'.made.trans h.made
  workQueue := h'.workQueue.trans h.workQueue
  held := h'.held.trans h.held
  results := h'.results.trans h.results
  flushed := h'.flushed.trans h.flushed
  dropped := h'.dropped.trans h.dropped
  executed := h'.executed.trans h.executed
  nextPtr := h'.nextPtr.trans h.nextPtr
  same p := ⟨(h'.same p).1.trans (h.same p).1, (h'.same p).2.1.trans (h.same p).2.1,
    (h'.same p).2.2.trans (h.same p).2.2⟩
  builtin p b hb := by
    obtain ⟨b', hb'⟩ := h'.builtin p b hb
    exact h.builtin p b' hb'
  user p st hst := by
    obtain ⟨st', hst'⟩ := h'.user p st hst
    exact h.user p st' hst'
  io p hp := h.io p (h'.io p hp)

/-- What `Quiet` is about. -/
def State.owners (s : State) :=
  (s.cmds, s.nextPtr, s.made, s.workQueue, s.worker, s.results, s.flushed, s.dropped, s.executed)

/-- Two states that differ in none of the owners' lists. -/
theorem quiet_of_eq (h : t.owners = s.owners) (hio : ∀ p, t.io = .made p → s.io = .made p) :
    Quiet s t := by
  simp only [State.owners, Prod.mk.injEq] at h
  obtain ⟨hcmds, hnext, hmade, hqueue, hworker, hresults, hflushed, hdropped, hexecuted⟩ := h
  exact
    { made := hmade
      workQueue := hqueue
      held := by rw [hworker]
      results := hresults
      flushed := hflushed
      dropped := hdropped
      executed := hexecuted
      nextPtr := hnext
      same := fun p => by rw [hcmds]; exact Command.Same.refl _
      builtin := fun _ b hb => ⟨b, hworker ▸ hb⟩
      user := fun _ st hst => ⟨st, hworker ▸ hst⟩
      io := hio }

theorem quiet_putWork {m : Message} (hst : s.worker = .user p (.handlerSet m))
    (w : AsyncQueue StdQueue CommandPtr) :
    Quiet s { s.advance p (s.cmds p) (.closing m none) with work := w } :=
  (quiet_advance hst (Command.Same.refl _)).trans (quiet_of_eq rfl fun _ h => h)

theorem quiet_recordPending (hst : s.worker = .user p .finished) (tasks : List TaskId) :
    Quiet s { s.advance p (s.cmds p) .storing with pendingCommands := tasks } :=
  (quiet_advance hst (Command.Same.refl _)).trans (quiet_of_eq rfl fun _ h => h)

theorem quiet_handlerPacks (s : State) (p : CommandPtr) (any : Any)
    (packed : CommandPtr → Option Any) :
    Quiet s { s.setCommand p { s.cmds p with M := any } with asyncPacked := packed } := by
  have hsame : (s.cmds p).Same { s.cmds p with M := any } := ⟨rfl, rfl, rfl⟩
  exact (quiet_setCommand hsame).trans (quiet_of_eq rfl fun _ h => h)

theorem quiet_finishItem {c : Command} {pt : GamePoint} {pt' : Option GamePoint}
    (hmove : GameMove (s.cmds p) pt c pt') (game : GameThread) :
    Quiet s { s.setCommand p c with game := game } :=
  (quiet_setCommand hmove.base_eq).trans (quiet_of_eq rfl fun _ h => h)

/-! ### A command is made, enqueued and taken -/

theorem lt_succ_indicator (p n : Nat) :
    (if p < n + 1 then 1 else 0) = (if p < n then 1 else 0) + if n = p then 1 else 0 := by
  split <;> split <;> split <;> omega

theorem Wf.make (hw : Wf s) (c : Command) :
    Wf { s with
      cmds := Function.update s.cmds s.nextPtr c
      nextPtr := s.nextPtr + 1
      made := s.made ++ [s.nextPtr] } := by
  -- the new number is not in the ledger yet, so no command that is somewhere changes
  have hold : ∀ p, 0 < s.copies p → Function.update s.cmds s.nextPtr c p = s.cmds p :=
    fun p hp => Function.update_of_ne (Nat.ne_of_lt (hw.lt_of_copies hp)) ..
  refine ⟨fun p => ?_, ?_, hw.rings, fun p b hb => ?_, fun p st hst => ?_, fun p hp => ?_,
    fun p hp => ?_, fun p hp => ?_, fun f hf => ?_⟩
  -- one more command exists, and its maker has it
  · have hcount : (s.made ++ [s.nextPtr]).count p =
        s.made.count p + if s.nextPtr = p then 1 else 0 := by
      rw [List.count_append, List.count_singleton]
      simp only [beq_iff_eq]
    have hcopies := hw.copies p
    unfold State.copies State.stored at *
    dsimp only at *
    rw [hcount, lt_succ_indicator]
    omega
  · refine hw.heap.congr fun p hp q hq hpq => ?_
    unfold before at *
    dsimp only
    rwa [hold p (copies_pos_of_workQueue hp), hold q (copies_pos_of_workQueue hq)]
  · have hheld : p ∈ s.worker.held := by
      rw [show s.worker = _ from hb]
      exact List.mem_singleton_self p
    change (Function.update s.cmds s.nextPtr c p).base.type ≠ _
    rw [hold p (copies_pos_of_held hheld)]
    exact hw.builtin p b hb
  · have hheld := mem_held_of_user (show s.worker = _ from hst)
    change (Function.update s.cmds s.nextPtr c p).base.type = _
    rw [hold p (copies_pos_of_held hheld)]
    exact hw.user p st hst
  · change (Function.update s.cmds s.nextPtr c p).base.type ≠ _
    rw [hold p (copies_pos_of_executed hp)]
    exact hw.executed p hp
  · obtain ⟨hmade, hty⟩ := hw.io p hp
    change p ∈ s.made ++ [s.nextPtr] ∧ (Function.update s.cmds s.nextPtr c p).base.type ≠ _
    rw [hold p (copies_pos_of_made hmade)]
    exact ⟨List.mem_append_left _ hmade, hty⟩
  · change (Function.update s.cmds s.nextPtr c p).base.type = _
    rw [hold p (copies_pos_of_stored hp)]
    exact hw.stored p hp
  · change (Function.update s.cmds s.nextPtr c f.ptr).base.type = _ ∧
      _ = (Function.update s.cmds s.nextPtr c f.ptr).base.taskId
    rw [hold f.ptr (copies_pos_of_flushed hf)]
    exact hw.flushed f hf

/-- The result queues after one of them was put into the map. -/
theorem Wf.rings_insert (hw : Wf s) {id i : QueueId} {rq rq' : ResultQueue}
    (hl : (s.results.insert id rq).lookup i = some rq')
    (hrq : rq.q.q.Bounded ∧ rq.q.maxSize = 0) : rq'.q.q.Bounded ∧ rq'.q.maxSize = 0 := by
  rcases lookup_insert_cases hl with ⟨-, rfl⟩ | ⟨-, hl⟩
  · exact hrq
  · exact hw.rings i rq' hl

/-- Dropped commands are counted once each, whatever the reason. -/
theorem count_dropped_append (d : List (CommandPtr × DropReason)) (l : List CommandPtr)
    (r : DropReason) (q : CommandPtr) :
    ((d ++ l.map (·, r)).map Prod.fst).count q = (d.map Prod.fst).count q + l.count q := by
  rw [List.map_append, List.count_append, List.map_map]
  congr 2
  exact List.map_id _

theorem Wf.setIo (hw : Wf s) {io : IoThread}
    (hio : ∀ p, io = .made p → p ∈ s.made ∧ (s.cmds p).base.type ≠ .user) :
    Wf { s with io := io } :=
  ⟨hw.copies, hw.heap, hw.rings, hw.builtin, hw.user, hw.executed, hio, hw.stored, hw.flushed⟩

theorem count_erase_add (l : List CommandPtr) (h : p ∈ l) (q : CommandPtr) :
    (l.erase p).count q + (if p = q then 1 else 0) = l.count q := by
  have hperm := (List.perm_cons_erase h).count_eq q
  rw [List.count_cons] at hperm
  simp only [beq_iff_eq] at hperm
  exact hperm.symm

theorem Wf.enqueue (hw : Wf s) (h : p ∈ s.made) (hio : s.io ≠ .made p) :
    Wf (enqueueCommand s p) := by
  refine ⟨fun q => ?_, ?_, hw.rings, hw.builtin, hw.user, hw.executed, fun q hq => ?_,
    hw.stored, hw.flushed⟩
  -- from its maker to the work queue
  · have hperm : (Heap.push (queueCompare s.cmds) s.workQueue p).Perm (p :: s.workQueue) :=
      Heap.push_perm s.workQueue p
    have hpush := hperm.count_eq q
    rw [List.count_cons] at hpush
    simp only [beq_iff_eq] at hpush
    have herase := count_erase_add s.made h q
    have hcopies := hw.copies q
    unfold State.copies State.stored enqueueCommand at *
    dsimp only at *
    omega
  · exact Heap.push_isHeap (queueCompare_ranks s.cmds) hw.heap p
  · have hne : q ≠ p := by
      rintro rfl
      exact hio hq
    exact ⟨(List.mem_erase_of_ne hne).mpr (hw.io q hq).1, (hw.io q hq).2⟩

theorem Wf.take (hw : Wf s) {rest : List CommandPtr} (hidle : s.worker = .idle)
    (hq : s.workQueue = p :: rest) :
    Wf { s with
      workQueue := Heap.pop (queueCompare s.cmds) s.workQueue
      worker := if (s.cmds p).base.type = .user then .user p .taken else .builtin p false } := by
  refine ⟨fun q => ?_, Heap.pop_isHeap (queueCompare_ranks s.cmds) hw.heap, hw.rings,
    fun q b hb => ?_, fun q st hst => ?_, hw.executed, hw.io, hw.stored,
    hw.flushed⟩
  -- from the work queue, whose root it is, to the worker
  · have hpop := (hw.pop_perm hq).count_eq q
    have hcopies := hw.copies q
    unfold State.copies State.stored at *
    dsimp only at *
    rw [held_taken, hpop]
    rw [hidle, hq, List.count_cons] at hcopies
    rw [List.count_singleton]
    simp only [Worker.held, List.count_nil] at hcopies
    omega
  · dsimp only at hb ⊢
    split at hb
    · cases hb
    · rename_i hty
      obtain ⟨rfl, -⟩ := Worker.builtin.inj hb
      exact hty
  · dsimp only at hst ⊢
    split at hst
    · rename_i hty
      obtain ⟨rfl, -⟩ := Worker.user.inj hst
      exact hty
    · cases hst

/-! ### Built-in commands -/

theorem Wf.createQueue (hw : Wf s) (id : QueueId) (n : Nat) :
    Wf (createQueue s id n) := by
  rcases createQueue_cases s id n with ⟨-, -, heq⟩ | ⟨hnot, heq⟩
  · rw [heq]
    exact hw
  · rw [heq]
    refine ⟨fun q => ?_, hw.heap, fun i rq hl => ?_, hw.builtin, hw.user, hw.executed, hw.io,
      fun q hq => ?_, hw.flushed⟩
    -- the new queue is empty
    · have hstored : (contents (fun _ rq => rq.contents)
          (s.results.insert id ⟨⟨⟨[], n⟩, 0⟩, s.clock⟩)).count q = s.stored.count q := by
        rw [contents_insert, contents_erase_of_notMem hnot]
        rfl
      have hcopies := hw.copies q
      unfold State.copies at *
      rw [← hstored] at hcopies
      exact hcopies
    · exact hw.rings_insert hl ⟨Nat.zero_le _, rfl⟩
    · rcases mem_contents_insert hq with hq | hq
      · cases hq
      · exact hw.stored q hq

theorem Wf.destroyQueue (hw : Wf s) (id : QueueId) : Wf (destroyQueue s id) := by
  rcases destroyQueue_cases s id with ⟨-, heq⟩ | ⟨rq, hl, heq⟩
  · rw [heq]
    exact hw
  · rw [heq]
    refine ⟨fun q => ?_, hw.heap, fun i rq' hl' => ?_, hw.builtin, hw.user, hw.executed,
      hw.io, fun q hq => ?_, hw.flushed⟩
    -- what the queue held is dropped with it
    · have hstored := (contents_perm_erase (f := fun _ rq => rq.contents) hl).count_eq q
      have hdropped := count_dropped_append s.dropped rq.contents .queueDestroyed q
      have hcopies := hw.copies q
      rw [List.count_append] at hstored
      unfold State.copies State.stored at *
      dsimp only at *
      rw [hdropped]
      omega
    · exact hw.rings i rq' (lookup_of_lookup_erase hl')
    · exact hw.stored q (mem_contents_of_mem_erase hq)

/-- The worker lets a built-in command go. -/
theorem Wf.execute (hw : Wf s) {b : Bool} {w : Worker} (hb : s.worker = .builtin p b)
    (hheld : w.held = []) : Wf { s with worker := w, executed := s.executed ++ [p] } := by
  refine ⟨fun q => ?_, hw.heap, hw.rings, fun q b' hb' => ?_, fun q st hst => ?_, fun q hq => ?_,
    hw.io, hw.stored, hw.flushed⟩
  -- from the worker to the executed ones
  · have hcopies := hw.copies q
    unfold State.copies State.stored at *
    dsimp only at *
    rw [hheld, List.count_append]
    rw [hb] at hcopies
    change s.made.count q + s.workQueue.count q + [p].count q + _ + _ + _ + _ = _ at hcopies
    rw [List.count_nil]
    omega
  · change w = _ at hb'
    rw [hb'] at hheld
    cases hheld
  · change w = _ at hst
    rw [hst] at hheld
    cases hheld
  · rcases List.mem_append.mp hq with hq | hq
    · exact hw.executed q hq
    · rw [List.mem_singleton.mp hq]
      exact hw.builtin p b hb

/-! ### Results -/

theorem Wf.drop (hw : Wf s) {st : Stage} (hst : s.worker = .user p st) (r : DropReason) :
    Wf { s with worker := .idle, dropped := s.dropped ++ [(p, r)] } := by
  refine ⟨fun q => ?_, hw.heap, hw.rings, fun _ _ h => (by cases h), fun _ _ h => (by cases h),
    hw.executed, hw.io, hw.stored, hw.flushed⟩
  have hcopies := hw.copies q
  unfold State.copies State.stored at *
  dsimp only at *
  rw [List.map_append, List.count_append]
  rw [hst] at hcopies
  change _ + [p].count q + _ + _ + _ + _ = _ at hcopies
  change _ + 0 + _ + _ + (_ + [p].count q) + _ = _
  omega

theorem Wf.store (hw : Wf s) {st : Stage} (hst : s.worker = .user p st) {id : QueueId}
    {rq : ResultQueue} (hl : s.results.lookup id = some rq) :
    Wf { s with
      worker := .idle
      results := s.results.insert id { rq with q := ⟨rq.q.q.emplace p, rq.q.maxSize⟩ }
      dropped := s.dropped ++ rq.q.q.evicted.toList.map (·, .evicted) } := by
  obtain ⟨hbounded, hzero⟩ := hw.rings id rq hl
  refine ⟨fun q => ?_, hw.heap, fun i rq' hl' => ?_, fun _ _ h => (by cases h),
    fun _ _ h => (by cases h), hw.executed, hw.io, fun q hq => ?_, hw.flushed⟩
  -- from the worker to the queue, which drops its oldest result when it is full
  · have hold := (contents_perm_erase (f := fun _ rq => rq.contents) hl).count_eq q
    have hring := (RingBuffer.emplace_perm rq.q.q p).count_eq q
    have hdropped := count_dropped_append s.dropped rq.q.q.evicted.toList .evicted q
    have hcopies := hw.copies q
    unfold State.copies State.stored at *
    dsimp only at *
    rw [contents_insert, hdropped, List.count_append]
    rw [hst] at hcopies
    change _ + [p].count q + _ + _ + _ + _ = _ at hcopies
    change (contents _ s.results).count q = (rq.q.q.q ++ _).count q at hold
    rw [List.count_append] at hold hring
    rw [List.count_append] at hring
    change _ + 0 + ((rq.q.q.emplace p).q.count q + _) + _ + _ + _ = _
    omega
  · exact hw.rings_insert hl' ⟨hbounded.emplace p, hzero⟩
  · rcases mem_contents_insert hq with hq | hq
    · rcases RingBuffer.mem_emplace hq with hq | rfl
      · exact hw.stored q (mem_stored.mpr ⟨id, rq, hl, hq⟩)
      · exact hw.user q st hst
    · exact hw.stored q hq

theorem count_filter_add (pred : CommandPtr → Bool) (l : List CommandPtr) (q : CommandPtr) :
    (l.filter pred).count q + (l.filter fun x => !pred x).count q = l.count q := by
  have hperm := (List.filter_append_perm pred l).count_eq q
  rwa [List.count_append] at hperm

theorem Wf.pop (hw : Wf s) {id : QueueId} {createdAt : Nat} {late : List CommandPtr}
    (h : popResults s id createdAt late = some t) : Wf t := by
  obtain ⟨rq, pc, hl, -, rfl⟩ := popResults_cases hw.rings h
  obtain ⟨hbounded, hzero⟩ := hw.rings id rq hl
  refine ⟨fun q => ?_, hw.heap, fun i rq' hl' => ?_, hw.builtin, hw.user, hw.executed,
    hw.io, fun q hq => ?_, fun f hf => ?_⟩
  -- the ready results go to the flush, the pending ones back into the queue
  · have hold := (contents_perm_erase (f := fun _ rq => rq.contents) hl).count_eq q
    have hsplit := count_filter_add (s.ready late) rq.contents.reverse q
    have hflushed : ((s.flushed ++ (rq.contents.reverse.filter (s.ready late)).reverse.map
        fun p => (⟨p, s.flushCalls, (s.cmds p).toResult⟩ : Flushed)).map Flushed.ptr).count q =
        (s.flushed.map Flushed.ptr).count q +
          (rq.contents.reverse.filter (s.ready late)).count q := by
      rw [List.map_append, List.count_append, List.map_map,
        ← List.count_reverse (l := List.filter _ _)]
      congr 2
      exact List.map_id _
    have hcopies := hw.copies q
    unfold State.copies State.stored at *
    dsimp only at *
    rw [contents_insert, hflushed, List.count_append]
    rw [List.count_append] at hold
    rw [List.count_reverse] at hsplit
    change _ + _ + _ + ((rq.contents.reverse.filter fun p => !s.ready late p).count q + _) +
      _ + _ + _ = _
    omega
  · refine hw.rings_insert hl' ⟨?_, hzero⟩
    have hle := List.length_filter_le (fun p => !s.ready late p) rq.contents.reverse
    rw [List.length_reverse] at hle
    exact Nat.le_trans hle hbounded
  · rcases mem_contents_insert hq with hq | hq
    · have hq' := List.mem_reverse.mp (List.mem_filter.mp hq).1
      exact hw.stored q (mem_stored.mpr ⟨id, rq, hl, hq'⟩)
    · exact hw.stored q hq
  · rcases List.mem_append.mp hf with hf | hf
    · exact hw.flushed f hf
    · obtain ⟨q, hq, rfl⟩ := List.mem_map.mp hf
      have hq' := List.mem_reverse.mp (List.mem_filter.mp (List.mem_reverse.mp hq)).1
      refine ⟨hw.stored q (mem_stored.mpr ⟨id, rq, hl, hq'⟩), ?_⟩
      change (s.cmds q).toResult.commandId = _
      unfold Command.toResult
      split <;> rfl

/-! ### Every step -/

theorem wf_step (hw : Wf s) (h : Effect handlers s a t) : Wf t := by
  cases h with
  | makeFailed => exact hw.quiet (quiet_of_eq rfl fun _ h => h)
  | makeUser name data q discard done h =>
    exact (hw.make _).quiet (quiet_of_eq rfl fun _ h => h)
  | makeBuiltin a q size ty io ha hty hio =>
    have hmade := hw.make (Command.make ⟨"", q, 0, size, ty⟩ none [] false)
    have hbuiltin : Wf (makeBuiltinCommand s q size ty) :=
      hmade.quiet (quiet_of_eq rfl fun _ h => h)
    refine hbuiltin.setIo fun p hp => ?_
    rcases hio with rfl | ⟨rfl, -, -⟩
    · exact hmade.io p hp
    · obtain rfl := IoThread.made.inj hp
      change s.nextPtr ∈ s.made ++ [s.nextPtr] ∧ (Function.update s.cmds s.nextPtr _ _).base.type ≠ _
      rw [Function.update_self]
      exact ⟨List.mem_append_right _ (List.mem_singleton_self _), hty⟩
  | emplace p hmade hty hlock =>
    -- the io thread makes built-in commands only
    have hio : s.io ≠ .made p := fun hp => (hw.io p hp).2 hty
    exact (hw.enqueue hmade hio).quiet (quiet_of_eq rfl fun _ h => h)
  | enqueue p waiting hmade hty hio hlock =>
    exact (hw.enqueue hmade hio).quiet (quiet_of_eq rfl fun _ h => h)
  | ioEnqueues p hio hlock =>
    have hset : Wf { s with io := .waiting p } := hw.setIo fun _ h => by cases h
    exact hset.enqueue (p := p) (hw.io p hio).1 (by simp)
  | returns p => exact hw.quiet (quiet_of_eq rfl fun _ h => h)
  | ioReturns p hio hcode =>
    exact hw.quiet (quiet_of_eq rfl fun _ h => by cases h)
  | take p rest hidle hq => exact hw.take hidle hq
  | createQueue p hb hty =>
    exact (hw.createQueue _ _).quiet (quiet_builtin ((createQueue_worker ..).trans hb))
  | destroyQueue p hb hty =>
    exact (hw.destroyQueue _).quiet (quiet_builtin ((destroyQueue_worker ..).trans hb))
  | shutdown p hb hty => exact hw.execute hb rfl
  | finishBuiltin p hb =>
    -- the store of the result code moves nothing
    have hset : Wf (s.setCommand p { s.cmds p with resultCode := .ok }) :=
      hw.quiet (quiet_setCommand ⟨rfl, rfl, rfl⟩)
    exact hset.execute (w := .idle) hb rfl
  | userMove a p st st' h c hst hh hmove hposted hassign =>
    exact hw.quiet (quiet_advance hst hmove.base_eq)
  | putWork p m hst => exact hw.quiet (quiet_putWork hst _)
  | recordPending p hst => exact hw.quiet (quiet_recordPending hst _)
  | store t p hst hstore =>
    rcases storeResult_cases hstore with ⟨-, rfl⟩ | ⟨-, -, rfl⟩ | ⟨rq, -, hl, rfl⟩
    · exact hw.drop hst _
    · exact hw.drop hst _
    · exact hw.store hst hl
  | lookupFails => exact hw
  | lookupQueue id rq hl =>
    exact hw.quiet (quiet_of_eq rfl fun _ h => h)
  | popResults t id createdAt late hpop => exact hw.pop hpop
  | drain => exact hw.quiet (quiet_of_eq rfl fun _ h => h)
  | startItem => exact hw.quiet (quiet_of_eq rfl fun _ h => h)
  | handlerPacks p any hgame howned => exact hw.quiet (quiet_handlerPacks s p any _)
  | handlerReturns => exact hw.quiet (quiet_of_eq rfl fun _ h => h)
  | handlerThrows => exact hw.quiet (quiet_of_eq rfl fun _ h => h)
  | finishItem p pt c pt' hgame howned hmove => exact hw.quiet (quiet_finishItem hmove _)

/-- What a step leaves of the commands: all of them with what identifies them, and the result codes
of built-in ones. -/
structure Keeps (s t : State) : Prop where
  next : s.nextPtr ≤ t.nextPtr
  same : ∀ p < s.nextPtr, (s.cmds p).Same (t.cmds p)
  code : ∀ p < s.nextPtr, (s.cmds p).base.type ≠ .user → (t.cmds p).resultCode = .none →
    (s.cmds p).resultCode = .none

theorem Keeps.base (h : Keeps s t) (hp : p < s.nextPtr) : (t.cmds p).base = (s.cmds p).base :=
  (h.same p hp).1

theorem keeps_of_cmds (hcmds : t.cmds = s.cmds) (hnext : t.nextPtr = s.nextPtr) : Keeps s t where
  next := Nat.le_of_eq hnext.symm
  same p _ := by
    rw [hcmds]
    exact Command.Same.refl _
  code p _ _ hnone := by
    rw [hcmds] at hnone
    exact hnone

theorem keeps_make (c : Command) (hnext : t.nextPtr = s.nextPtr + 1)
    (hcmds : t.cmds = Function.update s.cmds s.nextPtr c) : Keeps s t := by
  have hold : ∀ p < s.nextPtr, t.cmds p = s.cmds p := by
    intro p hp
    rw [hcmds, Function.update_of_ne (Nat.ne_of_lt hp)]
  refine ⟨?_, fun p hp => ?_, fun p hp _ hnone => ?_⟩
  · rw [hnext]
    exact Nat.le_succ _
  · rw [hold p hp]
    exact Command.Same.refl _
  · rw [hold p hp] at hnone
    exact hnone

theorem keeps_update {c : Command} (hsame : (s.cmds p).Same c)
    (hcode : (s.cmds p).base.type ≠ .user → c.resultCode = .none → (s.cmds p).resultCode = .none)
    (hnext : t.nextPtr = s.nextPtr) (hcmds : t.cmds = Function.update s.cmds p c) : Keeps s t := by
  refine ⟨Nat.le_of_eq hnext.symm, fun q _ => ?_, fun q _ hb hnone => ?_⟩
  · rw [hcmds]
    exact same_update hsame q
  · rw [hcmds] at hnone
    by_cases hq : q = p
    · rw [hq, Function.update_self] at hnone
      rw [hq] at hb ⊢
      exact hcode hb hnone
    · rw [Function.update_of_ne hq] at hnone
      exact hnone

theorem GameMove.code {c c' : Command} {pt : GamePoint} {pt' : Option GamePoint}
    (hmove : GameMove c pt c' pt') (hnone : c'.resultCode = .none) : c.resultCode = .none := by
  cases hmove with
  | assign msg => exact hnone
  | storeError => cases hnone
  | clearPending => exact hnone

theorem Effect.keeps (heff : Effect handlers s a t) (hw : Wf s) : Keeps s t := by
  cases heff with
  | makeUser name data q discard done hd => exact keeps_make _ rfl rfl
  | makeBuiltin a q size ty io ha hty hio => exact keeps_make _ rfl rfl
  | createQueue q hb hty =>
    obtain ⟨_, _, heq⟩ := createQueue_frame s (s.cmds q).base.queueId (s.cmds q).base.queueSize
    rw [heq]
    exact keeps_of_cmds rfl rfl
  | destroyQueue q hb hty =>
    obtain ⟨_, _, heq⟩ := destroyQueue_frame s (s.cmds q).base.queueId
    rw [heq]
    exact keeps_of_cmds rfl rfl
  | finishBuiltin q hb =>
    have hsame : (s.cmds q).Same { s.cmds q with resultCode := .ok } := ⟨rfl, rfl, rfl⟩
    exact keeps_update hsame (fun _ hnone => by cases hnone) rfl rfl
  | userMove a q st st' hd c hst hh hmove hposted hassign =>
    -- only the worker resets a result code, and that of a user command
    exact keeps_update hmove.base_eq (fun hb => absurd (hw.user q st hst) hb) rfl rfl
  | putWork q m hst => exact keeps_update (Command.Same.refl _) (fun _ => id) rfl rfl
  | recordPending q hst => exact keeps_update (Command.Same.refl _) (fun _ => id) rfl rfl
  | store t q hst hstore =>
    obtain ⟨_, _, rfl⟩ := storeResult_frame hstore
    exact keeps_of_cmds rfl rfl
  | popResults t id createdAt late hpop =>
    obtain ⟨rq, pc, -, -, rfl⟩ := popResults_cases hw.rings hpop
    exact keeps_of_cmds rfl rfl
  | handlerPacks q any hgame howned =>
    have hsame : (s.cmds q).Same { s.cmds q with M := any } := ⟨rfl, rfl, rfl⟩
    exact keeps_update hsame (fun _ => id) rfl rfl
  | finishItem q pt c pt' hgame howned hmove =>
    exact keeps_update hmove.base_eq (fun _ => hmove.code) rfl rfl
  | _ => exact keeps_of_cmds rfl rfl

/-- Results that a flush has returned stay in the history. -/
theorem Effect.flushed_append (heff : Effect handlers s a t) (hw : Wf s) :
    ∃ rest, t.flushed = s.flushed ++ rest := by
  have hsame : s.flushed = s.flushed ++ [] := (List.append_nil _).symm
  cases heff with
  | createQueue q hb hty =>
    obtain ⟨_, _, heq⟩ := createQueue_frame s (s.cmds q).base.queueId (s.cmds q).base.queueSize
    rw [heq]
    exact ⟨[], hsame⟩
  | destroyQueue q hb hty =>
    obtain ⟨_, _, heq⟩ := destroyQueue_frame s (s.cmds q).base.queueId
    rw [heq]
    exact ⟨[], hsame⟩
  | store t q hst hstore =>
    obtain ⟨_, _, rfl⟩ := storeResult_frame hstore
    exact ⟨[], hsame⟩
  | popResults t id createdAt late hpop =>
    obtain ⟨rq, pc, -, -, rfl⟩ := popResults_cases hw.rings hpop
    exact ⟨_, rfl⟩
  | _ => exact ⟨[], hsame⟩

end Ra2yrcpp.CommandManager
