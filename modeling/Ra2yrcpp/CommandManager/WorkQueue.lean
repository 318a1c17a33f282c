import Ra2yrcpp.CommandManager.Ledger

/-!
# The order of the work queue

`work_queue_` is a `std::priority_queue` whose `QueueCompare` answers true on commands of one type.
The heap does not suffer from that: what comes out is always a command of the least type.  But among
commands of one type the comparator lets the newer one pass, and the heap has no other order for them.

The queue is taken by itself here, with `enqueue_command` and `emplace_command` as pushes and the
worker's `top` and `pop` as one operation.  The types of the commands never change.
-/

open Ra2yrcpp.Reasoning

namespace Ra2yrcpp.CommandManager.WorkQueue

/-- The queue, and what was pushed to it and popped from it, in order. -/
structure Queue where
  queue : List CommandPtr
  pushed : List CommandPtr
  popped : List CommandPtr
  deriving DecidableEq, Repr

def Queue.init : Queue := ⟨[], [], []⟩

inductive Op
  | push (p : CommandPtr)
  | pop
  deriving DecidableEq, Repr

/-- The worker waits while the queue is empty. -/
def step (cmds : CommandPtr → Command) (s : Queue) : Op → Option Queue
  | .push p => some { s with
      queue := Heap.push (queueCompare cmds) s.queue p
      pushed := s.pushed ++ [p] }
  | .pop =>
    match s.queue with
    | [] => none
    | top :: _ => some { s with
        queue := Heap.pop (queueCompare cmds) s.queue
        popped := s.popped ++ [top] }

variable {cmds cmds' : CommandPtr → Command} {s t : Queue} {op : Op} {ops : List Op}

theorem step_cases (h : step cmds s op = some t) :
    (∃ p, op = .push p ∧
      t = ⟨Heap.push (queueCompare cmds) s.queue p, s.pushed ++ [p], s.popped⟩) ∨
    (∃ top rest, op = .pop ∧ s.queue = top :: rest ∧
      t = ⟨Heap.pop (queueCompare cmds) s.queue, s.pushed, s.popped ++ [top]⟩) := by
  cases op with
  | push p => exact Or.inl ⟨p, rfl, (Option.some.inj h).symm⟩
  | pop =>
    cases hq : s.queue with
    | nil =>
      rw [step, hq] at h
      cases h
    | cons top rest =>
      rw [step, hq] at h
      exact Or.inr ⟨top, rest, rfl, rfl, (Option.some.inj h).symm⟩

/-! ## A priority queue -/

structure Wf (cmds : CommandPtr → Command) (s : Queue) : Prop where
  heap : Heap.IsHeap (before cmds) s.queue
  perm : s.pushed.Perm (s.popped ++ s.queue)

theorem wf_init : Wf cmds Queue.init := ⟨Heap.isHeap_nil, List.Perm.refl _⟩

/-- What is left when the first command is gone. -/
theorem Wf.pop_perm (h : Wf cmds s) {top : CommandPtr} {rest : List CommandPtr}
    (hq : s.queue = top :: rest) : (Heap.pop (queueCompare cmds) s.queue).Perm rest := by
  have hheap := h.heap
  rw [hq] at hheap ⊢
  exact Heap.pop_perm (queueCompare_ranks cmds) top hheap

theorem wf_step (h : Wf cmds s) (hstep : step cmds s op = some t) : Wf cmds t := by
  obtain ⟨p, -, rfl⟩ | ⟨top, rest, -, hq, rfl⟩ := step_cases hstep
  · refine ⟨Heap.push_isHeap (queueCompare_ranks cmds) h.heap p, ?_⟩
    calc s.pushed ++ [p]
      _ |>.Perm (s.popped ++ s.queue ++ [p]) := h.perm.append_right [p]
      _ |>.Perm (s.popped ++ (s.queue ++ [p])) := by rw [List.append_assoc]
      _ |>.Perm (s.popped ++ Heap.push (queueCompare cmds) s.queue p) :=
        ((List.perm_append_singleton p s.queue).trans (Heap.push_perm s.queue p).symm).append_left _
  · refine ⟨Heap.pop_isHeap (queueCompare_ranks cmds) h.heap, ?_⟩
    calc s.pushed
      _ |>.Perm (s.popped ++ s.queue) := h.perm
      _ |>.Perm (s.popped ++ [top] ++ rest) := by rw [hq, List.append_assoc, List.singleton_append]
      _ |>.Perm (s.popped ++ [top] ++ Heap.pop (queueCompare cmds) s.queue) :=
        (h.pop_perm hq).symm.append_left _

theorem wf_run (hrun : run (step cmds) Queue.init ops = some s) : Wf cmds s :=
  run_invariant (fun _ _ _ h hstep => wf_step h hstep) wf_init hrun

theorem Wf.mem_pushed (h : Wf cmds s) {p : CommandPtr} (hp : p ∈ s.queue) : p ∈ s.pushed :=
  h.perm.mem_iff.mpr (List.mem_append_right _ hp)

/-- After every sequence of pushes and pops nothing is lost or doubled, and a pop on a queue that is
not empty takes one of its commands, of the least type there is. -/
theorem pops_least_type (hrun : run (step cmds) Queue.init ops = some s) :
    s.pushed.Perm (s.popped ++ s.queue) ∧
    (s.queue ≠ [] → ∃ t, step cmds s .pop = some t) ∧
    ∀ t, step cmds s .pop = some t → ∃ p ∈ s.queue,
      t.popped = s.popped ++ [p] ∧ t.pushed = s.pushed ∧ s.queue.Perm (p :: t.queue) ∧
      ∀ q ∈ s.queue, (cmds p).base.type.val ≤ (cmds q).base.type.val := by
  have hwf := wf_run hrun
  refine ⟨hwf.perm, fun hne => ?_, fun t ht => ?_⟩
  · obtain ⟨top, rest, hq⟩ := List.exists_cons_of_ne_nil hne
    rw [step, hq]
    exact ⟨_, rfl⟩
  · obtain ⟨p, hop, -⟩ | ⟨top, rest, -, hq, rfl⟩ := step_cases ht
    · cases hop
    · have hheap := hwf.heap
      have hperm := hwf.pop_perm hq
      rw [hq] at hheap
      refine ⟨top, by rw [hq]; exact List.mem_cons_self, rfl, rfl, ?_, ?_⟩
      · dsimp only
        rw [hq] at hperm ⊢
        exact hperm.symm.cons top
      · rw [hq]
        exact hheap.top_le (queueCompare_ranks cmds)

/-- Commands 1 and 3 are of clients, command 2 creates a queue. -/
def sampleCommands : CommandPtr → Command := fun p =>
  Command.make ⟨"", 1, p, 0, if p = 2 then .createQueue else .user⟩ none [] false

theorem pops_least_type_createQueue :
    ∃ t, step sampleCommands ⟨[2, 1], [1, 2], []⟩ .pop = some t ∧ t.popped = [2] := by
  have hrun : run (step sampleCommands) Queue.init [.push 1, .push 2] =
      some ⟨[2, 1], [1, 2], []⟩ := by decide
  obtain ⟨t, ht⟩ := (pops_least_type hrun).2.1 (by decide)
  obtain ⟨p, hp, hpopped, -, -, hleast⟩ := (pops_least_type hrun).2.2 t ht
  obtain rfl | rfl : p = 2 ∨ p = 1 := by simpa using hp
  · exact ⟨t, ht, hpopped⟩
  · exact absurd (hleast 2 (by decide)) (by decide)

/-! ## Commands of clients -/

def isUser (cmds : CommandPtr → Command) (p : CommandPtr) : Bool :=
  decide ((cmds p).base.type = .user)

/-- The `USER` commands leave the queue in the order in which they were enqueued. -/
def InOrder (cmds : CommandPtr → Command) (s : Queue) : Prop :=
  s.popped.filter (isUser cmds) <+: s.pushed.filter (isUser cmds)

instance (cmds : CommandPtr → Command) (s : Queue) : Decidable (InOrder cmds s) :=
  inferInstanceAs (Decidable (_ <+: _))

/-- Two commands that a client has sent while the worker was busy. -/
def sentTogether : List Op := [.push 1, .push 3, .pop]

theorem second_taken_first :
    ∃ s, run (step sampleCommands) Queue.init sentTogether = some s ∧
      s.pushed = [1, 3] ∧ s.popped = [3] ∧ ¬ InOrder sampleCommands s := by
  refine ⟨⟨[1], [1, 3], [3]⟩, by decide, rfl, rfl, by decide⟩

/-- A `USER` command is enqueued only when no other one is in the queue. -/
def UsersAlone (cmds : CommandPtr → Command) (s : Queue) : Op → Prop
  | .push p => isUser cmds p = true → ∀ q ∈ s.queue, isUser cmds q = false
  | .pop => True

instance (cmds : CommandPtr → Command) (s : Queue) : DecidablePred (UsersAlone cmds s)
  | .push _ => inferInstanceAs (Decidable (_ = true → ∀ q ∈ s.queue, _ = false))
  | .pop => isTrue trivial

/-- At most one `USER` command is in the queue, and it is the last one that was pushed. -/
structure Alone (cmds : CommandPtr → Command) (s : Queue) : Prop where
  pushed : s.pushed.filter (isUser cmds) =
    s.popped.filter (isUser cmds) ++ s.queue.filter (isUser cmds)
  queue : (s.queue.filter (isUser cmds)).length ≤ 1

theorem alone_init : Alone cmds Queue.init := ⟨rfl, Nat.zero_le 1⟩

/-- With at most one element there is one order. -/
theorem eq_of_perm_of_length_le {l l' : List CommandPtr} (h : l.Perm l') (hl : l.length ≤ 1) :
    l = l' := by
  match l, hl with
  | [], _ => exact (List.nil_perm.mp h).symm
  | [x], _ => exact List.singleton_perm.mp h

theorem alone_push {p : CommandPtr} (h : Alone cmds s) (hok : UsersAlone cmds s (.push p)) :
    Alone cmds ⟨Heap.push (queueCompare cmds) s.queue p, s.pushed ++ [p], s.popped⟩ := by
  have hpush : (Heap.push (queueCompare cmds) s.queue p).Perm (p :: s.queue) :=
    Heap.push_perm s.queue p
  have hperm := hpush.filter (isUser cmds)
  cases hp : isUser cmds p with
  | true =>
    have hnone : s.queue.filter (isUser cmds) = [] := by
      rw [List.filter_eq_nil_iff]
      intro q hq
      rw [hok hp q hq]
      decide
    rw [List.filter_cons_of_pos hp, hnone] at hperm
    have hqueue := List.perm_singleton.mp hperm
    refine ⟨?_, by rw [hqueue]; exact Nat.le_refl 1⟩
    rw [hqueue, List.filter_append, h.pushed, hnone, List.append_nil]
    simp [hp]
  | false =>
    rw [List.filter_cons_of_neg (by rw [hp]; decide)] at hperm
    have hqueue := eq_of_perm_of_length_le hperm.symm h.queue
    refine ⟨?_, by rw [← hqueue]; exact h.queue⟩
    rw [← hqueue, List.filter_append, h.pushed]
    simp [hp]

theorem alone_pop {top : CommandPtr} {rest : List CommandPtr} (h : Alone cmds s) (hw : Wf cmds s)
    (hq : s.queue = top :: rest) :
    Alone cmds ⟨Heap.pop (queueCompare cmds) s.queue, s.pushed, s.popped ++ [top]⟩ := by
  have hperm := (hw.pop_perm hq).filter (isUser cmds)
  have hone := h.queue
  have hpushed := h.pushed
  rw [hq] at hone hpushed
  cases hp : isUser cmds top with
  | true =>
    rw [List.filter_cons_of_pos hp] at hone hpushed
    have hrest : rest.filter (isUser cmds) = [] := by
      apply List.eq_nil_of_length_eq_zero
      rw [List.length_cons] at hone
      omega
    rw [hrest] at hperm hpushed
    have hqueue := List.perm_nil.mp hperm
    refine ⟨?_, by rw [hqueue]; exact Nat.zero_le 1⟩
    rw [hqueue, hpushed, List.filter_append]
    simp [hp]
  | false =>
    rw [List.filter_cons_of_neg (by rw [hp]; decide)] at hone hpushed
    have hqueue := eq_of_perm_of_length_le hperm.symm hone
    refine ⟨?_, by rw [← hqueue]; exact hone⟩
    rw [← hqueue, hpushed, List.filter_append]
    simp [hp]

theorem alone_step (h : Wf cmds s ∧ Alone cmds s) (hok : UsersAlone cmds s op)
    (hstep : step cmds s op = some t) : Wf cmds t ∧ Alone cmds t := by
  refine ⟨wf_step h.1 hstep, ?_⟩
  obtain ⟨p, rfl, rfl⟩ | ⟨top, rest, rfl, hq, rfl⟩ := step_cases hstep
  · exact alone_push h.2 hok
  · exact alone_pop h.2 h.1 hq

/-- A command that is enqueued while only `USER` commands are in the queue is the next to leave. -/
theorem pop_push_user {p : CommandPtr} (hp : isUser cmds p = true)
    (hq : ∀ q ∈ s.queue, isUser cmds q = true) :
    ∃ u, (step cmds s (.push p)).bind (fun t => step cmds t .pop) = some u ∧
      u.pushed = s.pushed ++ [p] ∧ u.popped = s.popped ++ [p] := by
  have hcomp : ∀ q ∈ p :: s.queue, queueCompare cmds q p = true := by
    intro q hmem
    have hquser : isUser cmds q = true := by
      rcases List.mem_cons.mp hmem with rfl | hmem
      · exact hp
      · exact hq q hmem
    unfold queueCompare
    rw [of_decide_eq_true hp, of_decide_eq_true hquser]
    decide
  obtain ⟨rest, hpush⟩ := List.head?_eq_some_iff.mp (Heap.push_head hcomp)
  refine ⟨⟨Heap.pop (queueCompare cmds) (Heap.push (queueCompare cmds) s.queue p),
    s.pushed ++ [p], s.popped ++ [p]⟩, ?_, rfl, rfl⟩
  simp only [step, Option.bind_some, hpush]

/-- In every run that enqueues each `USER` command only when no other one is queued, they leave in
order.  A new `USER` command that is enqueued behind others, with no built-in command in the queue,
leaves next and breaks the order. -/
theorem users_in_order (hrun : run (step cmds) Queue.init ops = some s) :
    (Conforms (step cmds) (UsersAlone cmds) Queue.init ops → InOrder cmds s) ∧
    ∀ p, isUser cmds p = true → p ∉ s.pushed → s.queue ≠ [] →
      (∀ q ∈ s.queue, isUser cmds q = true) →
      ∃ u, (step cmds s (.push p)).bind (fun t => step cmds t .pop) = some u ∧
        ¬ InOrder cmds u := by
  constructor
  · intro hok
    have halone := (run_invariant_of_conforms (fun _ _ _ h hok hstep => alone_step h hok hstep)
      ⟨wf_init, alone_init⟩ hok hrun).2
    exact ⟨_, halone.pushed.symm⟩
  · intro p hp hnew hne hq
    obtain ⟨u, hu, hpushed, hpopped⟩ := pop_push_user hp hq
    refine ⟨u, hu, fun hprefix => ?_⟩
    have hperm := ((wf_run hrun).perm.filter (isUser cmds)).length_eq
    have hall : s.queue.filter (isUser cmds) = s.queue := List.filter_eq_self.mpr hq
    have hpos := List.length_pos_of_ne_nil hne
    rw [List.filter_append, List.length_append, hall] at hperm
    unfold InOrder at hprefix
    rw [hpushed, hpopped, List.filter_append, List.filter_append, List.filter_cons_of_pos hp,
      List.filter_nil] at hprefix
    -- the new command would have to be among those that were pushed before
    have hshort : s.popped.filter (isUser cmds) ++ [p] <+: s.pushed.filter (isUser cmds) := by
      refine List.prefix_of_prefix_length_le hprefix (List.prefix_append _ _) ?_
      rw [List.length_append, List.length_singleton]
      omega
    have hmem := hshort.subset (List.mem_append_right _ (List.mem_singleton_self p))
    exact hnew (List.mem_filter.mp hmem).1

/-- A client waits for each of its commands to be taken. -/
theorem oneAfterTheOther_in_order :
    Conforms (step sampleCommands) (UsersAlone sampleCommands) Queue.init
      [.push 1, .push 2, .pop, .pop, .push 3, .pop] ∧
    InOrder sampleCommands ⟨[], [1, 2, 3], [2, 1, 3]⟩ := by
  have hok : Conforms (step sampleCommands) (UsersAlone sampleCommands) Queue.init
      [.push 1, .push 2, .pop, .pop, .push 3, .pop] := by decide
  exact ⟨hok, (users_in_order (by decide)).1 hok⟩

/-! ## The queue of the manager -/

/-- A step only looks at the types of the commands that it leaves in the history. -/
theorem step_congr (hw : Wf cmds s) (hstep : step cmds s op = some t)
    (htypes : ∀ p ∈ t.pushed, (cmds' p).base = (cmds p).base) : step cmds' s op = some t := by
  obtain ⟨p, rfl, rfl⟩ | ⟨top, rest, rfl, hq, rfl⟩ := step_cases hstep
  · have hmem : ∀ a ∈ p :: s.queue, a ∈ s.pushed ++ [p] := by
      intro a ha
      rcases List.mem_cons.mp ha with rfl | ha
      · exact List.mem_append_right _ (List.mem_singleton_self a)
      · exact List.mem_append_left _ (hw.mem_pushed ha)
    have hcomp : ∀ a ∈ p :: s.queue, ∀ b ∈ p :: s.queue,
        queueCompare cmds' a b = queueCompare cmds a b := by
      intro a ha b hb
      unfold queueCompare
      rw [htypes a (hmem a ha), htypes b (hmem b hb)]
    rw [step, Heap.push_congr hcomp]
  · have hcomp : ∀ a ∈ s.queue, ∀ b ∈ s.queue,
        queueCompare cmds' a b = queueCompare cmds a b := by
      intro a ha b hb
      unfold queueCompare
      rw [htypes a (hw.mem_pushed ha), htypes b (hw.mem_pushed hb)]
    rw [step, Heap.pop_congr hcomp, hq]

theorem pushed_mono (hstep : step cmds s op = some t) : ∀ p ∈ s.pushed, p ∈ t.pushed := by
  intro p hp
  obtain ⟨q, -, rfl⟩ | ⟨top, rest, -, -, rfl⟩ := step_cases hstep
  · exact List.mem_append_left _ hp
  · exact hp

theorem pushed_mono_run (hrun : run (step cmds) s ops = some t) {p : CommandPtr}
    (hp : p ∈ s.pushed) : p ∈ t.pushed := by
  have hstep : ∀ s op t, p ∈ s.pushed → step cmds s op = some t → p ∈ t.pushed :=
    fun s op t hp hstep => pushed_mono hstep p hp
  exact run_invariant hstep hp hrun

theorem run_congr (hw : Wf cmds s) (hrun : run (step cmds) s ops = some t)
    (htypes : ∀ p ∈ t.pushed, (cmds' p).base = (cmds p).base) :
    run (step cmds') s ops = some t := by
  induction ops generalizing s with
  | nil => exact hrun
  | cons op ops ih =>
    obtain ⟨u, hstep, hrest⟩ := run_cons_eq_some.mp hrun
    have hstep' := step_congr hw hstep fun p hp => htypes p (pushed_mono_run hrest hp)
    exact run_cons_eq_some.mpr ⟨u, hstep', ih (wf_step hw hstep) hrest⟩

theorem run_concat (hrun : run (step cmds) Queue.init ops = some s)
    (hstep : step cmds s op = some t) : run (step cmds) Queue.init (ops ++ [op]) = some t := by
  rw [run_append, hrun, Option.bind_some, run_cons, hstep]
  rfl

/-- What the work queue of the manager went through. -/
structure Simulates (m : State) (ops : List Op) (s : Queue) : Prop where
  run : run (step m.cmds) Queue.init ops = some s
  queue : s.queue = m.workQueue
  pushed : ∀ p ∈ s.pushed, p < m.nextPtr

variable {handlers : String → Option Handler} {m m' : State} {a : Action}

/-- Commands that exist keep their types, so the history stays one. -/
theorem Simulates.keep (h : Simulates m ops s) (hkeeps : Keeps m m')
    (hqueue : m'.workQueue = m.workQueue) : Simulates m' ops s where
  run := run_congr wf_init h.run fun p hp => hkeeps.base (h.pushed p hp)
  queue := h.queue.trans hqueue.symm
  pushed p hp := Nat.lt_of_lt_of_le (h.pushed p hp) hkeeps.next

theorem Simulates.push (h : Simulates m ops s) (hw : CommandManager.Wf m) {p : CommandPtr}
    (hmade : p ∈ m.made) (hcmds : m'.cmds = m.cmds) (hnext : m'.nextPtr = m.nextPtr)
    (hqueue : m'.workQueue = Heap.push (queueCompare m.cmds) m.workQueue p) :
    ∃ ops' s', Simulates m' ops' s' := by
  refine ⟨ops ++ [.push p], ⟨Heap.push (queueCompare m.cmds) s.queue p, s.pushed ++ [p], s.popped⟩,
    ?_, ?_, fun q hq => ?_⟩
  · rw [hcmds]
    exact run_concat h.run rfl
  · rw [hqueue, h.queue]
  · rw [hnext]
    rcases List.mem_append.mp hq with hq | hq
    · exact h.pushed q hq
    · rw [List.mem_singleton.mp hq]
      exact hw.lt_of_copies (copies_pos_of_made hmade)

theorem Simulates.pop (h : Simulates m ops s) {top : CommandPtr} {rest : List CommandPtr}
    (hq : m.workQueue = top :: rest) (hcmds : m'.cmds = m.cmds) (hnext : m'.nextPtr = m.nextPtr)
    (hqueue : m'.workQueue = Heap.pop (queueCompare m.cmds) m.workQueue) :
    ∃ ops' s', Simulates m' ops' s' := by
  have hstep : step m.cmds s .pop = some ⟨Heap.pop (queueCompare m.cmds) s.queue, s.pushed,
      s.popped ++ [top]⟩ := by
    rw [step, h.queue, hq]
  refine ⟨ops ++ [.pop], ⟨Heap.pop (queueCompare m.cmds) s.queue, s.pushed, s.popped ++ [top]⟩,
    ?_, ?_, ?_⟩
  · rw [hcmds]
    exact run_concat h.run hstep
  · rw [hqueue, h.queue]
  · rw [hnext]
    exact h.pushed

theorem Simulates.step (h : Simulates m ops s) (hw : CommandManager.Wf m)
    (heff : Effect handlers m a m') : ∃ ops' s', Simulates m' ops' s' := by
  have hkeeps := heff.keeps hw
  cases heff with
  | emplace p hmade hty hlock => exact h.push hw hmade rfl rfl rfl
  | enqueue p waiting hmade hty hio hlock => exact h.push hw hmade rfl rfl rfl
  | ioEnqueues p hio hlock => exact h.push hw (hw.io p hio).1 rfl rfl rfl
  | take p rest hidle hq => exact h.pop hq rfl rfl rfl
  | createQueue p hb hty =>
    refine ⟨ops, s, h.keep hkeeps ?_⟩
    obtain ⟨_, _, heq⟩ := createQueue_frame m (m.cmds p).base.queueId (m.cmds p).base.queueSize
    rw [heq]
  | destroyQueue p hb hty =>
    refine ⟨ops, s, h.keep hkeeps ?_⟩
    obtain ⟨_, _, heq⟩ := destroyQueue_frame m (m.cmds p).base.queueId
    rw [heq]
  | store t p hst hstore =>
    refine ⟨ops, s, h.keep hkeeps ?_⟩
    obtain ⟨_, _, rfl⟩ := storeResult_frame hstore
    rfl
  | popResults t id createdAt late hpop =>
    refine ⟨ops, s, h.keep hkeeps ?_⟩
    obtain ⟨rq, pc, -, -, rfl⟩ := popResults_cases hw.rings hpop
    rfl
  | _ => exact ⟨ops, s, h.keep hkeeps rfl⟩

/-- In every interleaving of the manager's threads its work queue goes through a sequence of pushes
and pops, so that what holds after every such sequence holds of it. -/
theorem simulates_run {acts : List Action}
    (hrun : Reasoning.run (CommandManager.step handlers) State.init acts = some m) :
    ∃ ops s, Simulates m ops s := by
  have hstep : ∀ m a m', CommandManager.Wf m ∧ (∃ ops s, Simulates m ops s) →
      CommandManager.step handlers m a = some m' →
      CommandManager.Wf m' ∧ ∃ ops s, Simulates m' ops s := by
    rintro m a m' ⟨hw, ops, s, h⟩ hstep
    exact ⟨CommandManager.wf_step hw (step_effect hstep), h.step hw (step_effect hstep)⟩
  exact (run_invariant hstep ⟨CommandManager.wf_init, [], Queue.init, rfl, rfl, nofun⟩ hrun).2

end Ra2yrcpp.CommandManager.WorkQueue
