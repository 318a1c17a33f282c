import Ra2yrcpp.AsyncQueue.Bounded
import Ra2yrcpp.CommandManager.Ledger

/-!
# The order of results

A result queue is a stack that its owners turn around: `RingBuffer::front` is the newest result, so
`AsyncQueue::pop` returns the newest first, and `InstrumentationService::flush_results` lists them
from the back.  What is still pending is put back in the order in which it was taken out, and so lies
the wrong way round from then on.

One result queue is taken by itself here, with the results that the worker stores in it, the polls of
its client, and the game thread that clears the flags.
-/

open Ra2yrcpp.Reasoning

namespace Ra2yrcpp.CommandManager.ResultOrder

/-- `stored` has the commands in the order in which they were stored, `polls` what each `PollResults`
lists, and `evictions` what was evicted, with the queue it was evicted from. -/
structure Queue where
  cmds : CommandPtr → Command
  queue : AsyncQueue RingBuffer CommandPtr
  stored : List CommandPtr
  polls : List (List (CommandPtr × CommandResult))
  evictions : List (CommandPtr × List CommandPtr)

def Queue.init (cmds : CommandPtr → Command) (m : Nat) : Queue := ⟨cmds, ⟨⟨[], m⟩, 0⟩, [], [], []⟩

/-- `InstrumentationService::flush_results` adds `results.back()` and drops it, until none is left. -/
def pollResults (cmds : CommandPtr → Command) (results : List CommandPtr) :
    List (CommandPtr × CommandResult) :=
  results.reverse.map fun p => (p, (cmds p).toResult)

inductive Op
  | store (p : CommandPtr)
  | finish (p : CommandPtr)
  | poll
  deriving DecidableEq, Repr

/-- A command is stored once.  `finish` is the end of `run_async_handler`. -/
def step (s : Queue) : Op → Option Queue
  | .store p =>
    if p ∈ s.stored then none
    else (s.queue.emplace p).map fun q => { s with
      queue := q
      stored := s.stored ++ [p]
      evictions := s.evictions ++ s.queue.q.evicted.toList.map (·, s.queue.q.q) }
  | .finish p => some { s with
      cmds := Function.update s.cmds p { s.cmds p with pending := false } }
  | .poll =>
    (s.queue.pop 1 0 fun p => !(s.cmds p).pending).map fun r => { s with
      queue := r.2
      polls := s.polls ++ [pollResults s.cmds r.1] }

/-- Every `PollResults` lists its results in the order in which they were stored, and what is evicted
is the oldest of the queue. -/
structure InOrder (s : Queue) : Prop where
  polls : ∀ l ∈ s.polls, (l.map Prod.fst).Sublist s.stored
  evictions : ∀ e ∈ s.evictions, ∀ p ∈ e.2, p ≠ e.1 → [e.1, p].Sublist s.stored

instance (s : Queue) : Decidable (InOrder s) :=
  decidable_of_iff
    ((∀ l ∈ s.polls, (l.map Prod.fst).Sublist s.stored) ∧
      ∀ e ∈ s.evictions, ∀ p ∈ e.2, p ≠ e.1 → [e.1, p].Sublist s.stored)
    ⟨fun h => ⟨h.1, h.2⟩, fun h => ⟨h.polls, h.evictions⟩⟩

/-! ## Two results that are pending at a poll -/

/-- Asynchronous commands whose handlers have not run yet. -/
def pendingCommands : CommandPtr → Command := fun p =>
  { Command.make ⟨"PlaceQuery", 1, p, 0, .user⟩ none [] false with pending := true }

/-- A poll finds commands 1 and 2 pending; the next one finds them done. -/
def polledTwice : List Op := [.store 1, .store 2, .poll, .finish 1, .finish 2, .poll]

/-- A poll finds commands 1 and 2 pending in a queue of two, and a third result is stored. -/
def polledFull : List Op := [.store 1, .store 2, .poll, .store 3]

theorem results_out_of_order :
    (∃ s, run step (Queue.init pendingCommands 32) polledTwice = some s ∧
      s.polls.map (fun l => l.map Prod.fst) = [[], [2, 1]] ∧ ¬ InOrder s) ∧
    ∃ s, run step (Queue.init pendingCommands 2) polledFull = some s ∧
      s.evictions = [(2, [2, 1])] ∧ ¬ InOrder s := by
  constructor
  · refine ⟨(run step (Queue.init pendingCommands 32) polledTwice).get (by decide), by simp,
      by decide, by decide⟩
  · refine ⟨(run step (Queue.init pendingCommands 2) polledFull).get (by decide), by simp,
      by decide, by decide⟩

/-! ## Polls that find at most one result pending -/

def Queue.contents (s : Queue) : List CommandPtr := s.queue.q.q

/-- The results that a poll puts back. -/
def Queue.pending (s : Queue) : List CommandPtr := s.contents.filter fun p => (s.cmds p).pending

/-- A poll finds at most one result that is pending. -/
def OnePending (s : Queue) : Op → Prop
  | .poll => s.pending.length ≤ 1
  | _ => True

instance (s : Queue) : DecidablePred (OnePending s)
  | .poll => inferInstanceAs (Decidable (s.pending.length ≤ 1))
  | .store _ | .finish _ => isTrue trivial

structure Wf (s : Queue) : Prop where
  unbounded : s.queue.maxSize = 0
  bounded : s.queue.q.Bounded
  stored : s.stored.Nodup

variable {cmds : CommandPtr → Command} {s t : Queue} {op : Op} {ops : List Op} {m : Nat}

theorem wf_init : Wf (Queue.init cmds m) := ⟨rfl, Nat.zero_le _, List.nodup_nil⟩

/-- After a poll: what passes is reversed twice on its way to the client, what is put back once. -/
def Queue.polled (s : Queue) : Queue :=
  { s with
    queue := ⟨⟨s.pending.reverse, s.queue.q.maxSize⟩, s.queue.maxSize⟩
    polls := s.polls ++ [(s.contents.filter fun p => !(s.cmds p).pending).map fun p =>
      (p, (s.cmds p).toResult)] }

theorem poll_eq (hw : Wf s) : step s .poll = some s.polled := by
  have hpop := AsyncQueue.pop_zero (fun p => !(s.cmds p).pending) hw.bounded s.queue.maxSize
  show (s.queue.pop 1 0 _).map _ = _
  rw [hpop, Option.map_some]
  unfold Queue.polled pollResults Queue.pending Queue.contents
  simp only [Bool.not_not, List.filter_reverse, List.reverse_reverse]

theorem step_cases (hw : Wf s) (h : step s op = some t) :
    (∃ p, op = .store p ∧ p ∉ s.stored ∧ t = { s with
      queue := ⟨s.queue.q.emplace p, s.queue.maxSize⟩
      stored := s.stored ++ [p]
      evictions := s.evictions ++ s.queue.q.evicted.toList.map (·, s.contents) }) ∨
    (∃ p, op = .finish p ∧ t = { s with
      cmds := Function.update s.cmds p { s.cmds p with pending := false } }) ∨
    (op = .poll ∧ t = s.polled) := by
  cases op with
  | store p =>
    left
    have hfull : s.queue.full = false := by
      unfold AsyncQueue.full
      rw [hw.unbounded]
      rfl
    simp only [step] at h
    split at h
    · cases h
    · rename_i hnew
      simp only [AsyncQueue.emplace, hfull] at h
      exact ⟨p, rfl, hnew, (Option.some.inj h).symm⟩
  | finish p => exact Or.inr (Or.inl ⟨p, rfl, (Option.some.inj h).symm⟩)
  | poll =>
    right
    right
    rw [poll_eq hw] at h
    exact ⟨rfl, (Option.some.inj h).symm⟩

theorem wf_step (hw : Wf s) (h : step s op = some t) : Wf t := by
  obtain ⟨p, -, hnew, rfl⟩ | ⟨p, -, rfl⟩ | ⟨-, rfl⟩ := step_cases hw h
  · refine ⟨hw.unbounded, hw.bounded.emplace p, ?_⟩
    exact List.nodup_append.mpr ⟨hw.stored, List.nodup_singleton p, fun a ha b hb hab =>
      hnew (List.mem_singleton.mp hb ▸ hab ▸ ha)⟩
  · exact ⟨hw.unbounded, hw.bounded, hw.stored⟩
  · refine ⟨hw.unbounded, ?_, hw.stored⟩
    show s.pending.reverse.length ≤ max 1 s.queue.q.maxSize
    rw [List.length_reverse]
    exact Nat.le_trans (List.length_filter_le _ _) hw.bounded

/-- The queue holds its results in the order in which they were stored. -/
def Sorted (s : Queue) : Prop := s.contents.Sublist s.stored

theorem sorted_store (h : Sorted s) (p : CommandPtr) :
    (s.queue.q.emplace p).q.Sublist (s.stored ++ [p]) := by
  unfold RingBuffer.emplace
  split
  · exact ((List.tail_sublist _).trans h).append (List.Sublist.refl [p])
  · exact List.Sublist.append h (List.Sublist.refl [p])

theorem reverse_of_length_le {l : List CommandPtr} (h : l.length ≤ 1) : l.reverse = l := by
  match l, h with
  | [], _ => rfl
  | [x], _ => rfl

theorem sorted_step (hw : Wf s) (h : Sorted s) (hok : OnePending s op) (hstep : step s op = some t) :
    Sorted t := by
  obtain ⟨p, rfl, -, rfl⟩ | ⟨p, rfl, rfl⟩ | ⟨rfl, rfl⟩ := step_cases hw hstep
  · exact sorted_store h p
  · exact h
  · -- one result that is put back has nothing to be turned around with
    show s.pending.reverse.Sublist s.stored
    rw [reverse_of_length_le hok]
    exact List.filter_sublist.trans h

theorem inOrder_step (hw : Wf s) (hs : Sorted s) (h : InOrder s) (hstep : step s op = some t) :
    InOrder t := by
  obtain ⟨p, -, -, rfl⟩ | ⟨p, -, rfl⟩ | ⟨-, rfl⟩ := step_cases hw hstep
  · have hmono : s.stored.Sublist (s.stored ++ [p]) := List.sublist_append_left _ _
    refine ⟨fun l hl => (h.polls l hl).trans hmono, fun e he q hq hne => ?_⟩
    rcases List.mem_append.mp he with he | he
    · exact (h.evictions e he q hq hne).trans hmono
    · -- the first element of the queue is evicted, and it is the oldest
      obtain ⟨x, hx, rfl⟩ := List.mem_map.mp he
      have hhead : s.contents.head? = some x := by
        have hsome := Option.mem_toList.mp hx
        unfold RingBuffer.evicted at hsome
        split at hsome
        · exact hsome
        · cases hsome
      obtain ⟨rest, hrest⟩ := List.head?_eq_some_iff.mp hhead
      dsimp only at hq hne
      rw [hrest] at hq
      have hmem := (List.mem_cons.mp hq).resolve_left hne
      have hpair : [x, q].Sublist s.contents := by
        rw [hrest]
        exact (List.singleton_sublist.mpr hmem).cons_cons x
      exact (hpair.trans hs).trans hmono
  · exact ⟨h.polls, h.evictions⟩
  · refine ⟨fun l hl => ?_, h.evictions⟩
    rcases List.mem_append.mp hl with hl | hl
    · exact h.polls l hl
    · rw [List.mem_singleton.mp hl, List.map_map]
      have hid : (s.contents.filter fun p => !(s.cmds p).pending).map
          (Prod.fst ∘ fun p => (p, (s.cmds p).toResult)) =
          s.contents.filter fun p => !(s.cmds p).pending := List.map_id _
      rw [hid]
      exact List.filter_sublist.trans hs

/-! ## A poll that finds two -/

/-- The positions in a list without duplicates increase along it. -/
theorem pairwise_idxOf {l : List CommandPtr} (h : l.Nodup) :
    l.Pairwise fun a b => l.idxOf a < l.idxOf b := by
  rw [List.pairwise_iff_getElem]
  intro i j hi hj hij
  rw [h.idxOf_getElem, h.idxOf_getElem]
  exact hij

/-- Two or more elements cannot be in order both ways. -/
theorem not_sublist_reverse {l order : List CommandPtr} (hnodup : order.Nodup) (h : l.Sublist order)
    (hlen : 2 ≤ l.length) : ¬ l.reverse.Sublist order := by
  intro hrev
  have hpos := pairwise_idxOf hnodup
  have hup := hpos.sublist h
  have hdown := List.pairwise_reverse.mp (hpos.sublist hrev)
  match l, hlen with
  | x :: y :: rest, _ =>
    have hxy := (List.pairwise_cons.mp hup).1 y List.mem_cons_self
    have hyx := (List.pairwise_cons.mp hdown).1 y List.mem_cons_self
    omega

/-- The game thread finishes all these commands. -/
theorem run_finish (s : Queue) (l : List CommandPtr) :
    ∃ t, run step s (l.map .finish) = some t ∧ t.queue = s.queue ∧ t.stored = s.stored ∧
      ∀ p, (t.cmds p).pending = true ↔ (s.cmds p).pending = true ∧ p ∉ l := by
  induction l generalizing s with
  | nil => exact ⟨s, rfl, rfl, rfl, fun p => by simp⟩
  | cons q l ih =>
    obtain ⟨t, hrun, hqueue, hstored, hpending⟩ := ih { s with
      cmds := Function.update s.cmds q { s.cmds q with pending := false } }
    refine ⟨t, run_cons_eq_some.mpr ⟨_, rfl, hrun⟩, hqueue, hstored, fun p => ?_⟩
    rw [hpending p]
    dsimp only
    by_cases hp : p = q
    · subst hp
      rw [Function.update_self]
      simp
    · rw [Function.update_of_ne hp]
      simp [hp]

/-- When the results that were put back are all done, the next poll lists them the wrong way round. -/
theorem polls_reversed (hw : Wf s) (hs : Sorted s) (htwo : 2 ≤ s.pending.length) :
    ∃ u, run step s (.poll :: s.pending.map .finish ++ [.poll]) = some u ∧ ¬ InOrder u := by
  obtain ⟨v, hv, hqueue, hstored, hflags⟩ := run_finish s.polled s.pending
  have hwv : Wf v :=
    run_invariant (fun _ _ _ hw hstep => wf_step hw hstep) (wf_step hw (poll_eq hw)) hv
  have hcontents : v.contents = s.pending.reverse := congrArg (fun q => q.q.q) hqueue
  have horder : v.polled.stored = s.stored := hstored
  refine ⟨v.polled, ?_, fun hin => ?_⟩
  · rw [List.cons_append, run_cons, poll_eq hw, Option.bind_some, run_append, hv, Option.bind_some,
      run_cons, poll_eq hwv]
    rfl
  · -- everything in the queue has passed
    have hall : v.contents.filter (fun p => !(v.cmds p).pending) = v.contents := by
      rw [List.filter_eq_self]
      intro p hp
      rw [hcontents, List.mem_reverse] at hp
      have hnot : ¬ (v.cmds p).pending = true := fun htrue => ((hflags p).mp htrue).2 hp
      simpa using hnot
    have hlisted := hin.polls _ (List.mem_append_right _ (List.mem_singleton_self _))
    have hid : (v.contents.map fun p => (p, (v.cmds p).toResult)).map Prod.fst = v.contents := by
      rw [List.map_map]
      exact List.map_id _
    rw [hall, hid, hcontents, horder] at hlisted
    exact not_sublist_reverse hw.stored (List.filter_sublist.trans hs) htwo hlisted

/-- In every run whose polls all find at most one result pending, results are listed in the order in
which they were stored and the oldest is evicted first.  A poll that finds two of them pending makes
the poll that returns them list them in reverse. -/
theorem results_in_order (hrun : run step (Queue.init cmds m) ops = some s)
    (hok : Conforms step OnePending (Queue.init cmds m) ops) :
    InOrder s ∧ (2 ≤ s.pending.length →
      ∃ u, run step s (.poll :: s.pending.map .finish ++ [.poll]) = some u ∧ ¬ InOrder u) := by
  have hstep : ∀ s op t, Wf s ∧ Sorted s ∧ InOrder s → OnePending s op → step s op = some t →
      Wf t ∧ Sorted t ∧ InOrder t := by
    rintro s op t ⟨hw, hs, hin⟩ hok hstep
    exact ⟨wf_step hw hstep, sorted_step hw hs hok hstep, inOrder_step hw hs hin hstep⟩
  have hinit : InOrder (Queue.init cmds m) := ⟨nofun, nofun⟩
  obtain ⟨hw, hs, hin⟩ := run_invariant_of_conforms hstep
    ⟨wf_init, List.Sublist.refl _, hinit⟩ hok hrun
  exact ⟨hin, polls_reversed hw hs⟩

/-- The first command is done when the client polls, the second is not. -/
def polledBetween : List Op :=
  [.store 1, .store 2, .finish 1, .poll, .finish 2, .store 3, .finish 3, .poll]

theorem polledBetween_in_order :
    ∃ s, run step (Queue.init pendingCommands 32) polledBetween = some s ∧
      s.polls.map (fun l => l.map Prod.fst) = [[1], [2, 3]] ∧ InOrder s := by
  have hrun : run step (Queue.init pendingCommands 32) polledBetween =
      some ((run step (Queue.init pendingCommands 32) polledBetween).get (by decide)) := by
    simp
  exact ⟨_, hrun, by decide, (results_in_order hrun (by decide)).1⟩

/-! ## The result queues of the manager -/

variable {M M' : State} {p : CommandPtr} {id : QueueId} {rq : ResultQueue} {q : Queue}

/-- The worker's `emplace` is a `store`. -/
theorem storeResult_store (hstore : storeResult M p = some M')
    (hkept : (M.cmds p).discardResult = false)
    (hl : M.results.lookup (M.cmds p).base.queueId = some rq) (hq : q.queue = rq.q)
    (hnew : p ∉ q.stored) :
    ∃ q' rq', step q (.store p) = some q' ∧
      M'.results.lookup (M.cmds p).base.queueId = some rq' ∧ q'.queue = rq'.q := by
  simp only [storeResult, hkept, hl] at hstore
  obtain ⟨b, hb, rfl⟩ := Option.map_eq_some_iff.mp hstore
  refine ⟨{ q with
    queue := b
    stored := q.stored ++ [p]
    evictions := q.evictions ++ q.queue.q.evicted.toList.map (·, q.queue.q.q) },
    { rq with q := b }, ?_, AList.lookup_insert _, rfl⟩
  simp only [step, if_neg hnew, hq, hb, Option.map_some]

/-- A flush that meets no flag in the middle of its change is a `poll`: it leaves the same queue and
tells the client the same. -/
theorem popResults_poll {createdAt : Nat} (hw : CommandManager.Wf M) (hwq : Wf q)
    (hpop : popResults M id createdAt [] = some M') (hl : M.results.lookup id = some rq)
    (hq : q.queue = rq.q) (hcmds : q.cmds = M.cmds) :
    ∃ q' rq' l, step q .poll = some q' ∧ M'.results.lookup id = some rq' ∧ q'.queue = rq'.q ∧
      q'.polls = q.polls ++ [l] ∧
      M'.flushed = M.flushed ++ l.map fun e => ⟨e.1, M.flushCalls, e.2⟩ := by
  obtain ⟨rq₁, pc, hl₁, -, rfl⟩ := popResults_cases hw.rings hpop
  obtain rfl : rq = rq₁ := Option.some.inj (hl.symm.trans hl₁)
  have hcontents : q.contents = rq.contents := congrArg (fun a => a.q.q) hq
  have hready : M.ready [] = fun p => !(q.cmds p).pending := by
    funext p
    unfold State.ready
    rw [hcmds, List.contains_nil, Bool.not_false, Bool.and_true]
  refine ⟨q.polled, _, _, poll_eq hwq, AList.lookup_insert _, ?_, rfl, ?_⟩
  · unfold Queue.polled Queue.pending
    rw [hcontents, hready, hq]
    simp only [Bool.not_not, List.filter_reverse]
  · dsimp only
    rw [hcontents, hready, List.filter_reverse, List.reverse_reverse, List.map_map, hcmds]
    rfl

end Ra2yrcpp.CommandManager.ResultOrder
