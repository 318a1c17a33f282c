import Mathlib.Data.List.Nodup
import Ra2yrcpp.AsyncQueue
import Ra2yrcpp.Reasoning.Transition

/-!
# A bounded queue loses nothing but by eviction

`AsyncQueue<T, RingBuffer<T>>` as the result queues use it: `emplace`, and `pop(0, 0.0s, predicate)`
with a predicate whose answers may differ from one pop to the next.  `pop` takes every element out
and puts the rejected ones back through a container that evicts when it is full; there is always room
for them.
-/

open Ra2yrcpp.Reasoning

namespace Ra2yrcpp.AsyncQueue

/-- With count 0 the loop of `pop` ends after its first round. -/
theorem pop_zero {T : Type} (predicate : T → Bool) {r : RingBuffer T} (h : r.Bounded) (n : Nat) :
    (⟨r, n⟩ : AsyncQueue RingBuffer T).pop 1 0 predicate =
      some (r.q.reverse.filter predicate,
        ⟨⟨r.q.reverse.filter (fun x => !predicate x), r.maxSize⟩, n⟩) := by
  have hround := RingBuffer.popRound_zero predicate h n
  rw [pop, popWhile]
  split
  · rename_i hempty
    have hnil : r.q = [] := List.eq_nil_of_length_eq_zero hempty
    rw [hnil]
    show some ([], (⟨r, n⟩ : AsyncQueue RingBuffer T)) = some ([], ⟨⟨[], r.maxSize⟩, n⟩)
    rw [← hnil]
  · rw [hround]
    rfl

namespace Bounded

/-- An element with the number of the `emplace` that brought it, which tells equal ones apart. -/
structure Entry (T : Type) where
  serial : Nat
  item : T
  deriving DecidableEq, Repr

/-- The queue, what was emplaced, what each pop returned, and what was evicted from a queue of which
size. -/
structure History (T : Type) where
  queue : AsyncQueue RingBuffer (Entry T)
  emplaced : List (Entry T)
  popped : List (List (Entry T))
  evicted : List (Entry T × Nat)

/-- A queue of capacity `m`; `max_size_` of the `AsyncQueue` itself is 0, so that no one waits. -/
def History.init (T : Type) (m : Nat) : History T := ⟨⟨⟨[], m⟩, 0⟩, [], [], []⟩

inductive Op (T : Type)
  | emplace (t : T)
  | pop (predicate : Entry T → Bool)

def step {T : Type} (s : History T) : Op T → Option (History T)
  | .emplace t =>
    let e : Entry T := ⟨s.emplaced.length, t⟩
    (s.queue.emplace e).map fun q => { s with
      queue := q
      emplaced := s.emplaced ++ [e]
      evicted := s.evicted ++ s.queue.q.evicted.toList.map (·, QueueT.size s.queue.q) }
  | .pop predicate =>
    (s.queue.pop 1 0 predicate).map fun r => { s with
      queue := r.2
      popped := s.popped ++ [r.1] }

inductive Place
  | queue
  | popped (call : Nat)
  | evicted
  deriving DecidableEq, Repr

variable {T : Type} {s t : History T} {op : Op T} {ops : List (Op T)} {m : Nat}

/-- Every place of every element. -/
def History.ledger (s : History T) : List (Entry T × Place) :=
  s.queue.q.q.map (·, .queue) ++ s.popped.zipIdx.flatMap (fun r => r.1.map (·, .popped r.2)) ++
    s.evicted.map fun e => (e.1, .evicted)

/-- The places of the element with this number. -/
def History.places (s : History T) (n : Nat) : List Place :=
  (s.ledger.filter fun e => e.1.serial == n).map Prod.snd

theorem ledger_fst (s : History T) :
    s.ledger.map Prod.fst = s.queue.q.q ++ s.popped.flatten ++ s.evicted.map Prod.fst := by
  have hpopped : (s.popped.zipIdx.flatMap fun r => r.1.map fun x => (x, Place.popped r.2)).map
      Prod.fst = s.popped.flatten := by
    rw [List.map_flatMap]
    simp only [List.map_map]
    rw [List.flatMap_def]
    congr 1
    calc s.popped.zipIdx.map (fun r => r.1.map (Prod.fst ∘ fun x => (x, Place.popped r.2)))
      _ = s.popped.zipIdx.map Prod.fst := by
        apply List.map_congr_left
        intro r _
        exact List.map_id _
      _ = s.popped := List.zipIdx_map_fst ..
  unfold History.ledger
  rw [List.map_append, List.map_append, hpopped, List.map_map, List.map_map]
  congr 2
  exact List.map_id _

/-! ## The invariant -/

structure Wf (m : Nat) (s : History T) : Prop where
  capacity : s.queue.q.maxSize = m
  unbounded : s.queue.maxSize = 0
  bound : s.queue.q.q.length ≤ m
  ledger : (s.ledger.map Prod.fst).Perm s.emplaced
  numbered : s.emplaced.map Entry.serial = List.range s.emplaced.length
  evicted : ∀ e ∈ s.evicted, e.2 = m

theorem wf_init : Wf m (History.init T m) where
  capacity := rfl
  unbounded := rfl
  bound := Nat.zero_le m
  ledger := List.Perm.refl _
  numbered := rfl
  evicted _ h := by cases h

theorem Wf.bounded (h : Wf m s) : s.queue.q.Bounded := by
  have hbound := h.bound
  show s.queue.q.q.length ≤ max 1 s.queue.q.maxSize
  rw [h.capacity]
  omega

theorem Wf.emplace (h : Wf m s) (hm : 1 ≤ m) {x : T} (hstep : step s (.emplace x) = some t) :
    Wf m t := by
  have hfull : s.queue.full = false := by
    unfold full
    rw [h.unbounded]
    rfl
  have ht : t = ⟨⟨s.queue.q.emplace ⟨s.emplaced.length, x⟩, s.queue.maxSize⟩,
      s.emplaced ++ [⟨s.emplaced.length, x⟩], s.popped,
      s.evicted ++ s.queue.q.evicted.toList.map (·, s.queue.q.q.length)⟩ := by
    simp only [step, AsyncQueue.emplace, hfull] at hstep
    exact (Option.some.inj hstep).symm
  subst ht
  have hbound := h.bound
  have hcapacity := h.capacity
  refine ⟨?_, h.unbounded, ?_, ?_, ?_, ?_⟩
  · rw [← h.capacity]
    dsimp only
    unfold RingBuffer.emplace
    split <;> rfl
  · -- a full buffer gives up one element first
    dsimp only
    unfold RingBuffer.emplace
    split
    · rw [List.length_append, List.length_tail, List.length_singleton]
      omega
    · rw [List.length_append, List.length_singleton]
      omega
  · rw [ledger_fst]
    dsimp only
    rw [List.map_append, List.map_map]
    -- what was evicted moves from the queue to the end of the ledger
    have hmoved := RingBuffer.emplace_perm s.queue.q ⟨s.emplaced.length, x⟩
    have hold := h.ledger
    rw [ledger_fst] at hold
    have hevicted : s.queue.q.evicted.toList.map
        (Prod.fst ∘ fun x => (x, s.queue.q.q.length)) = s.queue.q.evicted.toList :=
      List.map_id _
    rw [hevicted]
    refine List.Perm.trans ?_ (hold.append_right [⟨s.emplaced.length, x⟩])
    classical
    rw [List.perm_iff_count]
    intro e
    have hcount := hmoved.count_eq e
    simp only [List.count_append] at hcount ⊢
    omega
  · dsimp only
    rw [List.map_append, h.numbered, List.length_append, List.length_singleton, List.range_succ]
    rfl
  · intro e he
    rcases List.mem_append.mp he with he | he
    · exact h.evicted e he
    · obtain ⟨y, hy, rfl⟩ := List.mem_map.mp he
      have hsome := Option.mem_toList.mp hy
      unfold RingBuffer.evicted at hsome
      split at hsome
      · dsimp only
        omega
      · cases hsome

/-- What `pop` does to a queue within its bound. -/
theorem Wf.pop_eq (h : Wf m s) (predicate : Entry T → Bool) :
    step s (.pop predicate) = some { s with
      queue := ⟨⟨s.queue.q.q.reverse.filter (fun x => !predicate x), s.queue.q.maxSize⟩,
        s.queue.maxSize⟩
      popped := s.popped ++ [s.queue.q.q.reverse.filter predicate] } := by
  have hpop := pop_zero predicate h.bounded s.queue.maxSize
  show (s.queue.pop 1 0 predicate).map _ = _
  rw [hpop]
  rfl

theorem Wf.pop (h : Wf m s) {predicate : Entry T → Bool}
    (hstep : step s (.pop predicate) = some t) : Wf m t := by
  rw [h.pop_eq predicate] at hstep
  obtain rfl := Option.some.inj hstep
  refine ⟨h.capacity, h.unbounded, ?_, ?_, h.numbered, h.evicted⟩
  · have hle := List.length_filter_le (fun x => !predicate x) s.queue.q.q.reverse
    rw [List.length_reverse] at hle
    exact Nat.le_trans hle h.bound
  · refine List.Perm.trans ?_ h.ledger
    rw [ledger_fst, ledger_fst]
    dsimp only
    rw [List.flatten_append, List.flatten_singleton]
    -- the queue is split between the result and what is put back
    have hsplit := (List.filter_append_perm predicate s.queue.q.q.reverse).trans
      (List.reverse_perm s.queue.q.q)
    classical
    rw [List.perm_iff_count]
    intro e
    have hcount := hsplit.count_eq e
    simp only [List.count_append] at hcount ⊢
    omega

theorem wf_step (hm : 1 ≤ m) (h : Wf m s) (hstep : step s op = some t) : Wf m t := by
  cases op with
  | emplace x => exact h.emplace hm hstep
  | pop predicate => exact h.pop hstep

theorem wf_run (hm : 1 ≤ m) (hrun : run step (History.init T m) ops = some s) : Wf m s :=
  run_invariant (fun _ _ _ h hstep => wf_step hm h hstep) wf_init hrun

/-- The numbers in the ledger are those that were given, each once. -/
theorem Wf.one_place (h : Wf m s) {n : Nat} (hn : n < s.emplaced.length) :
    ∃ place, s.places n = [place] := by
  have hserials : (s.ledger.map fun e => e.1.serial).Perm (List.range s.emplaced.length) := by
    have hmap := h.ledger.map Entry.serial
    rwa [h.numbered, List.map_map] at hmap
  have hone : (s.places n).length = 1 := by
    calc (s.places n).length
      _ = s.ledger.countP (fun e => e.1.serial == n) := by
        rw [History.places, List.length_map, List.countP_eq_length_filter]
      _ = (s.ledger.map fun e => e.1.serial).count n := by
        rw [List.count, List.countP_map]
        rfl
      _ = (List.range s.emplaced.length).count n := hserials.count_eq n
      _ = 1 := List.count_eq_one_of_mem List.nodup_range (List.mem_range.mpr hn)
  exact List.length_eq_one_iff.mp hone

/-- For every capacity and every sequence of `emplace` and `pop`: the queue stays within its bound,
every element that was emplaced is in one place, an eviction only happens to a full queue, and a pop
returns what satisfies its predicate and keeps the rest. -/
theorem bounded_queue_loses_nothing (hm : 1 ≤ m)
    (hrun : run step (History.init T m) ops = some s) :
    QueueT.size s.queue.q ≤ m ∧
    (s.ledger.map Prod.fst).Perm s.emplaced ∧
    (∀ n < s.emplaced.length, ∃ place, s.places n = [place]) ∧
    (∀ e ∈ s.evicted, e.2 = m) ∧
    ∀ predicate, ∃ t res, step s (.pop predicate) = some t ∧ t.popped = s.popped ++ [res] ∧
      res.Perm (s.queue.q.q.filter predicate) ∧
      t.queue.q.q.Perm (s.queue.q.q.filter fun x => !predicate x) ∧
      t.emplaced = s.emplaced ∧ t.evicted = s.evicted := by
  have h := wf_run hm hrun
  refine ⟨h.bound, h.ledger, fun n hn => h.one_place hn, h.evicted, fun predicate => ?_⟩
  refine ⟨_, _, h.pop_eq predicate, rfl, ?_, ?_, rfl, rfl⟩
  · exact (List.reverse_perm s.queue.q.q).filter predicate
  · exact (List.reverse_perm s.queue.q.q).filter fun x => !predicate x

/-- Three results for a queue of two, the first of them evicted and the second still pending at the
poll. -/
theorem three_in_two :
    ∃ s, run step (History.init Char 2)
        [.emplace 'a', .emplace 'b', .emplace 'c', .pop fun e => e.serial != 1] = some s ∧
      s.places 0 = [.evicted] ∧ s.places 1 = [.queue] ∧ s.places 2 = [.popped 0] ∧
      QueueT.size s.queue.q ≤ 2 := by
  have hrun : run step (History.init Char 2)
      [.emplace 'a', .emplace 'b', .emplace 'c', .pop fun e => e.serial != 1] =
      some ⟨⟨⟨[⟨1, 'b'⟩], 2⟩, 0⟩, [⟨0, 'a'⟩, ⟨1, 'b'⟩, ⟨2, 'c'⟩], [[⟨2, 'c'⟩]], [(⟨0, 'a'⟩, 2)]⟩ := by
    rfl
  exact ⟨_, hrun, by decide, by decide, by decide, (bounded_queue_loses_nothing (by decide) hrun).1⟩

end Bounded

end Ra2yrcpp.AsyncQueue
