import Ra2yrcpp.AsyncQueue.Pop
import Ra2yrcpp.Reasoning.Transition

/-!
# Blocked producers

`emplace` on a full bounded queue sleeps on the queue's condition variable until someone notifies it.
`pop` without a timeout notifies at the end of its loop, but not where it returns because the queue is
empty.  A call that asks for more than the queue holds takes everything in its first round and leaves
at the empty check of the second, and the producers sleep on beside an empty queue.
-/

open Ra2yrcpp.Reasoning

namespace Ra2yrcpp.AsyncQueue

open LawfulQueueT

variable {Q : Type → Type} [QueueT Q] {T : Type}

/-! ## The condition variable -/

/-- A queue and the `emplace` calls that wait for space: those asleep in `cv.wait`, and those that
were woken and have yet to get the mutex and test the condition again. -/
structure Monitor (Q : Type → Type) (T : Type) where
  queue : AsyncQueue Q T
  asleep : List T
  awake : List T

namespace Monitor

def notifyAll (m : Monitor Q T) : Monitor Q T :=
  { m with asleep := [], awake := m.awake ++ m.asleep }

/-- `emplace` with the mutex held: it sleeps, or puts the item in the queue and notifies. -/
def emplace (m : Monitor Q T) (t : T) : Monitor Q T :=
  match m.queue.emplace t with
  | none => { m with asleep := m.asleep ++ [t] }
  | some q => notifyAll { m with queue := q }

/-- A woken producer gets the mutex again. -/
def resume (m : Monitor Q T) (i : Nat) : Option (Monitor Q T) :=
  m.awake[i]?.map fun t => emplace { m with awake := m.awake.eraseIdx i } t

/-- `cv.wait` may wake up without a notification. -/
def wakeUp (m : Monitor Q T) (i : Nat) : Option (Monitor Q T) :=
  m.asleep[i]?.map fun t =>
    { m with asleep := m.asleep.eraseIdx i, awake := m.awake ++ [t] }

theorem resume_eq_some {m m' : Monitor Q T} {i : Nat} (h : m.resume i = some m') :
    ∃ t, m.awake[i]? = some t ∧ m' = emplace { m with awake := m.awake.eraseIdx i } t := by
  obtain ⟨t, ht, hm⟩ := Option.map_eq_some_iff.mp h
  exact ⟨t, ht, hm.symm⟩

theorem emplace_of_full {m : Monitor Q T} (h : m.queue.full = true) (t : T) :
    m.emplace t = { m with asleep := m.asleep ++ [t] } := by
  unfold emplace AsyncQueue.emplace
  rw [if_pos h]

theorem emplace_of_not_full {m : Monitor Q T} (h : m.queue.full = false) (t : T) :
    m.emplace t =
      notifyAll { m with queue := { m.queue with q := QueueT.emplace m.queue.q t } } := by
  unfold emplace AsyncQueue.emplace
  rw [if_neg (by rw [h]; decide)]

end Monitor

namespace WakeUp

/-- A consumer between two rounds of the loop of `pop`. -/
structure Consumer (T : Type) where
  count : Nat
  res : List T

/-- `consumer` is the one inside `pop`; it holds the mutex from the call to the return.  `notified`
says whether a notification was issued since there is free space in the queue. -/
structure State (Q : Type → Type) (T : Type) where
  monitor : Monitor Q T
  consumer : Option (Consumer T)
  notified : Bool

def State.init (q : AsyncQueue Q T) : State Q T := ⟨⟨q, [], []⟩, none, false⟩

inductive Action (T : Type)
  | emplace (t : T)
  | resume (i : Nat)
  | wakeUp (i : Nat)
  | pop (count : Nat)
  | round

/-- Someone who gets the mutex and tries to put an item in the queue. -/
def State.produce (s : State Q T) (m : Monitor Q T) : State Q T :=
  { s with monitor := m, notified := s.notified || !s.monitor.queue.full }

def step (s : State Q T) : Action T → Option (State Q T)
  | .emplace t => if s.consumer.isSome then none else some (s.produce (s.monitor.emplace t))
  | .resume i => if s.consumer.isSome then none else (s.monitor.resume i).map s.produce
  | .wakeUp i => (s.monitor.wakeUp i).map fun m => { s with monitor := m }
  | .pop count => if s.consumer.isSome then none else some { s with consumer := some ⟨count, []⟩ }
  | .round =>
    s.consumer.map fun c =>
      -- the return at `empty()`, without a notification
      if QueueT.size s.monitor.queue.q = 0 then { s with consumer := none }
      else
        let (res, q) := s.monitor.queue.popRound c.count (fun _ => true) c.res
        let m := { s.monitor with queue := q }
        if res.length < c.count then
          { monitor := m
            consumer := some ⟨c.count, res⟩
            notified := s.notified && (!s.monitor.queue.full || q.full) }
        else { monitor := m.notifyAll, consumer := none, notified := true }

/-- A producer sleeps beside free space, and no one is left who would wake it. -/
def Stuck (s : State Q T) : Prop :=
  s.consumer = none ∧ s.monitor.asleep ≠ [] ∧ s.monitor.queue.full = false ∧ s.notified = false

/-- No `pop` asks for more than the queue holds while a producer sleeps. -/
def CountFits (s : State Q T) : Action T → Prop
  | .pop count => s.monitor.asleep ≠ [] → count ≤ QueueT.size s.monitor.queue.q
  | _ => True

/-! ## The invariant -/

/-- Producers only sleep on a full queue, and a consumer that found them asleep takes what it came
for in one round. -/
def Watched (s : State Q T) : Prop :=
  s.monitor.asleep ≠ [] → s.monitor.queue.full = true ∧
    ∀ c, s.consumer = some c → c.res = [] ∧ c.count ≤ QueueT.size s.monitor.queue.q

variable {s t : State Q T} {a : Action T}

theorem size_pos_of_full {q : AsyncQueue Q T} (h : q.full = true) : 0 < QueueT.size q.q := by
  unfold full at h
  have h' := of_decide_eq_true h
  omega

theorem watched_produce {m : Monitor Q T} (hq : m.queue = s.monitor.queue)
    (hout : s.consumer = none) (x : T) : Watched (s.produce (m.emplace x)) := by
  cases hfull : s.monitor.queue.full with
  | true =>
    rw [Monitor.emplace_of_full (by rw [hq]; exact hfull)]
    intro _
    refine ⟨by rw [← hfull, ← hq]; rfl, fun c hc => ?_⟩
    rw [show (s.produce _).consumer = s.consumer from rfl, hout] at hc
    cases hc
  | false =>
    rw [Monitor.emplace_of_not_full (by rw [hq]; exact hfull)]
    intro hne
    exact absurd rfl hne

theorem Watched.wakeUp (h : Watched s) {m : Monitor Q T} {i : Nat}
    (hm : s.monitor.wakeUp i = some m) : Watched { s with monitor := m } := by
  unfold Monitor.wakeUp at hm
  obtain ⟨x, hx, rfl⟩ := Option.map_eq_some_iff.mp hm
  intro _
  have hne : s.monitor.asleep ≠ [] := by
    intro hnil
    rw [hnil] at hx
    cases hx
  exact h hne

theorem Watched.round [LawfulQueueT Q] (h : Watched s) (hstep : step s .round = some t) :
    Watched t := by
  simp only [step, Option.map_eq_some_iff] at hstep
  obtain ⟨c, hc, rfl⟩ := hstep
  split
  · -- the queue is empty, so that no one sleeps
    rename_i hempty
    intro hne
    have hpos := size_pos_of_full (h hne).1
    omega
  · split
    · rename_i hshort
      intro hne
      obtain ⟨hfull, hwant⟩ := h hne
      obtain ⟨hres, hcount⟩ := hwant c hc
      -- the first round brings the whole count
      exfalso
      rw [(popRound_all c.count s.monitor.queue c.res).1, hres, List.nil_append,
        List.length_take, numPop] at hshort
      rw [size_eq] at hcount
      split at hshort <;> omega
    · intro hne
      exact absurd rfl hne

theorem watched_step [LawfulQueueT Q] (h : Watched s) (hok : CountFits s a)
    (hstep : step s a = some t) : Watched t := by
  cases a with
  | emplace x =>
    simp only [step] at hstep
    split at hstep
    · cases hstep
    · rename_i hout
      obtain rfl := Option.some.inj hstep
      exact watched_produce rfl (by simpa using hout) x
  | resume i =>
    simp only [step] at hstep
    split at hstep
    · cases hstep
    · rename_i hout
      obtain ⟨m, hm, rfl⟩ := Option.map_eq_some_iff.mp hstep
      obtain ⟨x, -, rfl⟩ := Monitor.resume_eq_some hm
      apply watched_produce
      · rfl
      · simpa using hout
  | wakeUp i =>
    obtain ⟨m, hm, rfl⟩ := Option.map_eq_some_iff.mp hstep
    exact h.wakeUp hm
  | pop count =>
    simp only [step] at hstep
    split at hstep
    · cases hstep
    · obtain rfl := Option.some.inj hstep
      intro hne
      refine ⟨(h hne).1, fun c hc => ?_⟩
      obtain rfl := Option.some.inj hc
      exact ⟨rfl, hok hne⟩
  | round => exact h.round hstep

/-! ## When the producers are woken -/

/-- A `pop` that asks for more than a full queue holds leaves the producers asleep. -/
theorem pop_leaves_stuck [LawfulQueueT Q] (h : Watched s) (hout : s.consumer = none)
    (hasleep : s.monitor.asleep ≠ []) {count : Nat}
    (hcount : QueueT.size s.monitor.queue.q < count) :
    ∃ u, run step s [.pop count, .round, .round] = some u ∧ Stuck u := by
  obtain ⟨hfull, -⟩ := h hasleep
  have hpos := size_pos_of_full hfull
  obtain ⟨hres, hlist, hmax⟩ := popRound_all count s.monitor.queue []
  have hsize := size_eq s.monitor.queue.q
  -- the first round takes the whole queue
  have hall : s.monitor.queue.numPop count = (toList s.monitor.queue.q).length := by
    rw [numPop, if_neg (by omega)]
    omega
  rw [hall, List.take_length, List.nil_append] at hres
  rw [hall, List.drop_length] at hlist
  have hempty : QueueT.size (s.monitor.queue.popRound count (fun _ => true) []).2.q = 0 := by
    rw [size_eq, hlist]
    rfl
  have hfree : (s.monitor.queue.popRound count (fun _ => true) []).2.full = false := by
    have hbound := of_decide_eq_true hfull
    unfold full
    rw [hempty, hmax]
    exact decide_eq_false (by omega)
  have hround : step { s with consumer := some ⟨count, []⟩ } .round = some
      ⟨{ s.monitor with queue := (s.monitor.queue.popRound count (fun _ => true) []).2 },
        some ⟨count, toList s.monitor.queue.q⟩, false⟩ := by
    show some (if QueueT.size s.monitor.queue.q = 0 then _ else _) = _
    rw [if_neg (by omega)]
    dsimp only
    rw [hres, if_pos (by omega), hfull, hfree]
    simp
  refine ⟨⟨{ s.monitor with queue := (s.monitor.queue.popRound count (fun _ => true) []).2 },
    none, false⟩, ?_, rfl, hasleep, hfree, rfl⟩
  have hcall : step s (.pop count) = some { s with consumer := some ⟨count, []⟩ } := by
    simp only [step]
    rw [hout]
    rfl
  rw [run_cons, hcall, Option.bind_some, run_cons, hround, Option.bind_some, run_cons]
  simp only [step, Option.map_some]
  rw [if_pos hempty]
  rfl

/-- A queue for one item, and a consumer that asks for two. -/
theorem oversized_pop_stuck :
    ∃ s, run step (State.init (⟨⟨[]⟩, 1⟩ : AsyncQueue StdQueue Char))
        [.emplace 'a', .emplace 'b', .pop 2, .round, .round] = some s ∧
      Stuck s ∧ s.monitor = ⟨⟨⟨[]⟩, 1⟩, ['b'], []⟩ :=
  ⟨⟨⟨⟨⟨[]⟩, 1⟩, ['b'], []⟩, none, false⟩, rfl, ⟨rfl, by decide, by decide, rfl⟩, rfl⟩

/-- In every run in which no `pop` asks for more than the queue holds while a producer sleeps, no
producer is left asleep beside free space.  The first `pop` that does ask for more leaves it so. -/
theorem producers_woken [LawfulQueueT Q] {q : AsyncQueue Q T} {acts : List (Action T)}
    (hrun : run step (State.init q) acts = some s)
    (hok : Conforms step CountFits (State.init q) acts) :
    ¬ Stuck s ∧
    ∀ count, s.consumer = none → s.monitor.asleep ≠ [] →
      QueueT.size s.monitor.queue.q < count →
      ∃ u, run step s [.pop count, .round, .round] = some u ∧ Stuck u := by
  have hinit : Watched (State.init q) := fun hne => absurd rfl hne
  have h : Watched s := run_invariant_of_conforms
    (fun _ _ _ h hok hstep => watched_step h hok hstep) hinit hok hrun
  constructor
  · rintro ⟨-, hasleep, hfree, -⟩
    rw [(h hasleep).1] at hfree
    cases hfree
  · intro count hout hasleep hcount
    exact pop_leaves_stuck h hout hasleep hcount

/-- A consumer that takes one item makes room for the producer that waits. -/
theorem single_pop_wakes :
    ∃ s, run step (State.init (⟨⟨[]⟩, 1⟩ : AsyncQueue StdQueue Char))
        [.emplace 'a', .emplace 'b', .pop 1, .round] = some s ∧
      s.monitor = ⟨⟨⟨[]⟩, 1⟩, [], ['b']⟩ ∧ ¬ Stuck s := by
  have hrun : run step (State.init (⟨⟨[]⟩, 1⟩ : AsyncQueue StdQueue Char))
      [.emplace 'a', .emplace 'b', .pop 1, .round] =
      some ⟨⟨⟨⟨[]⟩, 1⟩, [], ['b']⟩, none, true⟩ := rfl
  have hok : Conforms step CountFits (State.init (⟨⟨[]⟩, 1⟩ : AsyncQueue StdQueue Char))
      [.emplace 'a', .emplace 'b', .pop 1, .round] := by
    refine ⟨trivial, fun t ht => ⟨trivial, fun u hu => ⟨?_, fun v _ => ⟨trivial, fun _ _ => trivial⟩⟩⟩⟩
    obtain rfl := Option.some.inj ht
    obtain rfl := Option.some.inj hu
    exact fun _ => Nat.le_refl 1
  exact ⟨_, hrun, rfl, (producers_woken hrun hok).1⟩

end WakeUp

end Ra2yrcpp.AsyncQueue
