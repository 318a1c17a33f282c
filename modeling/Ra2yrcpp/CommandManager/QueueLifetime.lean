import Mathlib.Logic.Function.Basic
import Ra2yrcpp.AsyncQueue
import Ra2yrcpp.Reasoning.Transition

/-!
# The queue under a poll

`flush_results` looks its queue up under the lock of the results map, releases the lock and pops,
which can wait.  What it has of the queue meanwhile is a reference to the map's `shared_ptr`, and
`DESTROY_QUEUE` takes that one away.  Results are of any type `C`.
-/

namespace Ra2yrcpp.CommandManager.QueueLifetime

open Reasoning

abbrev QueueId := Nat
abbrev QueuePtr := Nat

/-! ## Queues -/

variable {C : Type}

/-- A `result_q_t`: the ring buffer has the bound, the queue around it has none. -/
structure ResultQueue (C : Type) extends AsyncQueue RingBuffer C where
  unbounded : maxSize = 0

namespace ResultQueue

def create (maxSize : Nat) : ResultQueue C := ⟨⟨⟨[], maxSize⟩, 0⟩, rfl⟩

def emplace (r : ResultQueue C) (c : C) : ResultQueue C := { r with q := r.q.emplace c }

/-- An `emplace` does not wait. -/
theorem toAsyncQueue_emplace (r : ResultQueue C) (c : C) :
    r.toAsyncQueue.emplace c = some (r.emplace c).toAsyncQueue := by
  have hfull : r.full = false := by
    unfold AsyncQueue.full
    rw [r.unbounded]
    rfl
  unfold AsyncQueue.emplace
  rw [hfull]
  rfl

/-- The queue after a round of `pop`. -/
def popped (r : ResultQueue C) (count : Nat) (predicate : C → Bool) (res : List C) :
    ResultQueue C where
  toAsyncQueue := (r.popRound count predicate res).2
  unbounded := r.unbounded

end ResultQueue

/-! ## What a round gets -/

theorem mem_emplace {r : ResultQueue C} {c d : C} (h : d ∈ (r.emplace c).q.q) :
    d ∈ r.q.q ∨ d = c := RingBuffer.mem_emplace h

/-- Where the elements of a round come from. -/
theorem popLoop_subset {S : C → Prop} (predicate : C → Bool) (n : Nat) {q : RingBuffer C}
    {res predFalse : List C} (hq : ∀ c ∈ q.q, S c) (hres : ∀ c ∈ res, S c)
    (hfalse : ∀ c ∈ predFalse, S c) :
    (∀ c ∈ (AsyncQueue.popLoop predicate n q res predFalse).1.q, S c) ∧
      (∀ c ∈ (AsyncQueue.popLoop predicate n q res predFalse).2.1, S c) ∧
      ∀ c ∈ (AsyncQueue.popLoop predicate n q res predFalse).2.2, S c := by
  induction n generalizing q res predFalse with
  | zero => exact ⟨hq, hres, hfalse⟩
  | succ n ih =>
    unfold AsyncQueue.popLoop
    cases hfront : QueueT.front? q with
    | none => exact ⟨hq, hres, hfalse⟩
    | some p =>
      -- `front()` is the last of the vector
      have hp : S p := hq p (List.mem_of_getLast? hfront)
      have hpop : ∀ c ∈ (QueueT.pop q).q, S c := fun c hc => hq c (List.dropLast_subset _ hc)
      have hmore : ∀ {l : List C}, (∀ c ∈ l, S c) → ∀ c ∈ l ++ [p], S c := by
        intro l hl c hc
        cases List.mem_append.mp hc with
        | inl hold => exact hl c hold
        | inr hnew =>
          rw [List.mem_singleton.mp hnew]
          exact hp
      dsimp only
      split
      · exact ih hpop (hmore hres) hfalse
      · exact ih hpop hres (hmore hfalse)

theorem foldl_emplace_subset {S : C → Prop} {l : List C} {q : RingBuffer C} (hq : ∀ c ∈ q.q, S c)
    (hl : ∀ c ∈ l, S c) : ∀ c ∈ (l.foldl QueueT.emplace q).q, S c := by
  induction l generalizing q with
  | nil => exact hq
  | cons d l ih =>
    refine ih ?_ fun c hc => hl c (List.mem_cons_of_mem d hc)
    intro c hc
    cases RingBuffer.mem_emplace hc with
    | inl hold => exact hq c hold
    | inr hnew =>
      rw [hnew]
      exact hl d List.mem_cons_self

theorem popRound_subset {S : C → Prop} (count : Nat) (predicate : C → Bool) {r : ResultQueue C}
    {res : List C} (hq : ∀ c ∈ r.q.q, S c) (hres : ∀ c ∈ res, S c) :
    (∀ c ∈ (r.popRound count predicate res).1, S c) ∧
      ∀ c ∈ (r.popped count predicate res).q.q, S c := by
  have hnone : ∀ c ∈ ([] : List C), S c := nofun
  obtain ⟨hq', hres', hfalse'⟩ := popLoop_subset predicate
    (if count < 1 then QueueT.size r.q else min count (QueueT.size r.q)) hq hres hnone
  exact ⟨hres', foldl_emplace_subset hq' hfalse'⟩

/-! ## Polls -/

/-- How a poll gets at its queue. -/
inductive Pointer
  /-- The `shared_ptr` of the map's entry for this id. -/
  | reference (id : QueueId)
  /-- A `shared_ptr` of its own. -/
  | copy (q : QueuePtr)
  deriving DecidableEq, Repr

/-- A `flush_results` that has released the lock: it is about to call `pop`, or waits in it. -/
structure Flush (C : Type) where
  queue : QueuePtr
  pointer : Pointer
  count : Nat
  /-- What its rounds have got. -/
  res : List C
  waiting : Bool
  deriving DecidableEq, Repr

variable {Tid : Type} [DecidableEq Tid]

structure State (Tid C : Type) where
  queues : QueuePtr → ResultQueue C
  next : QueuePtr
  /-- `results_queue_`. -/
  results : QueueId → Option QueuePtr
  flush : Tid → Option (Flush C)
  -- history
  /-- What was stored in which queue. -/
  stored : List (QueuePtr × C)
  /-- What polls of which queue have returned. -/
  returned : List (QueuePtr × List C)

def State.init : State Tid C := ⟨fun _ => .create 0, 0, fun _ => none, fun _ => none, [], []⟩

inductive Action (Tid C : Type)
  | createQueue (id : QueueId) (maxSize : Nat)
  | destroyQueue (id : QueueId)
  | emplace (id : QueueId) (c : C)
  | lookup (t : Tid) (id : QueueId) (count : Nat)
  | wait (t : Tid)
  | pop (t : Tid) (predicate : C → Bool)
  | timeOut (t : Tid)

/-- The queue behind the pointer. -/
def State.deref (s : State Tid C) : Pointer → Option QueuePtr
  | .reference id => s.results id
  | .copy q => some q

/-- The poll of `t`, if its queue is still there.  What it would do on a destroyed queue is
undefined. -/
def State.using (s : State Tid C) (t : Tid) : Option (Flush C) :=
  (s.flush t).filter fun f => s.deref f.pointer = some f.queue

/-- A poll returns. -/
def State.finish (s : State Tid C) (t : Tid) (q : QueuePtr) (res : List C) : State Tid C :=
  { s with flush := Function.update s.flush t none, returned := s.returned ++ [(q, res)] }

def createQueue (s : State Tid C) (id : QueueId) (maxSize : Nat) : State Tid C :=
  if (s.results id).isSome then s
  else
    { s with
      queues := Function.update s.queues s.next (.create maxSize)
      next := s.next + 1
      results := Function.update s.results id (some s.next) }

/-- The end of `emplace_user_command`; without a queue the result is discarded. -/
def emplace (s : State Tid C) (id : QueueId) (c : C) : State Tid C :=
  match s.results id with
  | none => s
  | some q =>
    { s with
      queues := Function.update s.queues q ((s.queues q).emplace c)
      stored := s.stored ++ [(q, c)] }

/-- `flush_results` up to `l.unlock()`; for an unknown id it throws. -/
def lookup (s : State Tid C) (t : Tid) (id : QueueId) (count : Nat) : State Tid C :=
  match s.results id with
  | none => s
  -- `q` is a reference to the map's pointer
  | some q =>
    { s with flush := Function.update s.flush t (some ⟨q, .reference id, count, [], false⟩) }

/-- A round of `pop`; on an empty queue, or with enough results, it is the last. -/
def pop (s : State Tid C) (t : Tid) (f : Flush C) (predicate : C → Bool) : State Tid C :=
  let r := s.queues f.queue
  let res := (r.popRound f.count predicate f.res).1
  let s' := { s with
    queues := Function.update s.queues f.queue (r.popped f.count predicate f.res) }
  if r.q.q = [] ∨ f.count ≤ res.length then s'.finish t f.queue res
  else
    { s' with flush := Function.update s.flush t (some { f with res := res, waiting := false }) }

def step (s : State Tid C) : Action Tid C → Option (State Tid C)
  | .createQueue id maxSize => some (QueueLifetime.createQueue s id maxSize)
  | .destroyQueue id => some { s with results := Function.update s.results id none }
  | .emplace id c => some (QueueLifetime.emplace s id c)
  | .lookup t id count =>
    match s.flush t with
    | none => some (QueueLifetime.lookup s t id count)
    | some _ => none
  | .wait t =>
    match s.using t with
    | some f =>
      -- `wait_for` returns at once where there is something in the queue
      if f.waiting = false ∧ (s.queues f.queue).q.q = [] then
        some { s with flush := Function.update s.flush t (some { f with waiting := true }) }
      else none
    | none => none
  | .pop t predicate =>
    match s.using t with
    | some f =>
      if f.waiting = true ∧ (s.queues f.queue).q.q = [] then none
      else some (QueueLifetime.pop s t f predicate)
    | none => none
  | .timeOut t =>
    match s.using t with
    | some f =>
      if f.waiting = true ∧ (s.queues f.queue).q.q = [] then some (s.finish t f.queue f.res)
      else none
    | none => none

/-- Some `shared_ptr` owns the queue: the map's, or one that a poll has for itself. -/
def Owned (s : State Tid C) (q : QueuePtr) : Prop :=
  (∃ id, s.results id = some q) ∨ ∃ t f, s.flush t = some f ∧ f.pointer = .copy q

/-- Queues that polls use are owned, and what polls returned had been stored in their queue. -/
structure Outlives (s : State Tid C) : Prop where
  owned : ∀ t f, s.flush t = some f → Owned s f.queue
  stored : ∀ e ∈ s.returned, ∀ c ∈ e.2, (e.1, c) ∈ s.stored

/-- No poll that has looked the queue up and not returned yet uses a queue that is destroyed. -/
def NoPoll (s : State Tid C) : Action Tid C → Prop
  | .destroyQueue id => ∀ t f, s.flush t = some f → s.results id ≠ some f.queue
  | _ => True

structure Inv (s : State Tid C) : Prop where
  fresh : ∀ id q, s.results id = some q → q < s.next
  injective : ∀ id id' q, s.results id = some q → s.results id' = some q → id = id'
  flush : ∀ t f, s.flush t = some f → f.queue < s.next ∧ ∃ id, f.pointer = .reference id
  contents : ∀ q, q < s.next → ∀ c ∈ (s.queues q).q.q, (q, c) ∈ s.stored
  gathered : ∀ t f, s.flush t = some f → ∀ c ∈ f.res, (f.queue, c) ∈ s.stored
  returned : ∀ e ∈ s.returned, ∀ c ∈ e.2, (e.1, c) ∈ s.stored

/-! ## Steps -/

variable {s s' : State Tid C} {t : Tid} {f : Flush C} {q : QueuePtr} {id : QueueId}

omit [DecidableEq Tid] in
theorem flush_of_using (h : s.using t = some f) : s.flush t = some f :=
  (Option.filter_eq_some_iff.mp h).1

/-- What each action does, and where it is enabled. -/
theorem step_cases {a : Action Tid C} (h : step s a = some s') :
    (∃ id n, a = .createQueue id n ∧ s' = createQueue s id n) ∨
    (∃ id, a = .destroyQueue id ∧ s' = { s with results := Function.update s.results id none }) ∨
    (∃ id c, a = .emplace id c ∧ s' = emplace s id c) ∨
    (∃ t id n, a = .lookup t id n ∧ s' = lookup s t id n) ∨
    (∃ t f, a = .wait t ∧ s.flush t = some f ∧
      s' = { s with flush := Function.update s.flush t (some { f with waiting := true }) }) ∨
    (∃ t p f, a = .pop t p ∧ s.flush t = some f ∧ s' = pop s t f p) ∨
    ∃ t f, a = .timeOut t ∧ s.flush t = some f ∧ s' = s.finish t f.queue f.res := by
  cases a with
  | createQueue id n => exact .inl ⟨id, n, rfl, (Option.some.inj h).symm⟩
  | destroyQueue id => exact .inr (.inl ⟨id, rfl, (Option.some.inj h).symm⟩)
  | emplace id c => exact .inr (.inr (.inl ⟨id, c, rfl, (Option.some.inj h).symm⟩))
  | lookup t id n =>
    simp only [step] at h
    split at h
    · exact .inr (.inr (.inr (.inl ⟨t, id, n, rfl, (Option.some.inj h).symm⟩)))
    · cases h
  | wait t =>
    simp only [step] at h
    split at h
    · next f husing =>
      obtain ⟨-, hs'⟩ := Option.ite_none_right_eq_some.mp h
      exact .inr (.inr (.inr (.inr (.inl
        ⟨t, f, rfl, flush_of_using husing, (Option.some.inj hs').symm⟩))))
    · cases h
  | pop t p =>
    simp only [step] at h
    split at h
    · next f husing =>
      obtain ⟨-, hs'⟩ := Option.ite_none_left_eq_some.mp h
      exact .inr (.inr (.inr (.inr (.inr (.inl
        ⟨t, p, f, rfl, flush_of_using husing, (Option.some.inj hs').symm⟩)))))
    · cases h
  | timeOut t =>
    simp only [step] at h
    split at h
    · next f husing =>
      obtain ⟨-, hs'⟩ := Option.ite_none_right_eq_some.mp h
      exact .inr (.inr (.inr (.inr (.inr (.inr
        ⟨t, f, rfl, flush_of_using husing, (Option.some.inj hs').symm⟩)))))
    · cases h

omit [DecidableEq Tid] in
theorem createQueue_cases (s : State Tid C) (id : QueueId) (n : Nat) :
    createQueue s id n = s ∨ s.results id = none ∧ createQueue s id n =
      { s with
        queues := Function.update s.queues s.next (.create n)
        next := s.next + 1
        results := Function.update s.results id (some s.next) } := by
  unfold createQueue
  cases hid : s.results id with
  | none => exact .inr ⟨rfl, rfl⟩
  | some q => exact .inl rfl

omit [DecidableEq Tid] in
theorem emplace_cases (s : State Tid C) (id : QueueId) (c : C) :
    emplace s id c = s ∨ ∃ q, s.results id = some q ∧ emplace s id c =
      { s with
        queues := Function.update s.queues q ((s.queues q).emplace c)
        stored := s.stored ++ [(q, c)] } := by
  unfold emplace
  cases hid : s.results id with
  | none => exact .inl rfl
  | some q => exact .inr ⟨q, rfl, rfl⟩

theorem lookup_cases (s : State Tid C) (t : Tid) (id : QueueId) (n : Nat) :
    lookup s t id n = s ∨ ∃ q, s.results id = some q ∧ lookup s t id n =
      { s with flush := Function.update s.flush t (some ⟨q, .reference id, n, [], false⟩) } := by
  unfold lookup
  cases hid : s.results id with
  | none => exact .inl rfl
  | some q => exact .inr ⟨q, rfl, rfl⟩

/-! ## Pointers -/

theorem flush_update {g : Option (Flush C)} {P : Flush C → Prop} (h : ∀ t f, s.flush t = some f → P f)
    (hg : ∀ f, g = some f → P f) (t' : Tid) (f : Flush C)
    (hf : Function.update s.flush t g t' = some f) : P f := by
  by_cases ht : t' = t
  · rw [ht, Function.update_self] at hf
    exact hg f hf
  · rw [Function.update_of_ne ht] at hf
    exact h t' f hf

omit [DecidableEq Tid] in
theorem Inv.createQueue (h : Inv s) (id : QueueId) (n : Nat) :
    Inv { s with
      queues := Function.update s.queues s.next (.create n)
      next := s.next + 1
      results := Function.update s.results id (some s.next) } where
  fresh := by
    intro id' q hq
    by_cases hsame : id' = id
    · rw [hsame] at hq
      have hnew : s.next = q := by simpa using hq
      rw [← hnew]
      exact Nat.lt_succ_self s.next
    · have hold : s.results id' = some q := by simpa [hsame] using hq
      exact Nat.lt_succ_of_lt (h.fresh id' q hold)
  injective := by
    intro id₁ id₂ q h₁ h₂
    by_cases e₁ : id₁ = id
    · by_cases e₂ : id₂ = id
      · rw [e₁, e₂]
      · have hnew : s.next = q := by simpa [e₁] using h₁
        have hold : s.results id₂ = some q := by simpa [e₂] using h₂
        have hlt := h.fresh id₂ q hold
        rw [hnew] at hlt
        exact absurd hlt (Nat.lt_irrefl q)
    · have hold : s.results id₁ = some q := by simpa [e₁] using h₁
      by_cases e₂ : id₂ = id
      · have hnew : s.next = q := by simpa [e₂] using h₂
        have hlt := h.fresh id₁ q hold
        rw [hnew] at hlt
        exact absurd hlt (Nat.lt_irrefl q)
      · have hold' : s.results id₂ = some q := by simpa [e₂] using h₂
        exact h.injective id₁ id₂ q hold hold'
  flush := by
    intro t f hf
    obtain ⟨hlt, hpointer⟩ := h.flush t f hf
    exact ⟨Nat.lt_succ_of_lt hlt, hpointer⟩
  contents := by
    intro q hq c hc
    -- the new queue is empty
    by_cases hnew : q = s.next
    · simp [hnew, ResultQueue.create] at hc
    · have hold : q < s.next := Nat.lt_of_le_of_ne (Nat.le_of_lt_succ hq) hnew
      have hmem : c ∈ (s.queues q).q.q := by simpa [hnew] using hc
      exact h.contents q hold c hmem
  gathered := h.gathered
  returned := h.returned

omit [DecidableEq Tid] in
theorem Inv.destroyQueue (h : Inv s) (id : QueueId) :
    Inv { s with results := Function.update s.results id none } := by
  have hold : ∀ id' q, Function.update s.results id none id' = some q → s.results id' = some q := by
    intro id' q hq
    by_cases hsame : id' = id
    · rw [hsame, Function.update_self] at hq
      cases hq
    · rwa [Function.update_of_ne hsame] at hq
  constructor
  · intro id' q hq
    exact h.fresh id' q (hold id' q hq)
  · intro id₁ id₂ q h₁ h₂
    exact h.injective id₁ id₂ q (hold id₁ q h₁) (hold id₂ q h₂)
  · exact h.flush
  · exact h.contents
  · exact h.gathered
  · exact h.returned

omit [DecidableEq Tid] in
theorem Inv.emplace (h : Inv s) (q : QueuePtr) (c : C) :
    Inv { s with
      queues := Function.update s.queues q ((s.queues q).emplace c)
      stored := s.stored ++ [(q, c)] } where
  fresh := h.fresh
  injective := h.injective
  flush := h.flush
  contents := by
    intro q' hq' d hd
    by_cases hsame : q' = q
    · rw [hsame]
      rw [hsame] at hq'
      have hd' : d ∈ ((s.queues q).emplace c).q.q := by simpa [hsame] using hd
      cases mem_emplace hd' with
      | inl hold => exact List.mem_append_left _ (h.contents q hq' d hold)
      | inr hnew =>
        rw [hnew]
        exact List.mem_append_right _ (List.mem_singleton.mpr rfl)
    · have hd' : d ∈ (s.queues q').q.q := by simpa [hsame] using hd
      exact List.mem_append_left _ (h.contents q' hq' d hd')
  gathered := by
    intro t f hf d hd
    exact List.mem_append_left _ (h.gathered t f hf d hd)
  returned := by
    intro e he d hd
    exact List.mem_append_left _ (h.returned e he d hd)

/-- A poll of a queue of the map begins, or goes on. -/
theorem Inv.poll (h : Inv s) (t : Tid) (f : Flush C) (hlt : f.queue < s.next)
    (hpointer : ∃ id, f.pointer = .reference id) (hres : ∀ c ∈ f.res, (f.queue, c) ∈ s.stored) :
    Inv { s with flush := Function.update s.flush t (some f) } where
  fresh := h.fresh
  injective := h.injective
  flush := by
    apply flush_update h.flush
    intro f' hf
    rw [← Option.some.inj hf]
    exact ⟨hlt, hpointer⟩
  contents := h.contents
  gathered := by
    apply flush_update h.gathered
    intro f' hf
    rw [← Option.some.inj hf]
    exact hres
  returned := h.returned

/-- A poll returns what came from its queue. -/
theorem Inv.finish (h : Inv s) (t : Tid) {res : List C} (hres : ∀ c ∈ res, (q, c) ∈ s.stored) :
    Inv (s.finish t q res) where
  fresh := h.fresh
  injective := h.injective
  flush := by
    apply flush_update h.flush
    nofun
  contents := h.contents
  gathered := by
    apply flush_update h.gathered
    nofun
  returned := by
    intro e he c hc
    cases List.mem_append.mp he with
    | inl hold => exact h.returned e hold c hc
    | inr hnew =>
      rw [List.mem_singleton.mp hnew] at hc ⊢
      exact hres c hc

omit [DecidableEq Tid] in
/-- A queue loses elements. -/
theorem Inv.shrink (h : Inv s) (q : QueuePtr) {r : ResultQueue C}
    (hr : q < s.next → ∀ c ∈ r.q.q, (q, c) ∈ s.stored) :
    Inv { s with queues := Function.update s.queues q r } where
  fresh := h.fresh
  injective := h.injective
  flush := h.flush
  contents := by
    intro q' hq' d hd
    by_cases hsame : q' = q
    · rw [hsame] at hq' ⊢
      have hd' : d ∈ r.q.q := by simpa [hsame] using hd
      exact hr hq' d hd'
    · have hd' : d ∈ (s.queues q').q.q := by simpa [hsame] using hd
      exact h.contents q' hq' d hd'
  gathered := h.gathered
  returned := h.returned

theorem Inv.pop (h : Inv s) (hf : s.flush t = some f) (p : C → Bool) : Inv (pop s t f p) := by
  obtain ⟨hlt, hpointer⟩ := h.flush t f hf
  obtain ⟨hres, hrest⟩ := popRound_subset f.count p (h.contents f.queue hlt) (h.gathered t f hf)
  have hshrink := h.shrink f.queue fun _ => hrest
  unfold QueueLifetime.pop
  dsimp only
  split
  · exact hshrink.finish t hres
  · exact hshrink.poll t { f with res := _, waiting := false } hlt hpointer hres

theorem inv_step {a : Action Tid C} (h : Inv s) (hstep : step s a = some s') : Inv s' := by
  rcases step_cases hstep with ⟨id, n, -, rfl⟩ | ⟨id, -, rfl⟩ | ⟨id, c, -, rfl⟩ | ⟨t, id, n, -, rfl⟩ |
    ⟨t, f, -, hf, rfl⟩ | ⟨t, p, f, -, hf, rfl⟩ | ⟨t, f, -, hf, rfl⟩
  · rcases createQueue_cases s id n with heq | ⟨-, heq⟩
    · rwa [heq]
    · rw [heq]
      exact h.createQueue id n
  · exact h.destroyQueue id
  · rcases emplace_cases s id c with heq | ⟨q, -, heq⟩
    · rwa [heq]
    · rw [heq]
      exact h.emplace q c
  · rcases lookup_cases s t id n with heq | ⟨q, hq, heq⟩
    · rwa [heq]
    · rw [heq]
      exact h.poll t ⟨q, .reference id, n, [], false⟩ (h.fresh id q hq) ⟨id, rfl⟩ nofun
  · obtain ⟨hlt, hpointer⟩ := h.flush t f hf
    exact h.poll t { f with waiting := true } hlt hpointer (h.gathered t f hf)
  · exact h.pop hf p
  · exact h.finish t (h.gathered t f hf)

/-! ## The owner -/

omit [DecidableEq Tid] in
/-- The polls have no pointer of their own. -/
theorem Inv.owned_iff (h : Inv s) (q : QueuePtr) : Owned s q ↔ ∃ id, s.results id = some q := by
  constructor
  · intro howned
    cases howned with
    | inl hmap => exact hmap
    | inr hcopy =>
      obtain ⟨t, f, hf, hpointer⟩ := hcopy
      obtain ⟨-, id, href⟩ := h.flush t f hf
      rw [hpointer] at href
      cases href
  · exact .inl

omit [DecidableEq Tid] in
/-- Where polls start on queues of the map only and the map keeps its queues, they stay owned. -/
theorem Inv.outlives (h : Inv s') (hlive : Outlives s)
    (hkept : ∀ id q, s.results id = some q → ∃ id', s'.results id' = some q) (hs : Inv s)
    (hpolls : ∀ t f, s'.flush t = some f →
      (∃ id, s'.results id = some f.queue) ∨ ∃ t f', s.flush t = some f' ∧ f'.queue = f.queue) :
    Outlives s' where
  owned := by
    intro t f hf
    rcases hpolls t f hf with hmap | ⟨t', f', hf', hqueue⟩
    · exact .inl hmap
    · obtain ⟨id, hid⟩ := (hs.owned_iff f'.queue).mp (hlive.owned t' f' hf')
      rw [hqueue] at hid
      exact .inl (hkept id f.queue hid)
  stored := h.returned

omit [DecidableEq Tid] in
theorem outlives_destroyQueue_iff (h : Inv s) (hlive : Outlives s) (id : QueueId) :
    Outlives { s with results := Function.update s.results id none } ↔
      NoPoll s (.destroyQueue id) := by
  constructor
  · intro hout t f hf hid
    obtain ⟨id', hid'⟩ := ((h.destroyQueue id).owned_iff f.queue).mp (hout.owned t f hf)
    -- another entry would have to own the queue, and each queue has one
    by_cases hsame : id' = id
    · simp [hsame] at hid'
    · have hold : s.results id' = some f.queue := by simpa [hsame] using hid'
      exact hsame (h.injective id' id f.queue hold hid)
  · intro hpoll
    constructor
    · intro t f hf
      obtain ⟨id', hid'⟩ := (h.owned_iff f.queue).mp (hlive.owned t f hf)
      have hother : id' ≠ id := by
        intro hsame
        rw [hsame] at hid'
        exact hpoll t f hf hid'
      refine .inl ⟨id', ?_⟩
      show Function.update s.results id none id' = some f.queue
      rw [Function.update_of_ne hother, hid']
    · exact h.returned

theorem outlives_step_iff {a : Action Tid C} (h : Inv s) (hlive : Outlives s)
    (hstep : step s a = some s') : Outlives s' ↔ NoPoll s a := by
  have hinv := inv_step h hstep
  have hsame : ∀ id q, s.results id = some q → ∃ id', s.results id' = some q :=
    fun id q hq => ⟨id, hq⟩
  have hstays : ∀ t f, s.flush t = some f →
      (∃ id, s.results id = some f.queue) ∨ ∃ t f', s.flush t = some f' ∧ f'.queue = f.queue :=
    fun t f hf => .inr ⟨t, f, hf, rfl⟩
  rcases step_cases hstep with ⟨id, n, rfl, rfl⟩ | ⟨id, rfl, rfl⟩ | ⟨id, c, rfl, rfl⟩ |
    ⟨t, id, n, rfl, rfl⟩ | ⟨t, f, rfl, hf, rfl⟩ | ⟨t, p, f, rfl, hf, rfl⟩ | ⟨t, f, rfl, hf, rfl⟩
  · refine iff_of_true ?_ trivial
    rcases createQueue_cases s id n with heq | ⟨hid, heq⟩
    · rwa [heq]
    · rw [heq] at hinv ⊢
      apply hinv.outlives hlive _ h
      · intro t f hf
        exact .inr ⟨t, f, hf, rfl⟩
      · intro id' q hq
        refine ⟨id', ?_⟩
        show Function.update s.results id (some s.next) id' = some q
        rw [Function.update_of_ne, hq]
        -- the new entry replaces none
        intro hsame
        rw [hsame, hid] at hq
        cases hq
  · exact outlives_destroyQueue_iff h hlive id
  · refine iff_of_true ?_ trivial
    rcases emplace_cases s id c with heq | ⟨q, -, heq⟩
    · rwa [heq]
    · rw [heq] at hinv ⊢
      exact hinv.outlives hlive hsame h hstays
  · refine iff_of_true ?_ trivial
    rcases lookup_cases s t id n with heq | ⟨q, hq, heq⟩
    · rwa [heq]
    · rw [heq] at hinv ⊢
      apply hinv.outlives hlive hsame h
      apply flush_update hstays
      intro f hf
      rw [← Option.some.inj hf]
      exact .inl ⟨id, hq⟩
  · refine iff_of_true ?_ trivial
    apply hinv.outlives hlive hsame h
    apply flush_update hstays
    intro f' hf'
    rw [← Option.some.inj hf']
    exact .inr ⟨t, f, hf, rfl⟩
  · refine iff_of_true ?_ trivial
    -- the last round ends the poll, the others keep its queue
    unfold QueueLifetime.pop at hinv ⊢
    dsimp only at hinv ⊢
    split at hinv
    · rw [if_pos ‹_›]
      apply hinv.outlives hlive hsame h
      apply flush_update hstays
      nofun
    · rw [if_neg ‹_›]
      apply hinv.outlives hlive hsame h
      apply flush_update hstays
      intro f' hf'
      rw [← Option.some.inj hf']
      exact .inr ⟨t, f, hf, rfl⟩
  · refine iff_of_true ?_ trivial
    apply hinv.outlives hlive hsame h
    apply flush_update hstays
    nofun

omit [DecidableEq Tid] in
theorem inv_init : Inv (State.init : State Tid C) where
  fresh _ _ h := nomatch h
  injective _ _ _ h := nomatch h
  flush _ _ h := nomatch h
  contents _ h := absurd h (Nat.not_lt_zero _)
  gathered _ _ h := nomatch h
  returned _ h := nomatch h

omit [DecidableEq Tid] in
theorem outlives_init : Outlives (State.init : State Tid C) where
  owned _ _ h := nomatch h
  stored := inv_init.returned

/-- In a run of any polls with queues created and destroyed, a queue outlives the polls that use it
and they return what was stored in it, exactly when no queue is destroyed between the lookup of a
poll and its return. -/
theorem always_outlives_iff {acts : List (Action Tid C)}
    (hrun : run step State.init acts = some s) :
    Always step Outlives State.init acts ↔ Conforms step NoPoll State.init acts := by
  have hinv : ∀ (s : State Tid C) a s', Inv s → step s a = some s' → Inv s' :=
    fun _ _ _ h hstep => inv_step h hstep
  have hiff : ∀ (s : State Tid C) a s', Inv s → Outlives s → step s a = some s' →
      (Outlives s' ↔ NoPoll s a) :=
    fun _ _ _ h hlive hstep => outlives_step_iff h hlive hstep
  exact always_iff_conforms hinv hiff inv_init outlives_init hrun

/-- A poll (0) takes what came, the queue is destroyed, and its id gets another one. -/
def pollThenDestroy : List (Action Nat Nat) :=
  [.createQueue 1 8, .lookup 0 1 0, .wait 0, .emplace 1 5, .pop 0 (fun _ => true), .destroyQueue 1,
    .createQueue 1 8]

theorem pollThenDestroy_outlives :
    ∃ s, run step State.init pollThenDestroy = some s ∧ s.returned = [(0, [5])] ∧
      (Always step Outlives State.init pollThenDestroy ↔
        Conforms step NoPoll State.init pollThenDestroy) :=
  ⟨_, rfl, rfl, always_outlives_iff rfl⟩

/-- The poll waits, the queue is destroyed, and its id gets another one: nothing owns the queue in
which the poll waits. -/
theorem destroyed_under_poll :
    ∃ s : State (Fin 1) Nat, run step State.init
        [.createQueue 1 8, .lookup 0 1 0, .wait 0, .destroyQueue 1, .createQueue 1 8] = some s ∧
      s.flush 0 = some ⟨0, .reference 1, 0, [], true⟩ ∧ s.results 1 = some 1 ∧ ¬Outlives s := by
  refine ⟨_, rfl, rfl, rfl, ?_⟩
  intro h
  cases h.owned 0 _ rfl with
  | inl hmap =>
    obtain ⟨id, hid⟩ := hmap
    change Function.update (Function.update (Function.update (fun _ => none) 1 (some 0)) 1 none) 1
      (some 1) id = some 0 at hid
    by_cases h1 : id = 1
    · rw [h1, Function.update_self] at hid
      cases hid
    · rw [Function.update_of_ne h1, Function.update_of_ne h1, Function.update_of_ne h1] at hid
      cases hid
  | inr hcopy =>
    obtain ⟨t, f, hf, hpointer⟩ := hcopy
    rw [Subsingleton.elim t 0] at hf
    cases hf
    cases hpointer

end Ra2yrcpp.CommandManager.QueueLifetime
