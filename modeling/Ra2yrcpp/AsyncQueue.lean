import Mathlib.Data.List.Induction

/-!
# `RingBuffer` and `AsyncQueue`

`ring_buffer.hpp` and the queue operations of `async_queue.hpp`.  An operation here is what the code
does between taking and releasing the queue's mutex; where the code would block on the condition
variable the operation is `none`.
-/

namespace Ra2yrcpp

/-- What `AsyncQueue` uses of its container `QueueT`.  `front` and `pop` are undefined on an empty
container, hence `front?`. -/
class QueueT (Q : Type → Type) where
  size : {T : Type} → Q T → Nat
  front? : {T : Type} → Q T → Option T
  pop : {T : Type} → Q T → Q T
  emplace : {T : Type} → Q T → T → Q T

/-- `std::queue`. -/
structure StdQueue (T : Type) where
  q : List T
  deriving DecidableEq, Repr

instance : QueueT StdQueue where
  size a := a.q.length
  front? a := a.q.head?
  pop a := ⟨a.q.tail⟩
  emplace a t := ⟨a.q ++ [t]⟩

/-- `RingBuffer`: `q_` in vector order, so `front()` is the last element of the list and eviction
takes the first. -/
structure RingBuffer (T : Type) where
  q : List T
  maxSize : Nat
  deriving DecidableEq, Repr

namespace RingBuffer

variable {T : Type}

/-- The element that `emplace` erases to make room. -/
def evicted (r : RingBuffer T) : Option T :=
  if r.maxSize ≤ r.q.length then r.q.head? else none

def emplace (r : RingBuffer T) (t : T) : RingBuffer T :=
  if r.maxSize ≤ r.q.length then { r with q := r.q.tail ++ [t] } else { r with q := r.q ++ [t] }

end RingBuffer

instance : QueueT RingBuffer where
  size r := r.q.length
  front? r := r.q.getLast?
  pop r := { r with q := r.q.dropLast }
  emplace := RingBuffer.emplace

/-- `AsyncQueue<T, QueueT>`.  `maxSize = 0` is the unbounded queue. -/
structure AsyncQueue (Q : Type → Type) (T : Type) where
  q : Q T
  maxSize : Nat

namespace AsyncQueue

variable {Q : Type → Type} [QueueT Q] {T : Type}

/-- The wait condition of `emplace`. -/
def full (a : AsyncQueue Q T) : Bool :=
  decide (0 < a.maxSize ∧ a.maxSize < QueueT.size a.q + 1)

/-- `none` while the producer sleeps on a full queue. -/
def emplace (a : AsyncQueue Q T) (t : T) : Option (AsyncQueue Q T) :=
  if a.full then none else some { a with q := QueueT.emplace a.q t }

/-- The inner `while (num_pop-- > 0)` of `pop`. -/
def popLoop (predicate : T → Bool) : Nat → Q T → List T → List T → Q T × List T × List T
  | 0, q, res, predFalse => (q, res, predFalse)
  | n + 1, q, res, predFalse =>
    match QueueT.front? q with
    | none => (q, res, predFalse)
    | some p =>
      if predicate p then popLoop predicate n (QueueT.pop q) (res ++ [p]) predFalse
      else popLoop predicate n (QueueT.pop q) res (predFalse ++ [p])

/-- One round of the `do … while (res.size() < count)` of `pop`: the results so far and the queue,
with the rejected elements put back.  With `count = 0` it is the only round. -/
def popRound (count : Nat) (predicate : T → Bool) (a : AsyncQueue Q T) (res : List T) :
    List T × AsyncQueue Q T :=
  let numPop := if count < 1 then QueueT.size a.q else min count (QueueT.size a.q)
  let (q, res', predFalse) := popLoop predicate numPop a.q res []
  (res', { a with q := predFalse.foldl QueueT.emplace q })

/-- The `do … while` itself, with timeout 0: a round on an empty queue returns.  The first argument
bounds the number of rounds; the answer is `none` when they are not enough. -/
def popWhile (count : Nat) (predicate : T → Bool) :
    Nat → AsyncQueue Q T → List T → Option (List T × AsyncQueue Q T)
  | 0, _, _ => none
  | fuel + 1, a, res =>
    if QueueT.size a.q = 0 then some (res, a)
    else
      let (res', a') := a.popRound count predicate res
      if res'.length < count then popWhile count predicate fuel a' res' else some (res', a')

/-- `pop(count, 0.0s, predicate)`. -/
def pop (fuel count : Nat) (predicate : T → Bool) (a : AsyncQueue Q T) :
    Option (List T × AsyncQueue Q T) :=
  popWhile count predicate fuel a []

end AsyncQueue

/-! ## `std::queue` -/

theorem AsyncQueue.popRound_one_cons {T : Type} (x : T) (xs : List T) (m : Nat) :
    AsyncQueue.popRound 1 (fun _ => true) (⟨⟨x :: xs⟩, m⟩ : AsyncQueue StdQueue T) [] =
      ([x], ⟨⟨xs⟩, m⟩) := by
  simp [AsyncQueue.popRound, AsyncQueue.popLoop, QueueT.size, QueueT.front?, QueueT.pop]

theorem AsyncQueue.stdQueue_emplace_eq_some {T : Type} {a b : AsyncQueue StdQueue T} {t : T} :
    a.emplace t = some b ↔ a.full = false ∧ b = ⟨⟨a.q.q ++ [t]⟩, a.maxSize⟩ := by
  unfold AsyncQueue.emplace
  cases a.full with
  | true => simp
  | false =>
    simp only [Bool.false_eq_true, if_false, Option.some.injEq, true_and]
    exact eq_comm

theorem AsyncQueue.popLoop_stdQueue {T : Type} (l res : List T) :
    AsyncQueue.popLoop (fun _ => true) l.length (⟨l⟩ : StdQueue T) res [] = (⟨[]⟩, res ++ l, []) := by
  induction l generalizing res with
  | nil => simp [AsyncQueue.popLoop]
  | cons x xs ih =>
    have hfront : QueueT.front? (⟨x :: xs⟩ : StdQueue T) = some x := rfl
    have hpop : QueueT.pop (⟨x :: xs⟩ : StdQueue T) = ⟨xs⟩ := rfl
    rw [List.length_cons, AsyncQueue.popLoop, hfront]
    simp only [if_true]
    rw [hpop, ih, List.append_assoc, List.singleton_append]

/-- `pop(0)` without a predicate empties the queue. -/
theorem AsyncQueue.popRound_stdQueue {T : Type} (a : AsyncQueue StdQueue T) :
    a.popRound 0 (fun _ => true) [] = (a.q.q, ⟨⟨[]⟩, a.maxSize⟩) := by
  have hsize : QueueT.size a.q = a.q.q.length := rfl
  have hloop := AsyncQueue.popLoop_stdQueue a.q.q []
  unfold AsyncQueue.popRound
  rw [if_pos (by omega), hsize]
  change (let (q, res', predFalse) := AsyncQueue.popLoop _ a.q.q.length (⟨a.q.q⟩ : StdQueue T) [] []
    (res', ({ q := predFalse.foldl QueueT.emplace q, maxSize := a.maxSize } :
      AsyncQueue StdQueue T))) = _
  rw [hloop]
  rfl

/-! ## `RingBuffer` -/

namespace RingBuffer

variable {T : Type}

/-- Within its bound a buffer takes an element without losing one. -/
theorem emplace_of_lt {r : RingBuffer T} (h : r.q.length < r.maxSize) (t : T) :
    r.emplace t = ⟨r.q ++ [t], r.maxSize⟩ := by
  unfold emplace
  rw [if_neg (by omega)]

/-- What a buffer holds after `emplace` and what it evicted are what it held and the new element. -/
theorem emplace_perm (r : RingBuffer T) (t : T) :
    ((r.emplace t).q ++ r.evicted.toList).Perm (r.q ++ [t]) := by
  unfold emplace evicted
  split
  · cases hq : r.q with
    | nil => simp
    | cons x xs =>
      simp only [List.tail_cons, List.head?_cons, Option.toList_some, List.cons_append]
      exact List.perm_append_singleton x (xs ++ [t])
  · simp

theorem mem_emplace {r : RingBuffer T} {t x : T} (h : x ∈ (r.emplace t).q) : x ∈ r.q ∨ x = t := by
  have hperm := (emplace_perm r t).mem_iff (a := x)
  simp only [List.mem_append, List.mem_singleton] at hperm
  exact hperm.mp (Or.inl h)

theorem mem_emplace_self (r : RingBuffer T) (t : T) : t ∈ (r.emplace t).q := by
  unfold emplace
  split <;> exact List.mem_append_right _ List.mem_cons_self

theorem mem_emplace_of_mem {r : RingBuffer T} {x : T} (h : x ∈ r.q) (hkept : r.evicted ≠ some x)
    (t : T) : x ∈ (r.emplace t).q := by
  have hmem := (emplace_perm r t).mem_iff.mpr (List.mem_append_left _ h)
  rcases List.mem_append.mp hmem with hmem | hmem
  · exact hmem
  · exact absurd (Option.mem_toList.mp hmem) hkept

/-- The bound every buffer keeps.  A buffer made with bound 0 still holds one element. -/
def Bounded (r : RingBuffer T) : Prop := r.q.length ≤ max 1 r.maxSize

theorem Bounded.emplace {r : RingBuffer T} (h : r.Bounded) (t : T) : (r.emplace t).Bounded := by
  unfold Bounded at *
  unfold RingBuffer.emplace
  split
  · simp only [List.length_append, List.length_tail, List.length_singleton]
    omega
  · simp only [List.length_append, List.length_singleton]
    omega

/-- Putting back at most as many elements as fit loses none. -/
theorem foldl_emplace_eq {l acc : List T} {m : Nat} (h : (acc ++ l).length ≤ max 1 m) :
    l.foldl QueueT.emplace (⟨acc, m⟩ : RingBuffer T) = ⟨acc ++ l, m⟩ := by
  induction l generalizing acc with
  | nil => simp
  | cons x l ih =>
    -- a full buffer is met with bound 0 and no element, where nothing is lost either
    have hx : RingBuffer.emplace (⟨acc, m⟩ : RingBuffer T) x = ⟨acc ++ [x], m⟩ := by
      simp only [List.length_append, List.length_cons] at h
      cases acc with
      | nil =>
        unfold RingBuffer.emplace
        split <;> rfl
      | cons y acc =>
        simp only [List.length_cons] at h
        exact emplace_of_lt (by simp only [List.length_cons]; omega) x
    rw [List.foldl_cons]
    change List.foldl QueueT.emplace (RingBuffer.emplace ⟨acc, m⟩ x) l = _
    rw [hx, ih (by simpa using h)]
    simp

/-- The inner loop takes the whole buffer out from the back, split by the predicate. -/
theorem popLoop_eq (predicate : T → Bool) (l : List T) (m : Nat) (res predFalse : List T) :
    AsyncQueue.popLoop predicate l.length (⟨l, m⟩ : RingBuffer T) res predFalse =
      (⟨[], m⟩, res ++ l.reverse.filter predicate,
        predFalse ++ l.reverse.filter (fun x => !predicate x)) := by
  induction l using List.reverseRecOn generalizing res predFalse with
  | nil => simp [AsyncQueue.popLoop]
  | append_singleton l x ih =>
    have hlen : (l ++ [x]).length = l.length + 1 := by simp
    have hfront : QueueT.front? (⟨l ++ [x], m⟩ : RingBuffer T) = some x :=
      List.getLast?_concat
    have hpop : QueueT.pop (⟨l ++ [x], m⟩ : RingBuffer T) = ⟨l, m⟩ := by
      change (⟨(l ++ [x]).dropLast, m⟩ : RingBuffer T) = _
      rw [List.dropLast_concat]
    rw [hlen, AsyncQueue.popLoop, hfront]
    dsimp only
    rw [hpop]
    cases hx : predicate x with
    | true => simp [ih, hx]
    | false => simp [ih, hx]

/-- `pop` with `count = 0` on a bounded buffer: the elements that pass come out last stored first,
the others stay, in the opposite order. -/
theorem popRound_zero (predicate : T → Bool) {r : RingBuffer T} (h : r.Bounded) (n : Nat) :
    AsyncQueue.popRound 0 predicate (⟨r, n⟩ : AsyncQueue RingBuffer T) [] =
      (r.q.reverse.filter predicate,
        ⟨⟨r.q.reverse.filter (fun x => !predicate x), r.maxSize⟩, n⟩) := by
  have hloop := popLoop_eq predicate r.q r.maxSize [] []
  have hsize : QueueT.size r = r.q.length := rfl
  unfold AsyncQueue.popRound
  rw [if_pos (by omega), hsize]
  change (let (q, res', predFalse) :=
    AsyncQueue.popLoop predicate r.q.length (⟨r.q, r.maxSize⟩ : RingBuffer T) [] []
    (res', ({ q := predFalse.foldl QueueT.emplace q, maxSize := n } : AsyncQueue RingBuffer T))) = _
  rw [hloop]
  simp only [List.nil_append]
  rw [foldl_emplace_eq]
  · rfl
  · have hle := List.length_filter_le (fun x => !predicate x) r.q.reverse
    rw [List.length_reverse] at hle
    rw [List.nil_append]
    exact Nat.le_trans hle h

end RingBuffer

end Ra2yrcpp
