import Mathlib.Data.List.TakeDrop
import Mathlib.Data.Nat.Find
import Ra2yrcpp.AsyncQueue

/-!
# `AsyncQueue::pop` with a count and a predicate

The loop of `pop` looks at `count` elements in a round, puts those back that the predicate rejects,
and goes on until it has `count` results or the queue is empty.  What it finds in a round depends on
where the container puts the rejected ones: `std::queue` behind the others, `RingBuffer` in front of
them, so that the next round meets them again.
-/

namespace Ra2yrcpp

/-- How a container arranges its elements. -/
class LawfulQueueT (Q : Type → Type) [QueueT Q] where
  /-- The elements, `front()` first. -/
  toList : {T : Type} → Q T → List T
  /-- `n` more elements fit without any being lost. -/
  Room : {T : Type} → Q T → Nat → Prop
  /-- The arrangement after the first list was put back to a container that holds the second. -/
  putBack : {T : Type} → List T → List T → List T
  size_eq : ∀ {T : Type} (q : Q T), QueueT.size q = (toList q).length
  front?_eq : ∀ {T : Type} (q : Q T), QueueT.front? q = (toList q).head?
  toList_pop : ∀ {T : Type} (q : Q T), toList (QueueT.pop q) = (toList q).tail
  room_pop : ∀ {T : Type} {q : Q T} {n : Nat}, toList q ≠ [] → Room q n → Room (QueueT.pop q) (n + 1)
  toList_foldl : ∀ {T : Type} {q : Q T} {l : List T}, Room q l.length →
    toList (l.foldl QueueT.emplace q) = putBack l (toList q)
  room_foldl : ∀ {T : Type} {q : Q T} {l : List T}, Room q l.length →
    Room (l.foldl QueueT.emplace q) 0
  room_mono : ∀ {T : Type} {q : Q T} {n k : Nat}, k ≤ n → Room q n → Room q k
  putBack_perm : ∀ {T : Type} (l l' : List T), (putBack l l').Perm (l ++ l')

open LawfulQueueT

/-! ## The two containers -/

theorem StdQueue.foldl_emplace {T : Type} (l acc : List T) :
    l.foldl QueueT.emplace (⟨acc⟩ : StdQueue T) = ⟨acc ++ l⟩ := by
  induction l generalizing acc with
  | nil => simp
  | cons x l ih =>
    rw [List.foldl_cons]
    change List.foldl QueueT.emplace (⟨acc ++ [x]⟩ : StdQueue T) l = _
    rw [ih, List.append_assoc, List.singleton_append]

instance : LawfulQueueT StdQueue where
  toList q := q.q
  Room _ _ := True
  putBack l l' := l' ++ l
  size_eq _ := rfl
  front?_eq _ := rfl
  toList_pop _ := rfl
  room_pop _ _ := trivial
  toList_foldl {_ q l} _ := by
    show (List.foldl QueueT.emplace (⟨q.q⟩ : StdQueue _) l).q = _
    rw [StdQueue.foldl_emplace]
  room_foldl _ := trivial
  room_mono _ _ := trivial
  putBack_perm _ _ := List.perm_append_comm

theorem RingBuffer.foldl_emplace {T : Type} {q : RingBuffer T} {l : List T}
    (h : q.q.length + l.length ≤ q.maxSize) :
    l.foldl QueueT.emplace q = ⟨q.q ++ l, q.maxSize⟩ := by
  apply RingBuffer.foldl_emplace_eq
  rw [List.length_append]
  omega

instance : LawfulQueueT RingBuffer where
  toList q := q.q.reverse
  Room q n := q.q.length + n ≤ q.maxSize
  putBack l l' := l.reverse ++ l'
  size_eq _ := List.length_reverse.symm
  front?_eq _ := List.head?_reverse.symm
  toList_pop _ := List.tail_reverse.symm
  room_pop {_ q n} hne h := by
    have hpos : 0 < q.q.length := by
      rw [← List.length_reverse]
      exact List.length_pos_iff.mpr hne
    show q.q.dropLast.length + (n + 1) ≤ q.maxSize
    rw [List.length_dropLast]
    omega
  toList_foldl h := by
    rw [RingBuffer.foldl_emplace h, List.reverse_append]
  room_foldl h := by
    rw [RingBuffer.foldl_emplace h]
    show (_ ++ _ : List _).length + 0 ≤ _
    rw [List.length_append]
    exact h
  room_mono hle h := Nat.le_trans (Nat.add_le_add_left hle _) h
  putBack_perm l l' := (List.reverse_perm l).append_right l'

/-! ## One round -/

namespace AsyncQueue

variable {Q : Type → Type} [QueueT Q] [LawfulQueueT Q] {T : Type}

theorem popLoop_spec (predicate : T → Bool) (n : Nat) {q : Q T} (hn : n ≤ (toList q).length)
    (res predFalse : List T) :
    ∃ q', popLoop predicate n q res predFalse =
        (q', res ++ ((toList q).take n).filter predicate,
          predFalse ++ ((toList q).take n).filter fun x => !predicate x) ∧
      toList q' = (toList q).drop n ∧ ∀ k, Room q k → Room q' (k + n) := by
  induction n generalizing q res predFalse with
  | zero => exact ⟨q, by simp [popLoop], rfl, fun _ h => h⟩
  | succ n ih =>
    obtain ⟨x, xs, hq⟩ := List.exists_cons_of_length_pos (Nat.lt_of_lt_of_le (Nat.succ_pos n) hn)
    have hfront : QueueT.front? q = some x := by rw [front?_eq, hq, List.head?_cons]
    have hpop : toList (QueueT.pop q) = xs := by rw [toList_pop, hq, List.tail_cons]
    have hlen : n ≤ (toList (QueueT.pop q)).length := by
      rw [hq, List.length_cons] at hn
      rw [hpop]
      omega
    have hroom : ∀ q' : Q T, (∀ k, Room (QueueT.pop q) k → Room q' (k + n)) →
        ∀ k, Room q k → Room q' (k + (n + 1)) := by
      intro q' h k hk
      have hk' := h (k + 1) (room_pop (by rw [hq]; exact List.cons_ne_nil x xs) hk)
      rwa [show k + (n + 1) = k + 1 + n by omega]
    rw [popLoop, hfront, hq]
    dsimp only
    cases hx : predicate x with
    | true =>
      obtain ⟨q', heq, hlist, hk⟩ := ih hlen (res ++ [x]) predFalse
      refine ⟨q', ?_, by rw [hlist, hpop, List.drop_succ_cons], hroom q' hk⟩
      rw [if_pos rfl, heq, hpop]
      simp [hx]
    | false =>
      obtain ⟨q', heq, hlist, hk⟩ := ih hlen res (predFalse ++ [x])
      refine ⟨q', ?_, by rw [hlist, hpop, List.drop_succ_cons], hroom q' hk⟩
      rw [if_neg (by decide), heq, hpop]
      simp [hx]

/-- The number of elements that a round looks at. -/
def numPop (count : Nat) (a : AsyncQueue Q T) : Nat :=
  if count < 1 then (toList a.q).length else min count (toList a.q).length

/-- A round, as the queue that is left of the loop and what is put back into it. -/
theorem popRound_eq (count : Nat) (predicate : T → Bool) (a : AsyncQueue Q T) (res : List T) :
    ∃ q', a.popRound count predicate res =
        (res ++ ((toList a.q).take (a.numPop count)).filter predicate,
          ⟨(((toList a.q).take (a.numPop count)).filter fun x => !predicate x).foldl
            QueueT.emplace q', a.maxSize⟩) ∧
      toList q' = (toList a.q).drop (a.numPop count) ∧
      ∀ k, Room a.q k → Room q' (k + a.numPop count) := by
  have hnum : (if count < 1 then QueueT.size a.q else min count (QueueT.size a.q)) =
      a.numPop count := by
    rw [size_eq]
    rfl
  have hle : a.numPop count ≤ (toList a.q).length := by
    unfold numPop
    split <;> omega
  obtain ⟨q', heq, hlist, hk⟩ := popLoop_spec predicate (a.numPop count) hle res []
  refine ⟨q', ?_, hlist, hk⟩
  unfold popRound
  rw [hnum]
  dsimp only
  rw [heq]
  rfl

/-- A round takes what passes from the first elements and puts the others back. -/
theorem popRound_spec (count : Nat) (predicate : T → Bool) {a : AsyncQueue Q T}
    (hroom : Room a.q 0) (res : List T) :
    (a.popRound count predicate res).1 =
        res ++ ((toList a.q).take (a.numPop count)).filter predicate ∧
      toList (a.popRound count predicate res).2.q =
        putBack Q (((toList a.q).take (a.numPop count)).filter fun x => !predicate x)
          ((toList a.q).drop (a.numPop count)) ∧
      Room (a.popRound count predicate res).2.q 0 ∧
      (a.popRound count predicate res).2.maxSize = a.maxSize := by
  obtain ⟨q', hround, hlist, hk⟩ := popRound_eq count predicate a res
  have hback : Room q' (((toList a.q).take (a.numPop count)).filter fun x => !predicate x).length := by
    refine room_mono ?_ (hk 0 hroom)
    have hfilter := List.length_filter_le (fun x => !predicate x) ((toList a.q).take (a.numPop count))
    rw [List.length_take] at hfilter
    omega
  rw [hround]
  exact ⟨rfl, by rw [toList_foldl hback, hlist], room_foldl hback, rfl⟩

/-- Without a predicate nothing is put back, so that it does not matter how much fits. -/
theorem popRound_all (count : Nat) (a : AsyncQueue Q T) (res : List T) :
    (a.popRound count (fun _ => true) res).1 = res ++ (toList a.q).take (a.numPop count) ∧
      toList (a.popRound count (fun _ => true) res).2.q = (toList a.q).drop (a.numPop count) ∧
      (a.popRound count (fun _ => true) res).2.maxSize = a.maxSize := by
  obtain ⟨q', hround, hlist, -⟩ := popRound_eq count (fun _ => true) a res
  have hnone : ((toList a.q).take (a.numPop count)).filter (fun _ => !true) = [] :=
    List.filter_eq_nil_iff.mpr fun _ _ => Bool.false_ne_true
  rw [hnone, List.filter_eq_self.mpr fun _ _ => rfl] at hround
  rw [hround]
  exact ⟨rfl, hlist, rfl⟩

/-- A positive count is only cut off by the end of the queue. -/
theorem take_numPop {count : Nat} (hcount : 1 ≤ count) (a : AsyncQueue Q T) :
    (toList a.q).take (a.numPop count) = (toList a.q).take count := by
  rw [numPop, if_neg (by omega), List.take_eq_take_iff]
  omega

theorem drop_numPop {count : Nat} (hcount : 1 ≤ count) (a : AsyncQueue Q T) :
    (toList a.q).drop (a.numPop count) = (toList a.q).drop count := by
  rw [numPop, if_neg (by omega)]
  rcases Nat.le_total count (toList a.q).length with hle | hle
  · rw [Nat.min_eq_left hle]
  · rw [Nat.min_eq_right hle, List.drop_length, List.drop_eq_nil_of_le hle]

/-! ## The loop -/

/-- The results and the queue after some rounds. -/
def rounds (count : Nat) (predicate : T → Bool) (a : AsyncQueue Q T) : Nat → List T × AsyncQueue Q T
  | 0 => ([], a)
  | j + 1 =>
    (rounds count predicate a j).2.popRound count predicate (rounds count predicate a j).1

/-- What was taken has passed, and nothing is lost. -/
structure Popped (predicate : T → Bool) (l : List T) (r : List T × AsyncQueue Q T) : Prop where
  room : Room r.2.q 0
  perm : (r.1 ++ toList r.2.q).Perm l
  passed : ∀ x ∈ r.1, predicate x = true

variable {count : Nat} {predicate : T → Bool} {a : AsyncQueue Q T} {l : List T}
  {r : List T × AsyncQueue Q T}

theorem Popped.round (h : Popped predicate l r) :
    Popped predicate l (r.2.popRound count predicate r.1) := by
  obtain ⟨hres, hlist, hroom, -⟩ := popRound_spec count predicate h.room r.1
  refine ⟨hroom, ?_, fun x hx => ?_⟩
  · rw [hres, hlist]
    -- the elements that the round looked at are split by the predicate, the others stay
    have hsplit := (List.filter_append_perm predicate ((toList r.2.q).take (r.2.numPop count)))
    refine List.Perm.trans ?_ h.perm
    rw [List.append_assoc]
    apply List.Perm.append_left
    refine ((putBack_perm _ _).append_left _).trans ?_
    rw [← List.append_assoc]
    refine (hsplit.append_right _).trans ?_
    rw [List.take_append_drop]
  · rw [hres] at hx
    rcases List.mem_append.mp hx with hx | hx
    · exact h.passed x hx
    · exact (List.mem_filter.mp hx).2

theorem popped_rounds (count : Nat) (predicate : T → Bool) (hroom : Room a.q 0) (j : Nat) :
    Popped predicate (toList a.q) (rounds count predicate a j) := by
  induction j with
  | zero => exact ⟨hroom, List.Perm.refl _, nofun⟩
  | succ j ih => exact ih.round

theorem length_rounds_mono (count : Nat) (predicate : T → Bool) (hroom : Room a.q 0) {i j : Nat}
    (hij : i ≤ j) :
    (rounds count predicate a i).1.length ≤ (rounds count predicate a j).1.length := by
  induction hij with
  | refl => exact Nat.le_refl _
  | @step j _ ih =>
    have hres := (popRound_spec count predicate (popped_rounds count predicate hroom j).room
      (rounds count predicate a j).1).1
    show _ ≤ ((rounds count predicate a j).2.popRound count predicate _).1.length
    rw [hres, List.length_append]
    omega

/-- The loop is left: at the test for an empty queue, or with enough results. -/
def Stops (count : Nat) (r : List T × AsyncQueue Q T) : Prop :=
  QueueT.size r.2.q = 0 ∨ count ≤ r.1.length

omit [LawfulQueueT Q] in
theorem popWhile_eq_some {fuel j : Nat}
    (h : popWhile count predicate fuel (rounds count predicate a j).2
      (rounds count predicate a j).1 = some r) :
    ∃ i, r = rounds count predicate a i ∧ Stops count r := by
  induction fuel generalizing j with
  | zero => cases h
  | succ fuel ih =>
    rw [popWhile] at h
    split at h
    · rename_i hempty
      obtain rfl := Option.some.inj h
      exact ⟨j, rfl, Or.inl hempty⟩
    · change (if (rounds count predicate a (j + 1)).1.length < count then
        popWhile count predicate fuel (rounds count predicate a (j + 1)).2
          (rounds count predicate a (j + 1)).1 else some (rounds count predicate a (j + 1))) = _ at h
      split at h
      · exact ih h
      · rename_i hlen
        obtain rfl := Option.some.inj h
        exact ⟨j + 1, rfl, Or.inr (by omega)⟩

omit [LawfulQueueT Q] in
theorem popWhile_of_stops {i : Nat} (hstop : Stops count (rounds count predicate a i))
    (hbefore : ∀ j < i, ¬ Stops count (rounds count predicate a j)) {d j : Nat} (hij : j + d = i)
    (hd : d = 0 → QueueT.size (rounds count predicate a i).2.q = 0) :
    popWhile count predicate (d + 1) (rounds count predicate a j).2
      (rounds count predicate a j).1 = some (rounds count predicate a i) := by
  induction d generalizing j with
  | zero =>
    obtain rfl : j = i := by omega
    rw [popWhile, if_pos (hd rfl)]
  | succ d ih =>
    have hgoes := hbefore j (by omega)
    unfold Stops at hgoes
    rw [popWhile, if_neg (fun h => hgoes (Or.inl h))]
    change (if (rounds count predicate a (j + 1)).1.length < count then
      popWhile count predicate (d + 1) (rounds count predicate a (j + 1)).2
        (rounds count predicate a (j + 1)).1 else some (rounds count predicate a (j + 1))) = _
    split
    · rename_i hlen
      refine ih (by omega) fun hzero => ?_
      -- the last round did not bring enough, so it has emptied the queue
      obtain rfl : j + 1 = i := by omega
      rcases hstop with hsize | hlen'
      · exact hsize
      · omega
    · rename_i hlen
      have hlast : ¬ j + 1 < i := fun hlt => hbefore (j + 1) hlt (Or.inr (by omega))
      obtain rfl : j + 1 = i := by omega
      rfl

/-- `pop` ends with as many elements as there are, up to `count`, and leaves the others. -/
def Finds (count : Nat) (predicate : T → Bool) (a : AsyncQueue Q T) : Prop :=
  ∃ fuel res a', a.pop fuel count predicate = some (res, a') ∧
    res.length = min count ((toList a.q).countP predicate) ∧
    (∀ x ∈ res, predicate x = true) ∧ (res ++ toList a'.q).Perm (toList a.q)

theorem Popped.countP_eq (h : Popped predicate l r) :
    l.countP predicate = r.1.length + (toList r.2.q).countP predicate := by
  rw [← h.perm.countP_eq, List.countP_append, List.countP_eq_length.mpr h.passed]

theorem Popped.length_eq (h : Popped predicate l r) :
    l.length = r.1.length + (toList r.2.q).length := by
  rw [← h.perm.length_eq, List.length_append]

/-- The first round at which the loop stops decides. -/
theorem finds_of_stops (hroom : Room a.q 0) (hcount : 1 ≤ count) {j : Nat}
    (hstop : Stops count (rounds count predicate a j))
    (hlen : ∀ i ≤ j, Stops count (rounds count predicate a i) →
      (rounds count predicate a i).1.length = min count ((toList a.q).countP predicate)) :
    Finds count predicate a := by
  classical
  have hex : ∃ i, Stops count (rounds count predicate a i) := ⟨j, hstop⟩
  have hfirst := Nat.find_spec hex
  have hle : Nat.find hex ≤ j := Nat.find_min' hex hstop
  have hpopped : Popped predicate (toList a.q) (rounds count predicate a (Nat.find hex)) :=
    popped_rounds count predicate hroom _
  refine ⟨Nat.find hex + 1, (rounds count predicate a (Nat.find hex)).1,
    (rounds count predicate a (Nat.find hex)).2, ?_, hlen _ hle hfirst, hpopped.passed,
    hpopped.perm⟩
  refine popWhile_of_stops hfirst (fun i hi => Nat.find_min hex hi) (Nat.zero_add _) fun hzero => ?_
  rw [hzero] at hfirst ⊢
  rcases hfirst with hsize | hlen'
  · exact hsize
  · -- no result yet
    rw [show (rounds count predicate a 0).1.length = 0 from rfl] at hlen'
    omega

/-- The loop does what is asked of it exactly when everything in the queue passes, or when some
number of rounds brings `count` results and not more. -/
theorem finds_iff (hroom : Room a.q 0) (hcount : 1 ≤ count) :
    Finds count predicate a ↔ (∀ x ∈ toList a.q, predicate x = true) ∨
      ∃ j, (rounds count predicate a j).1.length = count := by
  constructor
  · rintro ⟨fuel, res, a', hpop, hlen, -, -⟩
    obtain ⟨i, hi, hstop⟩ := popWhile_eq_some (j := 0) hpop
    have hpopped : Popped predicate (toList a.q) (res, a') := hi ▸ popped_rounds _ _ hroom i
    rcases hstop with hempty | hmany
    · left
      intro x hx
      rw [size_eq] at hempty
      have hperm := hpopped.perm
      rw [List.eq_nil_of_length_eq_zero hempty, List.append_nil] at hperm
      exact hpopped.passed x (hperm.mem_iff.mpr hx)
    · right
      refine ⟨i, ?_⟩
      rw [← hi]
      dsimp only at hmany ⊢
      omega
  · rintro (hall | ⟨j, hj⟩)
    · -- one round takes everything, or as much as was asked for
      have hres := (popRound_spec count predicate hroom []).1
      have hfilter : ((toList a.q).take count).filter predicate = (toList a.q).take count :=
        List.filter_eq_self.mpr fun x hx => hall x (List.mem_of_mem_take hx)
      have hone : (rounds count predicate a 1).1.length =
          min count ((toList a.q).countP predicate) := by
        show (a.popRound count predicate []).1.length = _
        rw [hres, take_numPop hcount, hfilter, List.nil_append, List.length_take,
          List.countP_eq_length.mpr hall]
      have hpopped : Popped predicate (toList a.q) (rounds count predicate a 1) :=
        popped_rounds count predicate hroom 1
      have hcountP : (toList a.q).countP predicate = (toList a.q).length :=
        List.countP_eq_length.mpr hall
      have hlength := hpopped.length_eq
      refine finds_of_stops hroom hcount (j := 1) ?_ fun i hi hstop => ?_
      · unfold Stops
        rw [size_eq]
        omega
      · obtain rfl | rfl : i = 0 ∨ i = 1 := by omega
        · have hzero : (rounds count predicate a 0).1.length = 0 := rfl
          rcases hstop with hsize | hmany
          · rw [size_eq] at hsize
            have hnil : (toList a.q).length = 0 := hsize
            omega
          · omega
        · exact hone
    · refine finds_of_stops hroom hcount (Or.inr (Nat.le_of_eq hj.symm)) fun i hi hstop => ?_
      have hmono := length_rounds_mono count predicate hroom hi
      have hpopped : Popped predicate (toList a.q) (rounds count predicate a i) :=
        popped_rounds count predicate hroom i
      have hpopped' : Popped predicate (toList a.q) (rounds count predicate a j) :=
        popped_rounds count predicate hroom j
      have hcountP := hpopped.countP_eq
      have hcountP' := hpopped'.countP_eq
      rcases hstop with hsize | hmany
      · rw [size_eq] at hsize
        rw [List.eq_nil_of_length_eq_zero hsize, List.countP_nil] at hcountP
        omega
      · omega

/-! ## `std::queue` -/

/-- Everything passes, or some number of rounds of `count` elements has `count` that pass. -/
def FifoMatches (count : Nat) (predicate : T → Bool) (l : List T) : Prop :=
  (∀ x ∈ l, predicate x = true) ∨ ∃ j, (l.take (j * count)).countP predicate = count

/-- The rejected elements queue up behind those that no round has looked at yet. -/
theorem rounds_stdQueue (hcount : 1 ≤ count) (predicate : T → Bool) (a : AsyncQueue StdQueue T)
    (j : Nat) :
    (∃ rejected, toList (rounds count predicate a j).2.q =
        (toList a.q).drop (j * count) ++ rejected ∧ ∀ x ∈ rejected, predicate x = false) ∧
      (rounds count predicate a j).1.length = ((toList a.q).take (j * count)).countP predicate := by
  induction j with
  | zero =>
    rw [Nat.zero_mul]
    exact ⟨⟨[], (List.append_nil _).symm, nofun⟩, rfl⟩
  | succ j ih =>
    obtain ⟨⟨rejected, hlist, hreject⟩, hlen⟩ := ih
    obtain ⟨hres, hlist', -, -⟩ := popRound_spec count predicate
      (a := (rounds count predicate a j).2) trivial (rounds count predicate a j).1
    have hnext : (j + 1) * count = j * count + count := Nat.succ_mul j count
    rw [take_numPop hcount, drop_numPop hcount] at hlist'
    rw [take_numPop hcount] at hres
    constructor
    · refine ⟨rejected.drop (count - ((toList a.q).drop (j * count)).length) ++
        ((toList (rounds count predicate a j).2.q).take count).filter (fun x => !predicate x),
        ?_, fun x hx => ?_⟩
      · show toList ((rounds count predicate a j).2.popRound count predicate _).2.q = _
        rw [hlist', hnext, ← List.append_assoc, ← List.drop_drop, ← List.drop_append, ← hlist]
        rfl
      · rcases List.mem_append.mp hx with hx | hx
        · exact hreject x (List.mem_of_mem_drop hx)
        · simpa using (List.mem_filter.mp hx).2
    · show ((rounds count predicate a j).2.popRound count predicate _).1.length = _
      have hold : (rejected.take (count - ((toList a.q).drop (j * count)).length)).countP
          predicate = 0 := by
        rw [List.countP_eq_zero]
        intro x hx
        rw [hreject x (List.mem_of_mem_take hx)]
        decide
      rw [hres, List.length_append, hlen, hlist, ← List.countP_eq_length_filter, List.take_append,
        List.countP_append, hold, hnext, List.take_add, List.countP_append, Nat.add_zero]

theorem finds_stdQueue_iff (hcount : 1 ≤ count) (predicate : T → Bool) (a : AsyncQueue StdQueue T) :
    Finds count predicate a ↔ FifoMatches count predicate a.q.q := by
  rw [finds_iff trivial hcount]
  unfold FifoMatches
  simp only [(rounds_stdQueue hcount predicate a _).2]
  rfl

/-! ## `RingBuffer` -/

/-- How many elements have passed after some rounds.  A round meets the rejected elements of the last
one again, and as many new ones as have passed before. -/
def ringFound (count : Nat) (predicate : T → Bool) (l : List T) : Nat → Nat
  | 0 => 0
  | j + 1 => (l.take (count + ringFound count predicate l j)).countP predicate

/-- Everything passes, or the rounds come to `count` exactly. -/
def LifoMatches (count : Nat) (predicate : T → Bool) (l : List T) : Prop :=
  (∀ x ∈ l, predicate x = true) ∨ ∃ j, ringFound count predicate l j = count

/-- `seen` elements were looked at; those that were rejected lie in front of the others. -/
theorem rounds_ringBuffer (hcount : 1 ≤ count) (predicate : T → Bool) {a : AsyncQueue RingBuffer T}
    (hroom : Room a.q 0) (j : Nat) :
    (∃ rejected seen, toList (rounds count predicate a j).2.q =
        rejected ++ (toList a.q).drop seen ∧ (∀ x ∈ rejected, predicate x = false) ∧
        ringFound count predicate (toList a.q) j = ((toList a.q).take seen).countP predicate ∧
        seen ≤ count + ringFound count predicate (toList a.q) j) ∧
      (rounds count predicate a j).1.length = ringFound count predicate (toList a.q) j := by
  induction j with
  | zero => exact ⟨⟨[], 0, rfl, nofun, rfl, Nat.zero_le _⟩, rfl⟩
  | succ j ih =>
    obtain ⟨⟨rejected, seen, hlist, hreject, hfound, hseen⟩, hlen⟩ := ih
    have hpopped : Popped predicate (toList a.q) (rounds count predicate a j) :=
      popped_rounds count predicate hroom j
    obtain ⟨hres, hlist', -, -⟩ := popRound_spec count predicate hpopped.room
      (rounds count predicate a j).1
    have hnext : ringFound count predicate (toList a.q) (j + 1) =
      ((toList a.q).take (count + ringFound count predicate (toList a.q) j)).countP predicate := rfl
    rw [take_numPop hcount, drop_numPop hcount] at hlist'
    rw [take_numPop hcount] at hres
    -- with what is left of the queue, the rejected elements make up what was seen
    have hlength := hpopped.length_eq
    rw [hlist, List.length_append, List.length_drop, hlen] at hlength
    have hrej : rejected.length ≤ count := by omega
    generalize hn : ringFound count predicate (toList a.q) j = n at *
    have hdrop : (toList a.q).drop (seen + (count - rejected.length)) =
        (toList a.q).drop (count + n) := by
      by_cases hshort : seen ≤ (toList a.q).length
      · rw [show seen + (count - rejected.length) = count + n by omega]
      · rw [List.drop_eq_nil_of_le (by omega), List.drop_eq_nil_of_le (by omega)]
    have htake : (toList a.q).take (seen + (count - rejected.length)) =
        (toList a.q).take (count + n) := by
      by_cases hshort : seen ≤ (toList a.q).length
      · rw [show seen + (count - rejected.length) = count + n by omega]
      · rw [List.take_of_length_le (by omega), List.take_of_length_le (by omega)]
    have hnone : rejected.countP predicate = 0 := by
      rw [List.countP_eq_zero]
      intro x hx
      rw [hreject x hx]
      decide
    have hlen' : (rounds count predicate a (j + 1)).1.length =
        ringFound count predicate (toList a.q) (j + 1) := by
      show ((rounds count predicate a j).2.popRound count predicate _).1.length = _
      rw [hres, List.length_append, hlen, hlist, ← List.countP_eq_length_filter, List.take_append,
        List.take_of_length_le hrej, List.countP_append, hnone, hnext, ← htake, List.take_add,
        List.countP_append, hfound, Nat.zero_add]
    have hmono := length_rounds_mono count predicate hroom (Nat.le_add_right j 1)
    refine ⟨⟨(((toList (rounds count predicate a j).2.q).take count).filter
      fun x => !predicate x).reverse, count + n, ?_, fun x hx => ?_, hnext, ?_⟩, hlen'⟩
    · show toList ((rounds count predicate a j).2.popRound count predicate _).2.q = _
      rw [hlist', ← hdrop, ← List.drop_drop]
      show _ ++ _ = _
      congr 1
      rw [hlist, List.drop_append, List.drop_eq_nil_of_le hrej, List.nil_append]
    · rw [List.mem_reverse] at hx
      simpa using (List.mem_filter.mp hx).2
    · rw [← hlen']
      omega

theorem finds_ringBuffer_iff (hcount : 1 ≤ count) (predicate : T → Bool)
    {a : AsyncQueue RingBuffer T} (hbound : a.q.q.length ≤ a.q.maxSize) :
    Finds count predicate a ↔ LifoMatches count predicate a.q.q.reverse := by
  have hroom : Room a.q 0 := hbound
  rw [finds_iff hroom hcount]
  unfold LifoMatches
  simp only [(rounds_ringBuffer hcount predicate hroom _).2]
  rfl

/-! ## When `pop` keeps its word -/

/-- A ring buffer whose newest element is rejected: every round meets it again.  A queue with nothing
that passes, and one whose second round brings more than was asked for. -/
theorem pop_count_fails :
    ¬ Finds 1 (· == 1) (⟨⟨[1, 2], 32⟩, 0⟩ : AsyncQueue RingBuffer Nat) ∧
    (∀ fuel, (⟨⟨[1, 2], 32⟩, 0⟩ : AsyncQueue RingBuffer Nat).pop fuel 1 (· == 1) = none) ∧
    (∀ fuel, (⟨⟨[2]⟩, 0⟩ : AsyncQueue StdQueue Nat).pop fuel 1 (· == 1) = none) ∧
    (⟨⟨[2, 1, 1, 1]⟩, 0⟩ : AsyncQueue StdQueue Nat).pop 2 2 (· == 1) =
      some ([1, 1, 1], ⟨⟨[2]⟩, 0⟩) := by
  have hring : ∀ fuel, popWhile 1 (· == 1) fuel (⟨⟨[1, 2], 32⟩, 0⟩ : AsyncQueue RingBuffer Nat) [] =
      none := by
    intro fuel
    induction fuel with
    | zero => rfl
    -- the state after the round is the one before it
    | succ fuel ih => exact ih
  have hstd : ∀ fuel, popWhile 1 (· == 1) fuel (⟨⟨[2]⟩, 0⟩ : AsyncQueue StdQueue Nat) [] = none := by
    intro fuel
    induction fuel with
    | zero => rfl
    | succ fuel ih => exact ih
  refine ⟨?_, hring, hstd, rfl⟩
  rintro ⟨fuel, res, a', hpop, -⟩
  rw [pop, hring fuel] at hpop
  cases hpop

/-- For every content of the queue, count and predicate: `pop` ends with `min(count, k)` of the `k`
elements that pass, exactly when all elements pass, or when the elements that pass come to `count` at
the end of a round. -/
theorem pop_finds_iff (hcount : 1 ≤ count) (predicate : T → Bool) :
    (∀ a : AsyncQueue StdQueue T, Finds count predicate a ↔ FifoMatches count predicate a.q.q) ∧
    ∀ a : AsyncQueue RingBuffer T, a.q.q.length ≤ a.q.maxSize →
      (Finds count predicate a ↔ LifoMatches count predicate a.q.q.reverse) :=
  ⟨finds_stdQueue_iff hcount predicate, fun _ hbound => finds_ringBuffer_iff hcount predicate hbound⟩

/-- The newest two results are ready. -/
theorem pop_finds_newest :
    Finds 2 (fun x => decide (2 ≤ x)) (⟨⟨[1, 2, 3], 32⟩, 0⟩ : AsyncQueue RingBuffer Nat) := by
  have hmatches : LifoMatches 2 (fun x => decide (2 ≤ x)) [1, 2, 3].reverse :=
    Or.inr ⟨1, by decide⟩
  exact ((pop_finds_iff (by decide) _).2 ⟨⟨[1, 2, 3], 32⟩, 0⟩ (by decide)).mpr hmatches

end AsyncQueue

end Ra2yrcpp
