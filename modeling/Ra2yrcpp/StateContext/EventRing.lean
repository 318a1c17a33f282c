import Mathlib.Data.List.Nodup
import Mathlib.Data.Nat.ModEq
import Ra2yrcpp.StateContext

/-!
# The order of an event ring

`elist_apply` and `find` of `event_list.cpp`: which entries of a ring the callback gets to see, and
which one the search returns.
-/

namespace Ra2yrcpp.StateContext

variable {EventType : Type}

/-! ## Entries -/

namespace EventListCtx

/-- The entry `i` places behind the head, around the ring. -/
def entry (C : EventListCtx EventType) (i : Nat) : EventEntry EventType :=
  ⟨C.list ((C.head + i) % C.length), C.timings ((C.head + i) % C.length), i⟩

/-- Oldest first. -/
def entries (C : EventListCtx EventType) : List (EventEntry EventType) :=
  (List.range C.count).map C.entry

end EventListCtx

theorem getEvent_eq (C : EventListCtx EventType) (i : Nat) : getEvent C i = C.entry i := by
  have hslot : (C.head + i) &&& (C.length - 1) = (C.head + i) % C.length :=
    Nat.and_two_pow_sub_one_eq_mod _ C.bits
  simp only [getEvent, EventListCtx.entry, hslot]

/-- The slot of an entry, as the `int` that `get_event` computes. -/
def slot (head length i : BitVec 32) : BitVec 32 := (head + i) &&& (length - 1)

theorem toNat_slot {head bits i : Nat} (hbits : bits ≤ 30) (hhead : head < 2 ^ bits)
    (hi : i < 2 ^ bits) :
    (slot (BitVec.ofNat 32 head) (BitVec.ofNat 32 (2 ^ bits)) (BitVec.ofNat 32 i)).toNat =
      (head + i) % 2 ^ bits := by
  have hpow : 2 ^ bits ≤ 2 ^ 30 := Nat.pow_le_pow_right (by decide) hbits
  have hpos : 0 < 2 ^ bits := Nat.two_pow_pos bits
  have hsum : (BitVec.ofNat 32 head + BitVec.ofNat 32 i).toNat = head + i := by
    rw [BitVec.toNat_add, BitVec.toNat_ofNat, BitVec.toNat_ofNat]
    omega
  have hmask : (BitVec.ofNat 32 (2 ^ bits) - 1).toNat = 2 ^ bits - 1 := by
    rw [BitVec.toNat_sub, BitVec.toNat_ofNat]
    show (2 ^ 32 - 1 + 2 ^ bits % 2 ^ 32) % 2 ^ 32 = _
    omega
  rw [slot, BitVec.toNat_and, hsum, hmask, Nat.and_two_pow_sub_one_eq_mod]

/-- Different entries lie in different slots, as long as there are not more than the ring holds. -/
theorem slots_nodup {C : EventListCtx EventType} (hcount : C.count ≤ C.length) :
    ((List.range C.count).map fun i => (C.head + i) % C.length).Nodup := by
  apply List.Nodup.map_on _ List.nodup_range
  intro i hi j hj heq
  rw [List.mem_range] at hi hj
  have hmod : (C.head + i) % C.length = (C.head + j) % C.length := heq
  have hmodEq := Nat.ModEq.add_left_cancel' C.head hmod
  exact Nat.ModEq.eq_of_lt_of_lt hmodEq (by omega) (by omega)

/-! ## The loop -/

section Loop

variable {σ : Type} (fn : EventEntry EventType → σ → σ × Bool)

/-- What the callback has written after it has been called with the entries. -/
def stateAfter (s : σ) (es : List (EventEntry EventType)) : σ :=
  es.foldl (fun s e => (fn e s).1) s

/-- The callback, with a record of the entries it is called with. -/
def recorded (e : EventEntry EventType) (s : σ × List (EventEntry EventType)) :
    (σ × List (EventEntry EventType)) × Bool :=
  (((fn e s.1).1, s.2 ++ [e]), (fn e s.1).2)

/-- The callback returns true for the entry at index `k`, called with those before it. -/
def StopsAt (es : List (EventEntry EventType)) (s : σ) (k : Nat) : Prop :=
  ∃ e, es[k]? = some e ∧ (fn e (stateAfter fn s (es.take k))).2 = true

/-- The callback is called with the first `n` entries, in their order, and stops the loop at the last
of them or not at all. -/
structure Visits (es : List (EventEntry EventType)) (s : σ) (n : Nat) : Prop where
  le : n ≤ es.length
  first : ∀ k, StopsAt fn es s k → k + 1 ≥ n
  stopped : n < es.length → ∃ k, k + 1 = n ∧ StopsAt fn es s k

variable {fn} {s : σ} {e : EventEntry EventType} {es : List (EventEntry EventType)}

theorem stopsAt_zero : StopsAt fn (e :: es) s 0 ↔ (fn e s).2 = true := by
  simp [StopsAt, stateAfter]

theorem stopsAt_succ {k : Nat} : StopsAt fn (e :: es) s (k + 1) ↔ StopsAt fn es (fn e s).1 k := by
  simp [StopsAt, stateAfter]

theorem visits_one (hstop : (fn e s).2 = true) : Visits fn (e :: es) s 1 where
  le := Nat.succ_le_succ (Nat.zero_le _)
  first k _ := Nat.succ_le_succ (Nat.zero_le k)
  stopped _ := ⟨0, rfl, stopsAt_zero.mpr hstop⟩

theorem Visits.cons {n : Nat} (h : Visits fn es (fn e s).1 n) (hgo : (fn e s).2 ≠ true) :
    Visits fn (e :: es) s (n + 1) where
  le := Nat.succ_le_succ h.le
  first k hstop := by
    cases k with
    | zero => exact absurd (stopsAt_zero.mp hstop) hgo
    | succ k => exact Nat.succ_le_succ (h.first k (stopsAt_succ.mp hstop))
  stopped hlt := by
    obtain ⟨k, hk, hstop⟩ := h.stopped (Nat.lt_of_succ_lt_succ hlt)
    exact ⟨k + 1, congrArg Nat.succ hk, stopsAt_succ.mpr hstop⟩

-- the loop, by induction on the entries it has to go
theorem elistApplyFrom_visits (C : EventListCtx EventType)
    (fn : EventEntry EventType → σ → σ × Bool) (m i : Nat) (s : σ)
    (log : List (EventEntry EventType)) :
    ∃ n, Visits fn ((List.range' i m).map C.entry) s n ∧
      elistApplyFrom C fn m i s = stateAfter fn s (((List.range' i m).map C.entry).take n) ∧
      elistApplyFrom C (recorded fn) m i (s, log) =
        (stateAfter fn s (((List.range' i m).map C.entry).take n),
          log ++ ((List.range' i m).map C.entry).take n) := by
  induction m generalizing i s log with
  | zero =>
    refine ⟨0, ⟨Nat.zero_le _, fun k _ => Nat.zero_le _, fun h => absurd h (Nat.not_lt_zero 0)⟩,
      rfl, ?_⟩
    rw [List.take_zero, List.append_nil]
    rfl
  | succ m ih =>
    rw [List.range'_succ, List.map_cons, elistApplyFrom, elistApplyFrom, getEvent_eq]
    by_cases hstop : (fn (C.entry i) s).2 = true
    · refine ⟨1, visits_one hstop, ?_, ?_⟩
      · rw [if_pos hstop]
        rfl
      · rw [if_pos (show (recorded fn (C.entry i) (s, log)).2 = true from hstop)]
        rfl
    · obtain ⟨n, hvisits, hstate, hlog⟩ := ih (i + 1) (fn (C.entry i) s).1 (log ++ [C.entry i])
      refine ⟨n + 1, hvisits.cons hstop, ?_, ?_⟩
      · rw [if_neg hstop, hstate]
        rfl
      · rw [if_neg (show ¬(recorded fn (C.entry i) (s, log)).2 = true from hstop)]
        refine hlog.trans ?_
        rw [List.append_assoc]
        rfl

end Loop

/-! ## The search -/

section Search

variable [DecidableEq EventType]

/-- `from_eventlist`, with the values of `EventListType`. -/
def fromEventlist (L : EventLists EventType) (t : Int32) : Except String (EventListCtx EventType) :=
  if t = 1 then .ok L.outList
  else if t = 2 then .ok L.doList
  else if t = 3 then .ok L.megaMissionList
  else .error "Invalid EventList type"

/-- `find` in a list that is given by its type. -/
def findIn (Y : YRpp EventType) (L : EventLists EventType) (t : Int32) (E : EventClass EventType) :
    Except String (Option (EventEntry EventType)) := do
  let C ← fromEventlist L t
  return find Y C E

theorem find_eq_find? (Y : YRpp EventType) (C : EventListCtx EventType) (E : EventClass EventType) :
    find Y C E = C.entries.find? fun e => decide (Equivalent Y E e.e) := by
  rw [find, elistApply, elistApplyFrom_findFn, List.range_eq_range'.symm, EventListCtx.entries,
    funext (getEvent_eq C)]

/-- The oldest of the matching entries. -/
theorem find_eq_some_iff (Y : YRpp EventType) (C : EventListCtx EventType)
    (E : EventClass EventType) (r : EventEntry EventType) :
    find Y C E = some r ↔
      ∃ i < C.count, r = C.entry i ∧ Equivalent Y E r.e ∧
        ∀ j < i, ¬Equivalent Y E (C.entry j).e := by
  have hlen : C.entries.length = C.count := by
    rw [EventListCtx.entries, List.length_map, List.length_range]
  rw [find_eq_find?, List.find?_eq_some_iff_getElem]
  constructor
  · rintro ⟨hmatch, i, hi, rfl, hbefore⟩
    refine ⟨i, hlen ▸ hi, by simp [EventListCtx.entries], of_decide_eq_true hmatch, ?_⟩
    intro j hj
    have hj' := hbefore j hj
    simpa [EventListCtx.entries] using hj'
  · rintro ⟨i, hi, rfl, hmatch, hbefore⟩
    refine ⟨decide_eq_true hmatch, i, hlen.symm ▸ hi, by simp [EventListCtx.entries], ?_⟩
    intro j hj
    simpa [EventListCtx.entries] using hbefore j hj

theorem find_eq_none_iff_entries (Y : YRpp EventType) (C : EventListCtx EventType)
    (E : EventClass EventType) :
    find Y C E = none ↔ ∀ i < C.count, ¬Equivalent Y E (C.entry i).e := by
  rw [find_eq_find?, List.find?_eq_none]
  simp only [EventListCtx.entries, List.mem_map, List.mem_range, forall_exists_index, and_imp,
    forall_apply_eq_imp_iff₂, decide_eq_true_eq]

end Search

/-- Three events from the last slot of four on, with their slots as types. -/
def wrapped : EventListCtx Nat where
  count := 3
  head := 3
  tail := 2
  bits := 2
  list i := ⟨i, false, 0, 0, {}⟩
  timings i := Int32.ofNat (100 + i)

/-- The callback that stops at slot 0. -/
def stopAtZero (e : EventEntry Nat) (s : List Nat) : List Nat × Bool :=
  (s ++ [e.e.type], e.e.type == 0)

end Ra2yrcpp.StateContext
