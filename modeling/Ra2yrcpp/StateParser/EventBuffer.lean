import Ra2yrcpp.Reasoning.Window
import Ra2yrcpp.StateParser.Events

/-!
# The event buffer

`event_buffer` keeps the event lists of the last frames, with the frame of each.  The lists and the
frames are two fields that `parse_EventLists` trims and appends to one after the other.
-/

namespace Ra2yrcpp.StateParser

open Ra2yrcpp.Reasoning

variable (oneof : Bool) {maxSize : Nat}

/-- What one call of `parse_EventLists` finds: the lists of the game state as the frame before left
them, the frame, and the lists of the game. -/
structure EventCall where
  G : EventListMessages
  currentFrame : UInt32
  rings : EventRings

namespace EventCall

/-- The lists that the call adds to the buffer, if it returns. -/
def lists (call : EventCall) : Option EventListMessages := parseLists oneof call.G call.rings

/-- The parser of the lists never throws. -/
def parsed (call : EventCall) : EventListMessages := (call.lists oneof).getD {}

def run (call : EventCall) (maxSize : Nat) (ES : EventListsSnapshot) : Option EventListsSnapshot :=
  (parseEventLists oneof call.G call.currentFrame ES maxSize call.rings).map Prod.snd

theorem lists_eq (call : EventCall) : call.lists oneof = some (call.parsed oneof) := by
  obtain ⟨EL, hEL⟩ := parseLists_isSome oneof call.G call.rings
  have hlists : call.lists oneof = some EL := hEL
  unfold parsed
  rw [hlists]
  rfl

theorem run_eq (call : EventCall) (maxSize : Nat) (ES : EventListsSnapshot) :
    call.run oneof maxSize ES = (removeFirst ES maxSize).map fun ES =>
      ⟨ES.lists ++ [call.parsed oneof], ES.frame ++ [call.currentFrame]⟩ := by
  have hlists : parseLists oneof call.G call.rings = some (call.parsed oneof) := lists_eq oneof call
  unfold run parseEventLists
  rw [hlists]
  cases removeFirst ES maxSize <;> rfl

end EventCall

/-- The buffer after some calls, from an empty one. -/
def runEventLists (maxSize : Nat) (calls : List EventCall) : Option EventListsSnapshot :=
  calls.foldlM (fun ES call => call.run oneof maxSize ES) {}

/-- The buffer has the lists and the frames of the last calls, in their order. -/
structure IsWindow (maxSize : Nat) (calls : List EventCall) (ES : EventListsSnapshot) : Prop where
  lists_length : ES.lists.length = min calls.length maxSize
  frame_length : ES.frame.length = min calls.length maxSize
  entry : ∀ i < min calls.length maxSize,
    ∃ call, calls[calls.length - min calls.length maxSize + i]? = some call ∧
      ES.lists[i]? = call.lists oneof ∧ ES.frame[i]? = some call.currentFrame

/-! ## One call -/

theorem eraseFirst_eq {α : Type} {l : List α} (h : 0 < l.length) : eraseFirst l = some l.tail := by
  cases l with
  | nil => cases h
  | cons x l => rfl

/-- Both fields slide together, as long as they have the same length. -/
theorem run_slide {n : Nat} {ES : EventListsSnapshot} (call : EventCall)
    (hn : intOfSize maxSize = n) (hpos : 0 < n) (hlength : ES.frame.length = ES.lists.length) :
    call.run oneof maxSize ES =
      some ⟨slide n ES.lists (call.parsed oneof), slide n ES.frame call.currentFrame⟩ := by
  rw [EventCall.run_eq]
  unfold removeFirst slide
  rw [hn, hlength]
  by_cases hfull : n ≤ ES.lists.length
  · rw [if_pos (by omega), if_pos hfull, if_pos hfull, eraseFirst_eq (by omega),
      eraseFirst_eq (by omega)]
    rfl
  · rw [if_neg (by omega), if_neg hfull, if_neg hfull]
    rfl

/-- A size that is no positive `int` has the first call erase from an empty field. -/
theorem run_empty (call : EventCall) (hneg : intOfSize maxSize ≤ 0) :
    call.run oneof maxSize {} = none := by
  rw [EventCall.run_eq]
  unfold removeFirst
  rw [if_pos]
  · rfl
  · exact hneg

/-! ## Runs -/

-- induction on the calls, the last one first
theorem runEventLists_eq {n : Nat} (hn : intOfSize maxSize = n) (hpos : 0 < n)
    (calls : List EventCall) :
    runEventLists oneof maxSize calls = some
      ⟨(calls.map (EventCall.parsed oneof)).rtake n, (calls.map EventCall.currentFrame).rtake n⟩ := by
  induction calls using List.reverseRecOn with
  | nil =>
    rw [List.map_nil, List.map_nil, List.rtake_nil, List.rtake_nil]
    rfl
  | append_singleton calls call ih =>
    unfold runEventLists at ih ⊢
    rw [List.foldlM_append, ih, Option.bind_eq_bind, Option.bind_some, List.foldlM_cons,
      run_slide oneof call hn hpos, slide_rtake hpos, slide_rtake hpos, List.map_append,
      List.map_append]
    · rfl
    · show (List.rtake _ n).length = (List.rtake _ n).length
      rw [length_rtake, length_rtake, List.length_map, List.length_map]

/-- The window of `n` entries is one of `maxSize` entries as long as no entry has left it too
early. -/
theorem isWindow_rtake_iff {n : Nat} (calls : List EventCall) (hle : n ≤ maxSize) :
    IsWindow oneof maxSize calls ⟨(calls.map (EventCall.parsed oneof)).rtake n,
        (calls.map EventCall.currentFrame).rtake n⟩ ↔ n = maxSize ∨ calls.length ≤ n := by
  constructor
  · intro h
    have hlength := h.lists_length
    rw [length_rtake, List.length_map] at hlength
    omega
  · intro h
    have hmin : min calls.length n = min calls.length maxSize := by omega
    refine ⟨?_, ?_, ?_⟩
    · rw [length_rtake, List.length_map, hmin]
    · rw [length_rtake, List.length_map, hmin]
    · intro i hi
      have hlast : calls.length - n + i = calls.length - min calls.length maxSize + i := by omega
      have hlt : calls.length - min calls.length maxSize + i < calls.length := by omega
      refine ⟨_, List.getElem?_eq_getElem hlt, ?_, ?_⟩
      · rw [getElem?_rtake, List.length_map, List.getElem?_map, hlast,
          List.getElem?_eq_getElem hlt, EventCall.lists_eq]
        rfl
      · rw [getElem?_rtake, List.length_map, List.getElem?_map, hlast,
          List.getElem?_eq_getElem hlt]
        rfl

/-- The size as an `int`, by its lower 32 bits. -/
theorem intOfSize_pos_iff (n : Nat) :
    0 < intOfSize n ↔ 0 < n % 2 ^ 32 ∧ n % 2 ^ 32 < 2 ^ 31 := by
  rw [intOfSize_eq]
  split <;> omega

theorem intOfSize_of_pos {n : Nat} (hpos : 0 < intOfSize n) : intOfSize n = (n % 2 ^ 32 : Nat) := by
  rw [intOfSize_eq, if_pos ((intOfSize_pos_iff n).mp hpos).2]

/-- The buffer is a sliding window exactly when its size is an `int`, or the run ends before the
size that is compared instead is reached. -/
theorem runEventLists_isWindow_iff (hpos : 1 ≤ maxSize) (calls : List EventCall) :
    (∃ ES, runEventLists oneof maxSize calls = some ES ∧ IsWindow oneof maxSize calls ES) ↔
      maxSize < 2 ^ 31 ∨ calls = [] ∨
        (maxSize % 2 ^ 32 < 2 ^ 31 ∧ calls.length ≤ maxSize % 2 ^ 32) := by
  by_cases hint : 0 < intOfSize maxSize
  · have hmod := (intOfSize_pos_iff maxSize).mp hint
    have hrun := runEventLists_eq oneof (intOfSize_of_pos hint) hmod.1 calls
    have hwindow := isWindow_rtake_iff oneof calls (Nat.mod_le maxSize (2 ^ 32))
    rw [hrun]
    simp only [Option.some.injEq, exists_eq_left', hwindow]
    constructor
    · rintro (hall | hlength)
      · left
        omega
      · exact .inr (.inr ⟨hmod.2, hlength⟩)
    · rintro (hlt | rfl | ⟨-, hlength⟩)
      · left
        exact Nat.mod_eq_of_lt (by omega)
      · right
        exact Nat.zero_le _
      · exact .inr hlength
  -- the first call has no result
  · have hmod := (intOfSize_pos_iff maxSize).not.mp hint
    cases calls with
    | nil =>
      apply iff_of_true
      · refine ⟨{}, rfl, ?_, ?_, ?_⟩
        · exact (Nat.zero_min _).symm
        · exact (Nat.zero_min _).symm
        · intro i hi
          rw [List.length_nil, Nat.zero_min] at hi
          cases hi
      · exact .inr (.inl rfl)
    | cons call calls =>
      have hrun : runEventLists oneof maxSize (call :: calls) = none := by
        unfold runEventLists
        rw [List.foldlM_cons, run_empty oneof call (by omega)]
        rfl
      rw [hrun]
      apply iff_of_false
      · rintro ⟨ES, hES, -⟩
        cases hES
      · rw [List.length_cons]
        rintro (hlt | hnil | hlength)
        · omega
        · cases hnil
        · omega

/-- A frame without events. -/
def EventCall.quiet (currentFrame : UInt32) : EventCall :=
  ⟨{}, currentFrame, ⟨.empty, .empty, .empty⟩⟩

/-- Three frames in a buffer of two. -/
theorem runEventLists_quiet :
    ∃ ES, runEventLists true 2 [.quiet 10, .quiet 11, .quiet 12] = some ES ∧
      IsWindow true 2 [.quiet 10, .quiet 11, .quiet 12] ES :=
  (runEventLists_isWindow_iff true (by decide) _).mpr (.inl (by decide))

/-- A size of 2^31 is a negative `int`, and the first frame finds the empty buffer full. -/
theorem runEventLists_large :
    (¬∃ ES, runEventLists false (2 ^ 31) [.quiet 10] = some ES ∧
      IsWindow false (2 ^ 31) [.quiet 10] ES) ∧
    ¬∃ ES, runEventLists true (2 ^ 31) [.quiet 10] = some ES ∧
      IsWindow true (2 ^ 31) [.quiet 10] ES := by
  have hrun : ∀ oneof, runEventLists oneof (2 ^ 31) [.quiet 10] = none := by decide
  constructor
  · rintro ⟨ES, hES, -⟩
    rw [hrun] at hES
    cases hES
  · rintro ⟨ES, hES, -⟩
    rw [hrun] at hES
    cases hES

end Ra2yrcpp.StateParser
