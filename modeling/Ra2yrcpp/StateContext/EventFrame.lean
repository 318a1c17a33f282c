import Mathlib.Algebra.Order.Floor.Div
import Mathlib.Order.Bounds.Basic
import Ra2yrcpp.StateContext.AddedEvent

/-!
# The frame of an added event

`add_event` computes the frame in `int`s: the delay of the client is cast and added, or the frame is
rounded up to the next one at which commands are sent.  A negative frame marks an event to be
spoofed.
-/

namespace Ra2yrcpp.StateContext

variable {EventType : Type} [DecidableEq EventType] {Y : YRpp EventType} {g : Game}
  {types : List ObjectTypeClass} {L L' : EventLists EventType} {ev : Event} {frameDelay : UInt32}
  {spoof : Bool}

/-- The frame counter and the network settings of a game, with room for their sum. -/
structure Game.InRange (g : Game) : Prop where
  currentFrame : 0 ≤ g.currentFrame.toInt
  maxAhead : 0 ≤ g.maxAhead.toInt
  frameSendRate : 1 ≤ g.frameSendRate.toInt
  sum : g.frameSendRate.toInt + g.currentFrame.toInt + g.maxAhead.toInt < 2 ^ 31

/-- The frame at which an event is to be executed: the delay counts from the current frame; without
one it is the first frame of the send rate that is far enough ahead. -/
def IsDue (g : Game) (frameDelay : UInt32) (F : Nat) : Prop :=
  if frameDelay = 0 then
    IsLeast {m : Nat | g.frameSendRate.toInt ∣ m ∧ g.currentFrame.toInt + g.maxAhead.toInt ≤ m} F
  else (F : Int) = g.currentFrame.toInt + frameDelay.toNat

/-- A frame, read as a signed number, has the due frame as its magnitude, and the mark as its
sign. -/
structure Scheduled (g : Game) (frameDelay : UInt32) (spoof : Bool) (frame : UInt32) : Prop where
  magnitude : IsDue g frameDelay frame.toInt32.toInt.natAbs
  sign : frame.toInt32.toInt < 0 ↔ spoof = true

/-- The delay does not leave the `int`s, and the mark has something to negate. -/
def Schedulable (g : Game) (frameDelay : UInt32) (spoof : Bool) : Prop :=
  if frameDelay = 0 then spoof = true → 0 < g.currentFrame.toInt + g.maxAhead.toInt
  else
    g.currentFrame.toInt + frameDelay.toNat < 2 ^ 31 ∨
      (g.currentFrame.toInt + frameDelay.toNat = 2 ^ 31 ∧ spoof = true)

/-! ## Signed arithmetic -/

theorem bmod_of_fits {x : Int} (hlo : -2 ^ 31 ≤ x) (hhi : x < 2 ^ 31) : x.bmod (2 ^ 32) = x :=
  Int.bmod_eq_of_le (by omega) (by omega)

theorem toInt_toInt32 (x : UInt32) : x.toInt32.toInt = (x.toNat : Int).bmod (2 ^ 32) :=
  BitVec.toInt_eq_toNat_bmod x.toBitVec

/-- Rounding up by integer division gives the least multiple. -/
theorem isLeast_roundUp {r : Nat} (hr : 0 < r) (n : Nat) :
    IsLeast {m : Nat | r ∣ m ∧ n ≤ m} ((n + r - 1) / r * r) := by
  rw [← Nat.ceilDiv_eq_add_pred_div, Nat.mul_comm]
  constructor
  · exact ⟨Nat.dvd_mul_right r _, (ceilDiv_le_iff_le_mul hr).mp (Nat.le_refl _)⟩
  · rintro m ⟨⟨k, rfl⟩, hm⟩
    exact Nat.mul_le_mul_left r ((ceilDiv_le_iff_le_mul hr).mpr hm)

theorem eventFrame_false (g : Game) (frameDelay : UInt32) :
    eventFrame g frameDelay false =
      if frameDelay = 0 then
        ((g.frameSendRate + g.currentFrame - 1 + g.maxAhead) / g.frameSendRate) * g.frameSendRate
      else g.currentFrame + frameDelay.toInt32 :=
  Int32.mul_one _

theorem eventFrame_true (g : Game) (frameDelay : UInt32) :
    eventFrame g frameDelay true = -eventFrame g frameDelay false := by
  rw [eventFrame_false]
  show _ * -1 = _
  rw [Int32.mul_neg, Int32.mul_one]

/-- The frame that is rounded up, with no sum or product out of range. -/
theorem eventFrame_zero (hg : g.InRange) :
    ∃ F : Nat, (eventFrame g 0 false).toInt = F ∧ F < 2 ^ 31 ∧ IsDue g 0 F := by
  obtain ⟨c, hc⟩ := Int.eq_ofNat_of_zero_le hg.currentFrame
  obtain ⟨a, ha⟩ := Int.eq_ofNat_of_zero_le hg.maxAhead
  obtain ⟨r, hr⟩ := Int.eq_ofNat_of_zero_le (Int.le_trans (by decide) hg.frameSendRate)
  have hpos := hg.frameSendRate
  have hsum := hg.sum
  rw [hc, ha, hr] at hsum
  rw [hr] at hpos
  have hnum : (g.frameSendRate + g.currentFrame - 1 + g.maxAhead).toInt = (c + a + r - 1 : Nat) := by
    have hadd : (g.frameSendRate + g.currentFrame).toInt = r + c := by
      rw [Int32.toInt_add, hr, hc]
      exact bmod_of_fits (by omega) (by omega)
    have hsub : (g.frameSendRate + g.currentFrame - 1).toInt = r + c - 1 := by
      rw [Int32.toInt_sub, hadd, Int32.toInt_one]
      exact bmod_of_fits (by omega) (by omega)
    rw [Int32.toInt_add, hsub, ha, bmod_of_fits (by omega) (by omega)]
    omega
  have hle : (c + a + r - 1) / r * r ≤ c + a + r - 1 := Nat.div_mul_le_self _ _
  have hquot : (c + a + r - 1) / r ≤ c + a + r - 1 := Nat.div_le_self _ _
  have hleast := isLeast_roundUp (r := r) (by omega) (c + a)
  have hdiv : ((g.frameSendRate + g.currentFrame - 1 + g.maxAhead) / g.frameSendRate).toInt =
      (((c + a + r - 1) / r : Nat) : Int).bmod (2 ^ 32) := by
    rw [Int32.toInt_div, hnum, hr, ← Int.ofNat_tdiv]
  generalize (c + a + r - 1) / r = q at hle hquot hleast hdiv
  refine ⟨q * r, ?_, by omega, ?_⟩
  · rw [bmod_of_fits (by omega) (by omega)] at hdiv
    rw [eventFrame_false, if_pos rfl, Int32.toInt_mul, hdiv, hr, ← Int.natCast_mul]
    exact bmod_of_fits (by omega) (by omega)
  · unfold IsDue
    rw [if_pos rfl, hr, hc, ha]
    simp only [Int.natCast_dvd_natCast]
    exact_mod_cast hleast

/-- The delay is cast and added modulo 2^32. -/
theorem eventFrame_delay (g : Game) (hdelay : frameDelay ≠ 0) :
    (eventFrame g frameDelay false).toInt =
      (g.currentFrame.toInt + frameDelay.toNat).bmod (2 ^ 32) := by
  rw [eventFrame_false, if_neg hdelay, Int32.toInt_add, toInt_toInt32, Int.add_bmod_bmod]

/-- Negating keeps the magnitude, also of the least `int`, which stays as it is. -/
theorem scheduled_iff (g : Game) (frameDelay : UInt32) (spoof : Bool) :
    Scheduled g frameDelay spoof (eventFrame g frameDelay spoof).toUInt32 ↔
      IsDue g frameDelay (eventFrame g frameDelay false).toInt.natAbs ∧
        (if spoof then 0 < (eventFrame g frameDelay false).toInt ∨
            (eventFrame g frameDelay false).toInt = -2 ^ 31
          else 0 ≤ (eventFrame g frameDelay false).toInt) := by
  have hlo := Int32.le_toInt (eventFrame g frameDelay false)
  have hhi := Int32.toInt_lt (eventFrame g frameDelay false)
  cases spoof with
  | false =>
    constructor
    · rintro ⟨hmagnitude, hsign⟩
      rw [Int32.toInt32_toUInt32] at hmagnitude hsign
      exact ⟨hmagnitude, Int.not_lt.mp fun h => Bool.noConfusion (hsign.mp h)⟩
    · rintro ⟨hmagnitude, hsign⟩
      refine ⟨hmagnitude, ?_⟩
      rw [Int32.toInt32_toUInt32]
      exact iff_of_false (Int.not_lt.mpr hsign) Bool.false_ne_true
  | true =>
    have hneg : (eventFrame g frameDelay true).toInt.natAbs =
          (eventFrame g frameDelay false).toInt.natAbs ∧
        ((eventFrame g frameDelay true).toInt < 0 ↔ 0 < (eventFrame g frameDelay false).toInt ∨
          (eventFrame g frameDelay false).toInt = -2 ^ 31) := by
      rw [eventFrame_true, Int32.toInt_neg, Int.bmod_def]
      omega
    rw [if_pos rfl, ← hneg.1, ← hneg.2]
    constructor
    · rintro ⟨hmagnitude, hsign⟩
      exact ⟨hmagnitude, hsign.mpr rfl⟩
    · rintro ⟨hmagnitude, hsign⟩
      exact ⟨hmagnitude, iff_of_true hsign rfl⟩

theorem scheduled_eventFrame_iff (hg : g.InRange) (frameDelay : UInt32) (spoof : Bool) :
    Scheduled g frameDelay spoof (eventFrame g frameDelay spoof).toUInt32 ↔
      Schedulable g frameDelay spoof := by
  rw [scheduled_iff]
  unfold Schedulable
  have hcurrent := hg.currentFrame
  have hahead := hg.maxAhead
  by_cases hdelay : frameDelay = 0
  · subst hdelay
    obtain ⟨F, hF, hlt, hdue⟩ := eventFrame_zero hg
    rw [hF, if_pos rfl, Int.natAbs_natCast]
    -- the only frame that cannot be negated is the first one
    have hzero : 0 < F ↔ 0 < g.currentFrame.toInt + g.maxAhead.toInt := by
      have hleast := hdue
      unfold IsDue at hleast
      rw [if_pos rfl] at hleast
      constructor
      · intro hpos
        by_contra hnot
        have hle := hleast.2 (show (0 : Nat) ∈ _ from ⟨Int.dvd_zero _, by omega⟩)
        omega
      · intro hpos
        have hle := hleast.1.2
        omega
    cases spoof with
    | false => exact iff_of_true ⟨hdue, Int.natCast_nonneg _⟩ (fun h => Bool.noConfusion h)
    | true =>
      rw [if_pos rfl, ← hzero]
      constructor
      · rintro ⟨-, hpos⟩ -
        omega
      · intro hpos
        exact ⟨hdue, .inl (by have := hpos rfl; omega)⟩
  · have hpos : 0 < frameDelay.toNat :=
      Nat.pos_of_ne_zero fun h => hdelay (UInt32.toNat_inj.mp h)
    have hlt := frameDelay.toNat_lt
    have hhi := Int32.toInt_lt g.currentFrame
    unfold IsDue
    rw [if_neg hdelay, if_neg hdelay, eventFrame_delay g hdelay, Int.bmod_def]
    cases spoof with
    | false =>
      rw [if_neg Bool.false_ne_true]
      simp only [Bool.false_eq_true, and_false, or_false]
      omega
    | true =>
      rw [if_pos rfl]
      simp only [and_true]
      omega

/-! ## What is written -/

/-- A delay with the highest bit set goes into the past. -/
theorem eventFrame_lt_currentFrame (hg : g.InRange) (hdelay : 2 ^ 31 ≤ frameDelay.toNat) :
    (eventFrame g frameDelay false).toInt < g.currentFrame.toInt := by
  have hcurrent := hg.currentFrame
  have hhi := Int32.toInt_lt g.currentFrame
  have hlt := frameDelay.toNat_lt
  have hne : frameDelay ≠ 0 := by
    rintro rfl
    exact absurd hdelay (by decide)
  rw [eventFrame_delay g hne, Int.bmod_def]
  omega

/-- The event that is given to `AddEvent` has the due frame under the mark exactly when the frame
can be scheduled. -/
theorem addEvent_scheduled_iff (Y : YRpp EventType) (types : List ObjectTypeClass)
    (L : EventLists EventType) (ev : Event) (hg : g.InRange) (frameDelay : UInt32)
    (spoof filterDuplicates : Bool) :
    (∀ L' r, addEvent Y g types L ev frameDelay spoof filterDuplicates = .ok (L', r) →
      Y.addEvent (writtenEvent Y g ev frameDelay spoof) g.timeGetTime.toInt32 L.outList =
        some L'.outList) ∧
    (Scheduled g frameDelay spoof (writtenEvent Y g ev frameDelay spoof).frame ↔
      Schedulable g frameDelay spoof) := by
  constructor
  · intro L' r h
    obtain ⟨out, hadd, rfl, -⟩ := writeEvent_ok (addEvent_ok h)
    exact hadd
  · exact scheduled_eventFrame_iff hg frameDelay spoof

/-- A game whose commands are sent at every fourth frame. -/
def fourthFrame : Game := { currentFrame := 101, maxAhead := 10, frameSendRate := 4 }

/-- The frame 112, negated. -/
theorem addEvent_fourthFrame :
    Scheduled fourthFrame 0 true (writtenEvent yuri fourthFrame placeRequest 0 true).frame ∧
      (writtenEvent yuri fourthFrame placeRequest 0 true).frame.toInt32 = -112 := by
  have hg : fourthFrame.InRange := ⟨by decide, by decide, by decide, by decide⟩
  have hiff := addEvent_scheduled_iff yuri [] oneEvent placeRequest hg 0 true false
  exact ⟨hiff.2.mpr fun _ => by decide, by decide⟩

/-- A delay of 2^32 - 1 frames is one of a frame back, and the frame 0 takes no mark. -/
theorem addEvent_not_scheduled :
    (Game.InRange { currentFrame := 100 } ∧
      (writtenEvent yuri { currentFrame := 100 } placeRequest 0xffffffff false).frame = 99 ∧
      ¬Scheduled { currentFrame := 100 } 0xffffffff false
        (writtenEvent yuri { currentFrame := 100 } placeRequest 0xffffffff false).frame) ∧
    (Game.InRange {} ∧ (writtenEvent yuri {} placeRequest 0 true).frame = 0 ∧
      ¬Scheduled {} 0 true (writtenEvent yuri {} placeRequest 0 true).frame) := by
  refine ⟨⟨⟨by decide, by decide, by decide, by decide⟩, by decide, ?_⟩,
    ⟨by decide, by decide, by decide, by decide⟩, by decide, ?_⟩
  · intro h
    have hdue : (99 : Int) = 100 + 0xffffffff := h.magnitude
    omega
  · intro h
    have hneg : (0 : Int) < 0 := h.sign.mpr rfl
    omega

/-- What the `AddEvent` command leaves in the list is due when the client asked for it. -/
theorem addEventCommand_scheduled {result : AddEventResult} (hY : AddsAtTail Y) (hg : g.InRange)
    (htail : L.outList.tail < 128) (hs : Schedulable g frameDelay spoof)
    (h : addEventCommand Y g types L ev frameDelay spoof = .ok (L', result)) :
    Scheduled g frameDelay spoof (L'.outList.list L.outList.tail).frame := by
  unfold addEventCommand at h
  split at h
  · cases h
  · next L'' E hadd =>
    cases h
    rw [(addEvent_index hY htail hadd).2.1]
    exact (scheduled_eventFrame_iff hg frameDelay spoof).mpr hs

end Ra2yrcpp.StateContext
