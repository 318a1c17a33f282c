import Mathlib.Data.Finset.Card
import Mathlib.Data.Finset.Range
import Mathlib.Logic.Function.Basic
import Mathlib.Tactic.IntervalCases
import Ra2yrcpp.Hook.Detour
import Ra2yrcpp.Reasoning.Transition

/-!
# Releasing a detour

`~Hook` waits until no instruction pointer is in the displaced instructions of the detour and the two
counters are equal.  The threads move through `DetourMain` one instruction at a time while they are
not suspended.
-/

namespace Ra2yrcpp.Hook.Release

open Reasoning Reasoning.X86

/-- `thread_id_t`, a `u32`. -/
abbrev Tid := BitVec 32

/-- Where a thread is, with respect to the detour. -/
inductive Pos
  | outside
  /-- At an offset of the displaced instructions. -/
  | displaced (offset : Nat)
  /-- About to execute the instruction with number `k` of the code behind them. -/
  | hookCode (k : Nat)
  /-- In `Hook::call`, which returns to the instruction with number `k`. -/
  | inCall (k : Nat)
  deriving DecidableEq, Repr

/-- `~Hook`: the trampoline is in place, the threads run, are suspended, and the loop is left. -/
inductive Phase
  | installed
  | waiting
  | suspended
  | left
  deriving DecidableEq, Repr

structure State where
  phase : Phase := .installed
  pos : Tid → Pos := fun _ => .outside
  /-- The words in memory that `lock inc` counts in. -/
  count : Word → Word := fun _ => 0

/-- The offset of an instruction from the start of the detour. -/
def offset (d : Detour) (k : Nat) : Nat := d.codeLength + ((d.hookCode.take k).map Instr.size).sum

def Pos.eip (d : Detour) : Pos → Option Nat
  | .outside | .inCall _ => none
  | .displaced o => some o
  | .hookCode k => some (offset d k)

/-- The instruction pointer is between start and end of the detour. -/
def Pos.InDetour (d : Detour) (p : Pos) : Prop :=
  ∃ o, p.eip d = some o ∧ o < offset d d.hookCode.length

/-- The next instruction of a thread; `next` says where the displaced instructions go, or which of
them the trampoline or a return leads to. -/
def advance (d : Detour) (s : State) (p : Pos) (next : Option Nat) :
    Option (Pos × (Word → Word)) :=
  match p with
  | .outside =>
    match next with
    | none => none
    | some o =>
      if s.phase = .installed ∧ o < d.codeLength then some (.displaced o, s.count) else none
  | .displaced _ =>
    match next with
    | none => some (.outside, s.count)
    | some o =>
      if o < d.codeLength then some (.displaced o, s.count)
      else if o = d.codeLength then some (.hookCode 0, s.count)
      else none
  | .hookCode k =>
    match d.hookCode[k]? with
    | none => none
    | some (.lockInc a) => some (.hookCode (k + 1), Function.update s.count a (s.count a + 1))
    | some .callEax => some (.inCall (k + 1), s.count)
    | some .ret => some (.outside, s.count)
    | some _ => some (.hookCode (k + 1), s.count)
  | .inCall k => some (.hookCode k, s.count)

/-- The loop condition of `~Hook` fails: no other thread is in the first `code_length` bytes, and as
many have left `Hook::call` as have entered it. -/
def ExitCondition (d : Detour) (others : Finset Tid) (s : State) : Prop :=
  (∀ t ∈ others, ∀ o, (s.pos t).eip d = some o → ¬o < d.codeLength) ∧
    s.count d.countEnter = s.count d.countExit

instance (d : Detour) (others : Finset Tid) (s : State) : Decidable (ExitCondition d others s) :=
  have (p : Pos) : Decidable (∀ o, p.eip d = some o → ¬o < d.codeLength) :=
    match p.eip d with
    | none => isTrue nofun
    | some o =>
      decidable_of_iff (¬o < d.codeLength)
        ⟨fun hlt _ ho => Option.some.inj ho ▸ hlt, fun hall => hall o rfl⟩
  -- not the instance that goes through all the bit vectors
  have : Decidable (∀ t ∈ others, ∀ o, (s.pos t).eip d = some o → ¬o < d.codeLength) :=
    Finset.decidableDforallFinset
  inferInstanceAs (Decidable (_ ∧ _))

inductive Action
  | move (t : Tid) (next : Option Nat)
  /-- `patch_code_safe` has written the original code back. -/
  | restore
  | suspend
  | check
  deriving DecidableEq, Repr

def step (d : Detour) (others : Finset Tid) (s : State) : Action → Option State
  | .move t next =>
    if t ∈ others ∧ (s.phase = .installed ∨ s.phase = .waiting) then
      (advance d s (s.pos t) next).map fun r =>
        { s with pos := Function.update s.pos t r.1, count := r.2 }
    else none
  | .restore => if s.phase = .installed then some { s with phase := .waiting } else none
  | .suspend => if s.phase = .waiting then some { s with phase := .suspended } else none
  | .check =>
    if s.phase = .suspended then
      some { s with phase := if ExitCondition d others s then .left else .waiting }
    else none

def initial : State := {}

/-! ## The counters -/

/-- Between the two increments. -/
def Pos.Counted (p : Pos) : Prop := p = .hookCode 5 ∨ p = .hookCode 6 ∨ p = .inCall 6

instance : DecidablePred Pos.Counted := fun _ => inferInstanceAs (Decidable (_ ∨ _ ∨ _))

/-- Behind the displaced instructions and before the first increment, or after the second. -/
def Pos.Uncounted : Pos → Prop
  | .hookCode k => k ≤ 4 ∨ 7 ≤ k
  | _ => False

instance : DecidablePred Pos.Uncounted
  | .outside | .displaced _ | .inCall _ => isFalse id
  | .hookCode k => inferInstanceAs (Decidable (k ≤ 4 ∨ 7 ≤ k))

def counted (others : Finset Tid) (s : State) : Finset Tid :=
  others.filter fun t => (s.pos t).Counted

/-- Positions that the code can reach. -/
def Pos.Valid (d : Detour) : Pos → Prop
  | .outside => True
  | .displaced o => o < d.codeLength
  | .hookCode k => k < 12
  | .inCall k => k = 6

structure Inv (d : Detour) (others : Finset Tid) (s : State) : Prop where
  valid : ∀ t, (s.pos t).Valid d
  balance : s.count d.countEnter =
    s.count d.countExit + BitVec.ofNat 32 (counted others s).card
  exited : s.phase = .left → ExitCondition d others s

theorem inv_initial (d : Detour) (others : Finset Tid) : Inv d others initial where
  valid _ := trivial
  balance := by simp [initial, counted, Pos.Counted]
  exited := nofun

/-- The only instructions that count are the fifth and the seventh. -/
theorem advance_cases {d : Detour} {s : State} {p p' : Pos} {next : Option Nat}
    {count' : Word → Word} (hp : p.Valid d) (h : advance d s p next = some (p', count')) :
    p'.Valid d ∧
      ((count' = s.count ∧ (p'.Counted ↔ p.Counted)) ∨
        (p = .hookCode 4 ∧ p' = .hookCode 5 ∧
          count' = Function.update s.count d.countEnter (s.count d.countEnter + 1)) ∨
        (p = .hookCode 6 ∧ p' = .hookCode 7 ∧
          count' = Function.update s.count d.countExit (s.count d.countExit + 1))) := by
  cases p with
  | outside =>
    simp only [advance] at h
    split at h
    · cases h
    · obtain ⟨⟨-, ho⟩, h⟩ := Option.ite_none_right_eq_some.mp h
      cases h
      exact ⟨ho, .inl ⟨rfl, by simp [Pos.Counted]⟩⟩
  | displaced o =>
    simp only [advance] at h
    split at h
    · cases h
      exact ⟨trivial, .inl ⟨rfl, by simp [Pos.Counted]⟩⟩
    · split at h
      · next ho =>
        cases h
        exact ⟨ho, .inl ⟨rfl, by simp [Pos.Counted]⟩⟩
      · obtain ⟨-, h⟩ := Option.ite_none_right_eq_some.mp h
        cases h
        exact ⟨Nat.succ_pos 11, .inl ⟨rfl, by simp [Pos.Counted]⟩⟩
  | hookCode k =>
    have hk : k < 12 := hp
    interval_cases k <;> simp only [advance, Detour.hookCode] at h <;> cases h
    all_goals
      refine ⟨by simp [Pos.Valid], ?_⟩
      first
      | exact .inl ⟨rfl, by decide⟩
      | exact .inr (.inl ⟨rfl, rfl, rfl⟩)
      | exact .inr (.inr ⟨rfl, rfl, rfl⟩)
  | inCall k =>
    have hk : k = 6 := hp
    subst hk
    cases h
    exact ⟨by simp [Pos.Valid], .inl ⟨rfl, by decide⟩⟩

section Balance

variable {others : Finset Tid} {s : State} {t : Tid} {p : Pos} (count' : Word → Word)

theorem counted_move_same (hp : p.Counted ↔ (s.pos t).Counted) :
    counted others { s with pos := Function.update s.pos t p, count := count' } =
      counted others s := by
  apply Finset.filter_congr
  intro u _
  by_cases hu : u = t
  · subst hu
    simp [hp]
  · simp [hu]

theorem card_counted_enter (ht : t ∈ others) (hold : ¬(s.pos t).Counted) (hnew : p.Counted) :
    (counted others { s with pos := Function.update s.pos t p, count := count' }).card =
      (counted others s).card + 1 := by
  have hinsert : counted others { s with pos := Function.update s.pos t p, count := count' } =
      insert t (counted others s) := by
    ext u
    by_cases hu : u = t
    · subst hu
      simp [counted, ht, hnew]
    · simp [counted, hu]
  have hnotin : t ∉ counted others s := by simp [counted, hold]
  rw [hinsert, Finset.card_insert_of_notMem hnotin]

theorem card_counted_leave (ht : t ∈ others) (hold : (s.pos t).Counted) (hnew : ¬p.Counted) :
    (counted others { s with pos := Function.update s.pos t p, count := count' }).card + 1 =
      (counted others s).card := by
  have herase : counted others { s with pos := Function.update s.pos t p, count := count' } =
      (counted others s).erase t := by
    ext u
    by_cases hu : u = t
    · subst hu
      simp [counted, hnew]
    · simp [counted, hu]
  have hin : t ∈ counted others s := by simp [counted, ht, hold]
  rw [herase, Finset.card_erase_add_one hin]

end Balance

theorem inv_move {d : Detour} {others : Finset Tid} {s s' : State} {t : Tid} {next : Option Nat}
    (hne : d.countEnter ≠ d.countExit) (hs : Inv d others s)
    (h : step d others s (.move t next) = some s') : Inv d others s' := by
  obtain ⟨⟨ht, hphase⟩, h⟩ := Option.ite_none_right_eq_some.mp h
  obtain ⟨⟨p, count'⟩, hadv, rfl⟩ := Option.map_eq_some_iff.mp h
  obtain ⟨hvalid, hcases⟩ := advance_cases (hs.valid t) hadv
  refine ⟨?_, ?_, ?_⟩
  · intro u
    by_cases hu : u = t
    · subst hu
      simpa using hvalid
    · simpa [hu] using hs.valid u
  · rcases hcases with ⟨rfl, hiff⟩ | ⟨hold, rfl, rfl⟩ | ⟨hold, rfl, rfl⟩
    · rw [counted_move_same _ hiff]
      exact hs.balance
    · rw [card_counted_enter _ ht (by rw [hold]; decide) (.inl rfl)]
      simp only [Function.update_self, Function.update_of_ne hne.symm, hs.balance]
      bv_omega
    · have hcard := card_counted_leave
        (Function.update s.count d.countExit (s.count d.countExit + 1)) ht (by rw [hold]; decide)
        (show ¬(Pos.hookCode 7).Counted by decide)
      simp only [Function.update_self, Function.update_of_ne hne, hs.balance, ← hcard]
      bv_omega
  · intro hleft
    rcases hphase with hphase | hphase <;> cases hphase.symm.trans hleft

theorem inv_step {d : Detour} {others : Finset Tid} {s s' : State} {a : Action}
    (hne : d.countEnter ≠ d.countExit) (hs : Inv d others s) (h : step d others s a = some s') :
    Inv d others s' := by
  cases a with
  | move t next => exact inv_move hne hs h
  | restore =>
    obtain ⟨-, h⟩ := Option.ite_none_right_eq_some.mp h
    obtain rfl := Option.some.inj h
    exact ⟨hs.valid, hs.balance, nofun⟩
  | suspend =>
    obtain ⟨-, h⟩ := Option.ite_none_right_eq_some.mp h
    obtain rfl := Option.some.inj h
    exact ⟨hs.valid, hs.balance, nofun⟩
  | check =>
    obtain ⟨-, h⟩ := Option.ite_none_right_eq_some.mp h
    obtain rfl := Option.some.inj h
    generalize hphase : (if ExitCondition d others s then Phase.left else Phase.waiting) = phase
    refine ⟨hs.valid, hs.balance, fun hleft => ?_⟩
    by_cases hexit : ExitCondition d others s
    · exact hexit
    · rw [if_neg hexit] at hphase
      cases hphase.trans hleft

/-! ## Leaving the loop -/

theorem card_lt_of_notMem {S : Finset Tid} {mainTid : Tid} (h : mainTid ∉ S) :
    S.card < 4294967296 := by
  have hsub : S.image BitVec.toNat ⊆ (Finset.range 4294967296).erase mainTid.toNat := by
    intro n hn
    obtain ⟨t, ht, rfl⟩ := Finset.mem_image.mp hn
    have hne : t.toNat ≠ mainTid.toNat := fun heq => h (BitVec.eq_of_toNat_eq heq ▸ ht)
    exact Finset.mem_erase.mpr ⟨hne, Finset.mem_range.mpr t.isLt⟩
  have hcard := Finset.card_le_card hsub
  rw [Finset.card_image_of_injective S fun _ _ => BitVec.eq_of_toNat_eq,
    Finset.card_erase_of_mem (Finset.mem_range.mpr mainTid.isLt), Finset.card_range] at hcard
  omega

/-- With equal counters nobody is between the increments: fewer than `2 ^ 32` threads cannot make
them equal by overflow. -/
theorem not_counted_of_exitCondition {d : Detour} {others : Finset Tid} {s : State} {mainTid t : Tid}
    (hmain : mainTid ∉ others) (hs : Inv d others s) (hexit : ExitCondition d others s)
    (ht : t ∈ others) : ¬(s.pos t).Counted := by
  intro hcounted
  have hpos : 0 < (counted others s).card :=
    Finset.card_pos.mpr ⟨t, Finset.mem_filter.mpr ⟨ht, hcounted⟩⟩
  have hlt : (counted others s).card < 4294967296 :=
    card_lt_of_notMem fun h => hmain (Finset.mem_filter.mp h).1
  have hbalance := hs.balance
  rw [hexit.2] at hbalance
  bv_omega

theorem offset_lt (d : Detour) {k : Nat} (hk : k < 12) :
    d.codeLength ≤ offset d k ∧ offset d k < offset d d.hookCode.length := by
  unfold offset Detour.hookCode
  interval_cases k <;> simp [Instr.size]

/-- When `~Hook` leaves its loop, no instruction pointer is in the detour exactly when no thread is
behind the displaced instructions without being counted. -/
theorem left_detour_empty_iff {d : Detour} {others : Finset Tid} {mainTid : Tid} {s : State}
    {acts : List Action} (hne : d.countEnter ≠ d.countExit) (hmain : mainTid ∉ others)
    (hrun : run (step d others) initial acts = some s) (hleft : s.phase = .left) :
    (∀ t ∈ others, ¬(s.pos t).InDetour d) ↔ ∀ t ∈ others, ¬(s.pos t).Uncounted := by
  have hs : Inv d others s :=
    run_invariant (fun _ _ _ hs h => inv_step hne hs h) (inv_initial d others) hrun
  have hexit := hs.exited hleft
  refine forall₂_congr fun t ht => not_congr ?_
  have hvalid := hs.valid t
  have hcounted := not_counted_of_exitCondition hmain hs hexit ht
  have hdisplaced := hexit.1 t ht
  cases hpos : s.pos t with
  | outside => exact iff_of_false (fun ⟨_, h, _⟩ => nomatch h) id
  | inCall k => exact iff_of_false (fun ⟨_, h, _⟩ => nomatch h) id
  | displaced o =>
    rw [hpos] at hvalid hdisplaced
    exact absurd hvalid (hdisplaced o rfl)
  | hookCode k =>
    rw [hpos] at hvalid hcounted
    refine iff_of_true ⟨_, rfl, (offset_lt d hvalid).2⟩ ?_
    -- the two instructions left out are those between the increments
    show k ≤ 4 ∨ 7 ≤ k
    by_contra hk
    have hcases : k = 5 ∨ k = 6 := by omega
    rcases hcases with rfl | rfl
    · exact hcounted (.inl rfl)
    · exact hcounted (.inr (.inl rfl))

/-- A thread goes through the hook while `~Hook` waits for it. -/
def leavesInTime : List Action :=
  [.move 1 (some 0), .restore, .move 1 (some 8)] ++ List.replicate 5 (.move 1 none) ++
    [.suspend, .check] ++ List.replicate 8 (.move 1 none) ++ [.suspend, .check]

theorem leavesInTime_isSome :
    (run (step (sampleDetour 0x20040) {1}) initial leavesInTime).isSome := by
  decide +kernel

theorem leavesInTime_detour_empty :
    ∃ s, run (step (sampleDetour 0x20040) {1}) initial leavesInTime = some s ∧ s.phase = .left ∧
      ∀ t ∈ ({1} : Finset Tid), ¬(s.pos t).InDetour (sampleDetour 0x20040) := by
  have hrun := (Option.some_get leavesInTime_isSome).symm
  have hleft : (Option.get _ leavesInTime_isSome).phase = .left := by decide +kernel
  have hpos : ¬((Option.get _ leavesInTime_isSome).pos 1).Uncounted := by decide +kernel
  have hmain : (0 : Tid) ∉ ({1} : Finset Tid) := by decide
  refine ⟨_, hrun, hleft, ?_⟩
  apply (left_detour_empty_iff (by decide) hmain hrun hleft).mpr
  intro t ht
  rw [Finset.mem_singleton.mp ht]
  exact hpos

/-- A thread has run the displaced instructions and is suspended before it saves the registers. -/
def suspendedAtPushad : List Action :=
  [.move 1 (some 0), .restore, .move 1 (some 8), .suspend, .check]

theorem suspendedAtPushad_isSome :
    (run (step (sampleDetour 0x20040) {1}) initial suspendedAtPushad).isSome := by
  decide +kernel

theorem suspendedAtPushad_in_detour :
    ∃ s, run (step (sampleDetour 0x20040) {1}) initial suspendedAtPushad = some s ∧
      s.phase = .left ∧ (s.pos 1).InDetour (sampleDetour 0x20040) := by
  have hrun := (Option.some_get suspendedAtPushad_isSome).symm
  refine ⟨_, hrun, ?_, 8, ?_, ?_⟩ <;> decide +kernel

end Ra2yrcpp.Hook.Release
