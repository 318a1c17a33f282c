import Mathlib.Data.List.Basic
import Mathlib.Tactic.Common

/-!
# Hook::call

The loop over the callbacks of a hook, which erases the ones that have been called `max_calls` times
while it goes through them.  The functions work on a state of their own, which stands for the
registers and for everything else but the list of the hook, and they return.
-/

namespace Ra2yrcpp.Hook

variable {σ : Type*}

/-- `Hook::HookCallback`; `user_data` is a part of `func`. -/
structure HookCallback (σ : Type*) where
  func : σ → σ
  calls : UInt32 := 0
  maxCalls : UInt32 := 0
  name : String := ""

/-- `c.calls += 1`. -/
def HookCallback.count (c : HookCallback σ) : HookCallback σ := { c with calls := c.calls + 1 }

def HookCallback.expired (c : HookCallback σ) : Bool := decide (0 < c.maxCalls ∧ c.maxCalls ≤ c.calls)

/-- The list, the state, and the callbacks that have been invoked, as they were before. -/
structure CallState (σ : Type*) where
  callbacks : List (HookCallback σ)
  state : σ
  invoked : List (HookCallback σ)

/-- The loop at index `i` with `off` callbacks erased; `none` where `at` throws.  It takes as many
rounds as the fuel allows. -/
def callLoop : Nat → Nat → Nat → CallState σ → Option (CallState σ)
  | 0, _, _, r => some r
  | fuel + 1, i, off, r =>
    if i < r.callbacks.length then
      let ix := i - off
      match r.callbacks[ix]? with
      | none => none
      | some c =>
        if c.count.expired then
          callLoop fuel (i + 1) (off + 1)
            ⟨r.callbacks.eraseIdx ix, c.func r.state, r.invoked ++ [c]⟩
        else
          callLoop fuel (i + 1) off
            ⟨r.callbacks.set ix c.count, c.func r.state, r.invoked ++ [c]⟩
    else some r

/-- `Hook::call`.  The index grows in each round and the list does not, so its length is enough fuel
for the loop to end. -/
def call (C : List (HookCallback σ)) (s : σ) : Option (CallState σ) :=
  callLoop C.length 0 0 ⟨C, s, []⟩

/-! ## What the loop reaches -/

/-- The callbacks of the rest of the list that the loop gets to, with `off` erased before them. -/
def reached : Nat → List (HookCallback σ) → List (HookCallback σ)
  | _, [] => []
  | off, c :: C =>
    if off < C.length + 1 then c :: reached (if c.count.expired then off + 1 else off) C else []

/-- What stays of callbacks that have been invoked. -/
def kept (C : List (HookCallback σ)) : List (HookCallback σ) :=
  (C.map HookCallback.count).filter fun c => !c.expired

variable {c : HookCallback σ} {C K : List (HookCallback σ)} {off : Nat}

theorem kept_of_expired (h : c.count.expired = true) : kept (c :: C) = kept C := by
  simp [kept, h]

theorem kept_of_not_expired (h : c.count.expired = false) : kept (c :: C) = c.count :: kept C := by
  simp [kept, h]

/-- The callbacks that stay are in front of the index and the ones to come behind it, so `i - off`
is where the next one is. -/
theorem callLoop_eq (fuel : Nat) (hfuel : C.length ≤ fuel) (off : Nat)
    (K log : List (HookCallback σ)) (s : σ) :
    callLoop fuel (K.length + off) off ⟨K ++ C, s, log⟩ =
      some ⟨K ++ kept (reached off C) ++ C.drop (reached off C).length,
        (reached off C).foldl (fun s c => c.func s) s, log ++ reached off C⟩ := by
  induction C generalizing fuel off K log s with
  | nil =>
    have hend : callLoop fuel (K.length + off) off ⟨K ++ [], s, log⟩ = some ⟨K ++ [], s, log⟩ := by
      cases fuel with
      | zero => rfl
      | succ fuel =>
        unfold callLoop
        rw [if_neg (by simp)]
    rw [hend]
    simp [reached, kept]
  | cons c C ih =>
    cases fuel with
    | zero => simp at hfuel
    | succ fuel =>
      have hC : C.length ≤ fuel := by simpa using hfuel
      have hlen : (K ++ c :: C).length = K.length + (C.length + 1) := by simp
      unfold callLoop
      by_cases hoff : off < C.length + 1
      · have hget : (K ++ c :: C)[K.length + off - off]? = some c := by simp
        rw [if_pos (by rw [hlen]; omega)]
        simp only [hget]
        by_cases hexp : c.count.expired
        · have herase : (K ++ c :: C).eraseIdx (K.length + off - off) = K ++ C := by
            rw [Nat.add_sub_cancel, List.eraseIdx_append_of_length_le (Nat.le_refl _), Nat.sub_self]
            rfl
          have hrec := ih fuel hC (off + 1) K (log ++ [c]) (c.func s)
          rw [if_pos hexp, herase, Nat.add_assoc, hrec]
          simp [reached, hoff, hexp, kept_of_expired hexp]
        · have hexp' : c.count.expired = false := by simpa using hexp
          have hset : (K ++ c :: C).set (K.length + off - off) c.count = K ++ [c.count] ++ C := by
            simp
          have hrec := ih fuel hC off (K ++ [c.count]) (log ++ [c]) (c.func s)
          have hix : K.length + off + 1 = (K ++ [c.count]).length + off := by
            rw [List.length_append, List.length_singleton]
            omega
          rw [if_neg hexp, hset, hix, hrec]
          simp [reached, hoff, hexp', kept_of_not_expired hexp']
      · rw [if_neg (by rw [hlen]; omega)]
        simp [reached, hoff, kept]

/-- `Hook::call` invokes the callbacks that the loop reaches and leaves the others as they were. -/
theorem call_eq (C : List (HookCallback σ)) (s : σ) :
    call C s = some ⟨kept (reached 0 C) ++ C.drop (reached 0 C).length,
      (reached 0 C).foldl (fun s c => c.func s) s, reached 0 C⟩ :=
  callLoop_eq C.length (Nat.le_refl _) 0 [] [] s

/-- Every callback that was erased costs one at the end of the list. -/
theorem reached_eq_iff (off : Nat) (C : List (HookCallback σ)) :
    reached off C = C ↔ C = [] ∨ off = 0 ∧ ∀ c ∈ C.dropLast, c.count.expired = false := by
  induction C generalizing off with
  | nil => simp [reached]
  | cons c C ih =>
    rw [reached]
    by_cases hoff : off < C.length + 1
    · rw [if_pos hoff, List.cons.injEq, and_iff_right rfl, ih]
      cases C with
      | nil =>
        have hzero : off = 0 := by simpa using hoff
        simp [hzero]
      | cons d D =>
        by_cases hexp : c.count.expired
        · simp [hexp]
        · simp [hexp]
    · rw [if_neg hoff]
      have hpos : off ≠ 0 := by omega
      simp [hpos]

/-! ## Calling all of them -/

/-- Each callback of the list is invoked once, in the order of the list, and counted; those that
have expired are removed and the others stay. -/
structure InvokesAll (C : List (HookCallback σ)) (s : σ) (r : CallState σ) : Prop where
  invoked : r.invoked = C
  state : r.state = C.foldl (fun s c => c.func s) s
  callbacks : r.callbacks = kept C

/-- A call reaches all callbacks unless one before the last expires in it. -/
theorem call_invokesAll_iff (C : List (HookCallback σ)) (s : σ) :
    (∃ r, call C s = some r ∧ InvokesAll C s r) ↔ ∀ c ∈ C.dropLast, c.count.expired = false := by
  have hC : (∀ c ∈ C.dropLast, c.count.expired = false) ↔ reached 0 C = C := by
    rw [reached_eq_iff]
    cases C <;> simp
  rw [hC, call_eq]
  constructor
  · intro ⟨r, hr, h⟩
    rw [← Option.some.inj hr] at h
    exact h.invoked
  · intro h
    rw [h]
    exact ⟨_, rfl, rfl, rfl, by simp⟩

/-- The first callback is to be called once; the second is not called. -/
theorem expiringFirst_hides_second :
    ¬∃ r, call [⟨fun s => s ++ [1], 0, 1, "once"⟩, ⟨fun s => s ++ [2], 0, 0, "always"⟩] ([] : List Nat) =
        some r ∧
      InvokesAll [⟨fun s => s ++ [1], 0, 1, "once"⟩, ⟨fun s => s ++ [2], 0, 0, "always"⟩] [] r := by
  intro ⟨r, hr, h⟩
  have hstate : r.state = [1] := by
    rw [← Option.some.inj hr]
    rfl
  rw [h.state] at hstate
  exact absurd hstate (by decide)

end Ra2yrcpp.Hook
