import Mathlib.Data.List.Basic

/-!
# Numerals

Numbers written in a base and read back, and runs of characters in a text.
-/

namespace Ra2yrcpp.Reasoning

/-- The number that the digits stand for, the first one the most significant. -/
def numeral (value : Char → Option Nat) (b : Nat) (cs : List Char) : Nat :=
  cs.foldl (fun n c => b * n + (value c).getD 0) 0

section Digits

variable {value : Char → Option Nat} {b : Nat}

theorem numeral_append_singleton (cs : List Char) (c : Char) :
    numeral value b (cs ++ [c]) = b * numeral value b cs + (value c).getD 0 := by
  rw [numeral, List.foldl_append]
  rfl

theorem numeral_zeros (hzero : value '0' = some 0) (k : Nat) (cs : List Char) :
    numeral value b (List.replicate k '0' ++ cs) = numeral value b cs := by
  induction k with
  | zero => rfl
  | succ k ih =>
    rw [List.replicate_succ, List.cons_append, numeral, List.foldl_cons, hzero, Nat.mul_zero]
    exact ih

theorem numeral_toDigits (hb : 1 < b) (hvalue : ∀ d < b, value d.digitChar = some d) (n : Nat) :
    numeral value b (Nat.toDigits b n) = n := by
  induction n using Nat.strongRecOn with
  | ind n ih =>
    by_cases hlt : n < b
    · rw [Nat.toDigits_of_lt_base hlt]
      show b * 0 + (value n.digitChar).getD 0 = n
      rw [hvalue n hlt, Nat.mul_zero, Nat.zero_add, Option.getD_some]
    · have hle : b ≤ n := Nat.le_of_not_lt hlt
      have hdiv : n / b < n := Nat.div_lt_self (by omega) hb
      have hmod : n % b < b := Nat.mod_lt n (by omega)
      rw [Nat.toDigits_of_base_le hb hle, numeral_append_singleton, ih (n / b) hdiv,
        hvalue (n % b) hmod, Option.getD_some, Nat.div_add_mod]

theorem exists_digit_of_mem (hb : 1 < b) {n : Nat} {c : Char} (hc : c ∈ Nat.toDigits b n) :
    ∃ d < b, c = d.digitChar := by
  induction n using Nat.strongRecOn with
  | ind n ih =>
    by_cases hlt : n < b
    · rw [Nat.toDigits_of_lt_base hlt, List.mem_singleton] at hc
      exact ⟨n, hlt, hc⟩
    · have hle : b ≤ n := Nat.le_of_not_lt hlt
      rw [Nat.toDigits_of_base_le hb hle, List.mem_append, List.mem_singleton] at hc
      rcases hc with hc | hc
      · exact ih (n / b) (Nat.div_lt_self (by omega) hb) hc
      · exact ⟨n % b, Nat.mod_lt n (by omega), hc⟩

end Digits

/-! ## Runs -/

section Runs

variable {α : Type} {p : α → Bool} {w rest : List α} {c : α}

/-- A run of the characters that satisfy `p` ends at the first one that does not. -/
theorem takeWhile_run (hw : ∀ x ∈ w, p x = true) (hc : p c = false) :
    (w ++ c :: rest).takeWhile p = w := by
  rw [List.takeWhile_append_of_pos hw, List.takeWhile_cons_of_neg (by rw [hc]; decide),
    List.append_nil]

theorem dropWhile_run (hw : ∀ x ∈ w, p x = true) (hc : p c = false) :
    (w ++ c :: rest).dropWhile p = c :: rest := by
  rw [List.dropWhile_append_of_pos hw, List.dropWhile_cons_of_neg (by rw [hc]; decide)]

theorem takeWhile_all (hw : ∀ x ∈ w, p x = true) : w.takeWhile p = w := by
  have h : (w ++ []).takeWhile p = w ++ [].takeWhile p := List.takeWhile_append_of_pos hw
  rw [List.append_nil, List.takeWhile_nil, List.append_nil] at h
  exact h

end Runs

end Ra2yrcpp.Reasoning
