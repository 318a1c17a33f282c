import Mathlib.Data.List.DropRight

/-!
# Sliding windows

A buffer that takes in one entry after the other, and gives up its first one when it is full.
-/

namespace Ra2yrcpp.Reasoning

variable {α : Type*}

/-- A window of `n` entries takes in one more. -/
def slide (n : Nat) (w : List α) (x : α) : List α :=
  (if n ≤ w.length then w.tail else w) ++ [x]

theorem length_rtake (l : List α) (n : Nat) : (l.rtake n).length = min l.length n := by
  unfold List.rtake
  rw [List.length_drop]
  omega

theorem getElem?_rtake (l : List α) (n i : Nat) : (l.rtake n)[i]? = l[l.length - n + i]? :=
  List.getElem?_drop

/-- The last entries slide to the last entries. -/
theorem slide_rtake {n : Nat} (hpos : 0 < n) (l : List α) (x : α) :
    slide n (l.rtake n) x = (l ++ [x]).rtake n := by
  obtain ⟨n, rfl⟩ := Nat.exists_eq_add_of_lt hpos
  rw [Nat.zero_add, List.rtake_concat_succ]
  unfold slide
  rw [length_rtake]
  congr 1
  by_cases hfull : n + 1 ≤ l.length
  -- the first of `n + 1` entries goes
  · have hnext : l.length - (n + 1) + 1 = l.length - n := by omega
    rw [if_pos (by omega)]
    unfold List.rtake
    rw [List.tail_drop, hnext]
  -- there was room
  · have hall : l.length - (n + 1) = 0 := by omega
    have hall' : l.length - n = 0 := by omega
    rw [if_neg (by omega)]
    unfold List.rtake
    rw [hall, hall']

end Ra2yrcpp.Reasoning
