import Mathlib.Data.List.Basic

/-!
# Writing and reading ranges of a memory

A memory is a function from addresses; `write` replaces the bytes from an address on by a list, and
`read` lists the bytes of a range.
-/

namespace Ra2yrcpp.Reasoning

variable {β : Type*}

def write (m : Nat → β) (a : Nat) (bs : List β) : Nat → β :=
  fun x => if a ≤ x then (bs[x - a]?).getD (m x) else m x

def read (m : Nat → β) (a n : Nat) : List β := (List.range n).map fun i => m (a + i)

variable {m m' : Nat → β} {a b n x i : Nat} {bs : List β}

@[simp] theorem length_read : (read m a n).length = n := by simp [read]

theorem write_of_lt (h : x < a) : write m a bs x = m x := if_neg (Nat.not_le.mpr h)

theorem write_of_le (h : a + bs.length ≤ x) : write m a bs x = m x := by
  unfold write
  split
  · rw [List.getElem?_eq_none (by omega), Option.getD_none]
  · rfl

theorem write_of_outside (h : ¬(a ≤ x ∧ x < a + bs.length)) : write m a bs x = m x := by
  by_cases hlt : x < a
  · exact write_of_lt hlt
  · exact write_of_le (by omega)

theorem write_add (h : i < bs.length) : write m a bs (a + i) = bs[i] := by
  unfold write
  rw [if_pos (Nat.le_add_right a i), Nat.add_sub_cancel_left, List.getElem?_eq_getElem h,
    Option.getD_some]

theorem read_congr (h : ∀ x, a ≤ x → x < a + n → m x = m' x) : read m a n = read m' a n := by
  unfold read
  apply List.map_congr_left
  intro i hi
  rw [List.mem_range] at hi
  exact h (a + i) (by omega) (by omega)

theorem read_write_disjoint (h : a + bs.length ≤ b ∨ b + n ≤ a) :
    read (write m a bs) b n = read m b n := by
  apply read_congr
  intro x hle hlt
  rcases h with h | h
  · exact write_of_le (by omega)
  · exact write_of_lt (by omega)

theorem read_write_same : read (write m a bs) a bs.length = bs := by
  apply List.ext_getElem length_read
  intro i h _
  rw [length_read] at h
  simp only [read, List.getElem_map, List.getElem_range]
  exact write_add h

theorem getElem?_read (h : i < n) : (read m a n)[i]? = some (m (a + i)) := by
  simp [read, h]

/-- Writing a saved range back restores it. -/
theorem write_read_apply (hle : a ≤ x) (hlt : x < a + n) : write m' a (read m a n) x = m x := by
  obtain ⟨i, rfl⟩ := Nat.exists_eq_add_of_le hle
  have hi : i < (read m a n).length := by
    rw [length_read]
    omega
  have hget := getElem?_read (m := m) (a := a) (show i < n by omega)
  rw [write_add hi, ← Option.some_inj, ← List.getElem?_eq_getElem, hget]

end Ra2yrcpp.Reasoning
