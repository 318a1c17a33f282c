import Mathlib.Data.List.Basic

/-!
# Pieces of a list

Ranges of indices, the part of a list at a range, and a list with a part replaced.
-/

namespace Ra2yrcpp.Reasoning

variable {α : Type}

/-- The ranges of `n` numbers from `a` on and of `m` numbers from `b` on have none in common. -/
def Apart (a n b m : Nat) : Prop := n = 0 ∨ m = 0 ∨ a + n ≤ b ∨ b + m ≤ a

instance (a n b m : Nat) : Decidable (Apart a n b m) := inferInstanceAs (Decidable (_ ∨ _ ∨ _ ∨ _))

theorem apart_iff {a n b m : Nat} :
    Apart a n b m ↔ ∀ x, a ≤ x → x < a + n → b ≤ x → ¬x < b + m := by
  constructor
  · intro h x
    unfold Apart at h
    omega
  · intro h
    have hmax := h (max a b)
    unfold Apart
    omega

theorem Apart.symm {a n b m : Nat} (h : Apart a n b m) : Apart b m a n := by
  unfold Apart at *
  omega

/-- The `n` elements from index `i` on. -/
def window (b : List α) (i n : Nat) : List α := (b.drop i).take n

/-- The elements from index `i` on replaced by those of `c`. -/
def splice (b : List α) (i : Nat) (c : List α) : List α := b.take i ++ c ++ b.drop (i + c.length)

theorem getElem?_window (b : List α) (i n k : Nat) :
    (window b i n)[k]? = if k < n then b[i + k]? else none := by
  rw [window, List.getElem?_take, List.getElem?_drop]

theorem length_window {b : List α} {i n : Nat} (h : i + n ≤ b.length) :
    (window b i n).length = n := by
  rw [window, List.length_take, List.length_drop]
  omega

theorem window_congr {b b' : List α} {i n : Nat}
    (h : ∀ x, i ≤ x → x < i + n → b[x]? = b'[x]?) : window b i n = window b' i n := by
  apply List.ext_getElem?
  intro k
  rw [getElem?_window, getElem?_window]
  by_cases hk : k < n
  · rw [if_pos hk, if_pos hk]
    exact h (i + k) (Nat.le_add_right i k) (Nat.add_lt_add_left hk i)
  · rw [if_neg hk, if_neg hk]

section Splice

variable {b d : List α} {i : Nat}

theorem length_splice (h : i + d.length ≤ b.length) : (splice b i d).length = b.length := by
  rw [splice, List.length_append, List.length_append, List.length_take, List.length_drop]
  omega

theorem getElem?_splice_of_mem (h : i + d.length ≤ b.length) {x : Nat} (hi : i ≤ x)
    (hx : x < i + d.length) : (splice b i d)[x]? = d[x - i]? := by
  have htake : (b.take i).length = i := by
    rw [List.length_take]
    omega
  rw [splice, List.append_assoc, List.getElem?_append_right (by omega), htake,
    List.getElem?_append_left (by omega)]

theorem getElem?_splice_of_not_mem (h : i + d.length ≤ b.length) {x : Nat}
    (hx : ¬(i ≤ x ∧ x < i + d.length)) : (splice b i d)[x]? = b[x]? := by
  have htake : (b.take i).length = i := by
    rw [List.length_take]
    omega
  by_cases hlt : x < i
  · rw [splice, List.append_assoc, List.getElem?_append_left (by omega),
      List.getElem?_take_of_lt hlt]
  · have hback : i + d.length + (x - i - d.length) = x := by omega
    rw [splice, List.append_assoc, List.getElem?_append_right (by omega), htake,
      List.getElem?_append_right (by omega), List.getElem?_drop, hback]

theorem window_splice (h : i + d.length ≤ b.length) : window (splice b i d) i d.length = d := by
  apply List.ext_getElem?
  intro k
  rw [getElem?_window]
  by_cases hk : k < d.length
  · rw [if_pos hk, getElem?_splice_of_mem h (Nat.le_add_right i k) (Nat.add_lt_add_left hk i),
      Nat.add_sub_cancel_left]
  · rw [if_neg hk, List.getElem?_eq_none (Nat.le_of_not_lt hk)]

theorem window_splice_of_apart (h : i + d.length ≤ b.length) {j n : Nat}
    (hapart : Apart j n i d.length) : window (splice b i d) j n = window b j n := by
  apply window_congr
  intro x hj hx
  apply getElem?_splice_of_not_mem h
  intro hmem
  exact apart_iff.mp hapart x hj hx hmem.1 hmem.2

end Splice

end Ra2yrcpp.Reasoning
