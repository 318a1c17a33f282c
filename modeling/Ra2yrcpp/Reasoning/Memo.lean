import Mathlib.Data.List.Basic
import Mathlib.Logic.Function.Basic

/-!
# Tables of first values

A table that is filled at the first visit of a key and never changed after it.
-/

namespace Ra2yrcpp.Reasoning.Memo

variable {ι κ ν : Type*} [DecidableEq κ] (key : ι → κ) (val : ι → Option ν)

/-- A key that is not in the table gets the value of the visit, if there is one. -/
def visit (table : κ → Option ν) (i : ι) : κ → Option ν :=
  match table (key i) with
  | some _ => table
  | none => Function.update table (key i) (val i)

/-- The visits that would give `k` a value. -/
def Gives (k : κ) (i : ι) : Bool := key i = k && (val i).isSome

theorem visit_apply (table : κ → Option ν) (i : ι) (k : κ) :
    visit key val table i k = (table k).or (if key i = k then val i else none) := by
  unfold visit
  by_cases hk : key i = k
  · subst hk
    rw [if_pos rfl]
    cases htable : table (key i) with
    | some v => exact htable
    | none => exact Function.update_self _ _ _
  · rw [if_neg hk, Option.or_none]
    cases table (key i) with
    | some v => rfl
    | none => exact Function.update_of_ne (Ne.symm hk) _ _

-- induction on the visits; the table of the first one is the one to generalize
theorem foldl_visit (is : List ι) (table : κ → Option ν) (k : κ) :
    is.foldl (visit key val) table k =
      (table k).or ((is.find? (Gives key val k)).bind val) := by
  induction is generalizing table with
  | nil => exact (Option.or_none).symm
  | cons i is ih =>
    rw [List.foldl_cons, ih, visit_apply, Option.or_assoc, List.find?_cons]
    congr 1
    by_cases hk : key i = k
    · rw [if_pos hk]
      cases hval : val i with
      | some v => simp [Gives, hk, hval]
      | none => simp [Gives, hval]
    · rw [if_neg hk]
      simp [Gives, hk]

end Ra2yrcpp.Reasoning.Memo
