import Mathlib.Data.Set.Basic
import Mathlib.Logic.Function.Basic

/-!
# Locks and deadlock

A table of locks with their owners, and what the control states of the threads say about it: the
locks a thread holds and the one it is asking for.
-/

namespace Ra2yrcpp.Reasoning

variable {ι κ : Type*}

/-- The owners agree with what the control states of the threads hold. -/
def OwnedAsHeld (owner : κ → Option ι) (held : ι → κ → Prop) : Prop :=
  ∀ t l, owner l = some t ↔ held t l

section Table

variable [DecidableEq κ] {owner : κ → Option ι} {held held' : ι → κ → Prop} {t₀ : ι} {l₀ : κ}

omit [DecidableEq κ] in
theorem OwnedAsHeld.congr (h : OwnedAsHeld owner held) (hheld : ∀ t l, held' t l ↔ held t l) :
    OwnedAsHeld owner held' := by
  intro t l
  rw [hheld]
  exact h t l

theorem OwnedAsHeld.acquire (h : OwnedAsHeld owner held) (hfree : owner l₀ = none)
    (hheld : ∀ t l, held' t l ↔ held t l ∨ t = t₀ ∧ l = l₀) :
    OwnedAsHeld (Function.update owner l₀ (some t₀)) held' := by
  intro t l
  rw [hheld]
  by_cases hl : l = l₀
  · subst hl
    have hnot : ¬held t l := by
      rw [← h t l, hfree]
      simp
    simp [hnot, eq_comm]
  · rw [Function.update_of_ne hl, h t l]
    simp [hl]

theorem OwnedAsHeld.release (h : OwnedAsHeld owner held) (hmine : held t₀ l₀)
    (hheld : ∀ t l, held' t l ↔ held t l ∧ ¬(t = t₀ ∧ l = l₀)) :
    OwnedAsHeld (Function.update owner l₀ none) held' := by
  intro t l
  rw [hheld]
  by_cases hl : l = l₀
  · subst hl
    have hunique : held t l → t = t₀ := by
      rw [← h t l, (h t₀ l).mpr hmine]
      exact fun heq => (Option.some.inj heq).symm
    simpa using hunique
  · rw [Function.update_of_ne hl, h t l]
    simp [hl]

end Table

/-- Every thread of the set waits for a lock that another thread of the set holds. -/
structure Deadlocked (wants : ι → Option κ) (owner : κ → Option ι) (T : Set ι) : Prop where
  nonempty : T.Nonempty
  blocked : ∀ t ∈ T, ∃ l, wants t = some l ∧ ∃ u ∈ T, u ≠ t ∧ owner l = some u

/-- Nobody is ever blocked at a lock that is asked for and held under another lock only. -/
theorem owner_of_nested {wants : ι → Option κ} {owner : κ → Option ι} {inner outer : κ}
    (hholds : ∀ t, owner inner = some t → owner outer = some t)
    (hwants : ∀ t, wants t = some inner → owner outer = some t) {t u : ι}
    (ht : wants t = some inner) (hu : owner inner = some u) : u = t := by
  have h := (hholds u hu).symm.trans (hwants t ht)
  exact Option.some.inj h

end Ra2yrcpp.Reasoning
