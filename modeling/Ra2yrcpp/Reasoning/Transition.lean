import Mathlib.Data.List.Basic

/-!
# Runs of a partial step function

A concurrent program is a step function `σ → α → Option σ`: the action names the thread that moves
and the choice it makes, and `none` says that the action is not enabled (the thread is blocked).  An
interleaving is a list of actions.  This file has the rules that carry a property of one step to
every run, and to every run whose steps all meet a side condition.
-/

namespace Ra2yrcpp.Reasoning

variable {σ α : Type*}

/-- Execute the actions from left to right; `none` as soon as one of them is not enabled. -/
def run (step : σ → α → Option σ) : σ → List α → Option σ
  | s, [] => some s
  | s, a :: as => (step s a).bind fun t => run step t as

/-- Every action of the run meets `ok` in the state it is taken from. -/
def Conforms (step : σ → α → Option σ) (ok : σ → α → Prop) : σ → List α → Prop
  | _, [] => True
  | s, a :: as => ok s a ∧ ∀ t, step s a = some t → Conforms step ok t as

instance Conforms.decidable (step : σ → α → Option σ) (ok : σ → α → Prop)
    [∀ s a, Decidable (ok s a)] : (s : σ) → (as : List α) → Decidable (Conforms step ok s as)
  | _, [] => isTrue trivial
  | s, a :: as =>
    match h : step s a with
    | none =>
      decidable_of_iff (ok s a)
        ⟨fun hok => ⟨hok, fun _ ht => nomatch h.symm.trans ht⟩, And.left⟩
    | some t =>
      have : Decidable (Conforms step ok t as) := Conforms.decidable step ok t as
      decidable_of_iff (ok s a ∧ Conforms step ok t as)
        ⟨fun hok => ⟨hok.1, fun _ ht => Option.some.inj (h.symm.trans ht) ▸ hok.2⟩,
          fun hok => ⟨hok.1, hok.2 t h⟩⟩

/-- `P` holds in every state the run passes through, the first and the last included. -/
def Always (step : σ → α → Option σ) (P : σ → Prop) : σ → List α → Prop
  | s, [] => P s
  | s, a :: as => P s ∧ ∀ t, step s a = some t → Always step P t as

variable {step : σ → α → Option σ} {ok : σ → α → Prop} {Inv P : σ → Prop}

@[simp] theorem run_nil (s : σ) : run step s [] = some s := rfl

theorem run_cons (s : σ) (a : α) (as : List α) :
    run step s (a :: as) = (step s a).bind fun t => run step t as := rfl

theorem run_cons_eq_some {s u : σ} {a : α} {as : List α} :
    run step s (a :: as) = some u ↔ ∃ t, step s a = some t ∧ run step t as = some u := by
  rw [run_cons, Option.bind_eq_some_iff]

theorem run_append (s : σ) (as bs : List α) :
    run step s (as ++ bs) = (run step s as).bind fun t => run step t bs := by
  induction as generalizing s with
  | nil => rfl
  | cons a as ih =>
    rw [List.cons_append, run_cons, run_cons, Option.bind_assoc]
    congr 1
    exact funext ih

/-- What one enabled step preserves, every run preserves. -/
theorem run_invariant (hstep : ∀ s a t, Inv s → step s a = some t → Inv t)
    {s u : σ} {as : List α} (hs : Inv s) (hrun : run step s as = some u) : Inv u := by
  induction as generalizing s with
  | nil =>
    rw [run_nil, Option.some.injEq] at hrun
    exact hrun ▸ hs
  | cons a as ih =>
    obtain ⟨t, hst, htu⟩ := run_cons_eq_some.mp hrun
    exact ih (hstep s a t hs hst) htu

/-- What one step that meets `ok` preserves, every run whose steps all meet `ok` preserves. -/
theorem run_invariant_of_conforms
    (hstep : ∀ s a t, Inv s → ok s a → step s a = some t → Inv t)
    {s u : σ} {as : List α} (hs : Inv s) (hok : Conforms step ok s as)
    (hrun : run step s as = some u) : Inv u := by
  induction as generalizing s with
  | nil =>
    rw [run_nil, Option.some.injEq] at hrun
    exact hrun ▸ hs
  | cons a as ih =>
    obtain ⟨t, hst, htu⟩ := run_cons_eq_some.mp hrun
    exact ih (hstep s a t hs hok.1 hst) (hok.2 t hst) htu

theorem conforms_cons {s t : σ} {a : α} {as : List α} (hstep : step s a = some t) :
    Conforms step ok s (a :: as) ↔ ok s a ∧ Conforms step ok t as := by
  apply and_congr_right
  intro _
  constructor
  · intro h
    exact h t hstep
  · intro h t' ht'
    rw [hstep] at ht'
    cases ht'
    exact h

theorem always_cons {s t : σ} {a : α} {as : List α} (hstep : step s a = some t) :
    Always step P s (a :: as) ↔ P s ∧ Always step P t as := by
  apply and_congr_right
  intro _
  constructor
  · intro h
    exact h t hstep
  · intro h t' ht'
    rw [hstep] at ht'
    cases ht'
    exact h

theorem Always.first {s : σ} {as : List α} (h : Always step P s as) : P s := by
  cases as with
  | nil => exact h
  | cons a as => exact h.1

/-- A side condition on the actions alone. -/
theorem conforms_of_forall_mem {s : σ} {as : List α} (h : ∀ a ∈ as, ∀ s, ok s a) :
    Conforms step ok s as := by
  induction as generalizing s with
  | nil => trivial
  | cons a as ih =>
    refine ⟨h a List.mem_cons_self s, fun t _ => ?_⟩
    exact ih fun b hb => h b (List.mem_cons_of_mem a hb)

theorem conforms_iff_forall_mem {good : α → Prop} (hgood : ∀ s a, ok s a ↔ good a) {s u : σ}
    {as : List α} (hrun : run step s as = some u) :
    Conforms step ok s as ↔ ∀ a ∈ as, good a := by
  induction as generalizing s with
  | nil => exact iff_of_true trivial nofun
  | cons a as ih =>
    obtain ⟨t, hst, htu⟩ := run_cons_eq_some.mp hrun
    rw [conforms_cons hst, hgood, ih htu, List.forall_mem_cons]

/-- When `ok` decides, from states that satisfy the invariants, whether a step keeps `P`, then `P`
holds all along a run exactly when every step of it meets `ok`. -/
theorem always_iff_conforms (hinv : ∀ s a t, Inv s → step s a = some t → Inv t)
    (hiff : ∀ s a t, Inv s → P s → step s a = some t → (P t ↔ ok s a))
    {s u : σ} {as : List α} (hs : Inv s) (hP : P s) (hrun : run step s as = some u) :
    Always step P s as ↔ Conforms step ok s as := by
  induction as generalizing s with
  | nil => exact ⟨fun _ => trivial, fun _ => hP⟩
  | cons a as ih =>
    obtain ⟨t, hst, htu⟩ := run_cons_eq_some.mp hrun
    have hiff' := hiff s a t hs hP hst
    rw [always_cons hst, conforms_cons hst]
    constructor
    · rintro ⟨-, hall⟩
      have hPt : P t := hall.first
      exact ⟨hiff'.mp hPt, (ih (hinv s a t hs hst) hPt htu).mp hall⟩
    · rintro ⟨hok, hall⟩
      have hPt : P t := hiff'.mpr hok
      exact ⟨hP, (ih (hinv s a t hs hst) hPt htu).mpr hall⟩

end Ra2yrcpp.Reasoning
