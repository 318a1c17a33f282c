import Mathlib.Data.List.Basic

/-!
# Programs with effects and exceptions

A program changes a state and may throw; an exception does not undo what was done before it.  This
file has what the operations do to a state, and the rules for loops over a list: one that leaves at
the first element that fails, one whose elements all keep a relation between the states, and one
whose elements all see a state only up to a relation.
-/

namespace Ra2yrcpp.Reasoning

variable {σ ε α β : Type}

/-- Programs over the states `σ` that may throw an `ε`. -/
abbrev Prog (σ ε α : Type) := ExceptT ε (StateM σ) α

/-- What the program returns or throws, and the state that it leaves. -/
def Prog.exec (p : Prog σ ε α) (s : σ) : Except ε α × σ := (ExceptT.run p).run s

namespace Prog

/-! ## The operations -/

@[simp] theorem exec_pure (a : α) (s : σ) : (pure a : Prog σ ε α).exec s = (.ok a, s) := rfl

@[simp] theorem exec_throw (e : ε) (s : σ) : (throw e : Prog σ ε α).exec s = (.error e, s) := rfl

@[simp] theorem exec_get (s : σ) : (get : Prog σ ε σ).exec s = (.ok s, s) := rfl

@[simp] theorem exec_set (s t : σ) : (set t : Prog σ ε PUnit).exec s = (.ok ⟨⟩, t) := rfl

theorem exec_bind (p : Prog σ ε α) (f : α → Prog σ ε β) (s : σ) :
    (p >>= f).exec s = match p.exec s with
      | (.ok a, t) => (f a).exec t
      | (.error e, t) => (.error e, t) := by
  rcases hp : p.exec s with ⟨a, t⟩
  show (fun r : Except ε α × σ => ExceptT.run (match r.1 with
    | .ok a => f a
    | .error e => throw e) r.2) (p.exec s) = _
  rw [hp]
  cases a with
  | ok a => rfl
  | error e => rfl

theorem exec_tryCatch (p : Prog σ ε α) (h : ε → Prog σ ε α) (s : σ) :
    (tryCatch p h : Prog σ ε α).exec s = match p.exec s with
      | (.ok a, t) => (.ok a, t)
      | (.error e, t) => (h e).exec t := by
  rcases hp : p.exec s with ⟨a, t⟩
  show (fun r : Except ε α × σ => ExceptT.run (match r.1 with
    | .ok a => (pure a : Prog σ ε α)
    | .error e => h e) r.2) (p.exec s) = _
  rw [hp]
  cases a with
  | ok a => rfl
  | error e => rfl

theorem exec_bind_ok {p : Prog σ ε α} {s t : σ} {a : α} (hp : p.exec s = (.ok a, t))
    (f : α → Prog σ ε β) : (p >>= f).exec s = (f a).exec t := by
  rw [exec_bind, hp]

theorem exec_bind_error {p : Prog σ ε α} {s t : σ} {e : ε} (hp : p.exec s = (.error e, t))
    (f : α → Prog σ ε β) : (p >>= f).exec s = (.error e, t) := by
  rw [exec_bind, hp]

/-! ## A loop that leaves at the first failure -/

/-- An element fails or does not, whatever the state; what it does is a function of what is observed
of the state.  `inv` holds throughout, and `raises` of what is thrown. -/
structure Stops (f : α → Prog σ ε PUnit) (inv : σ → Prop) (obs : σ → β) (ok : α → Bool)
    (eff : β → α → β) (raises : ε → Prop) : Prop where
  returns : ∀ x s, inv s → ok x = true →
    ∃ t, (f x).exec s = (.ok ⟨⟩, t) ∧ inv t ∧ obs t = eff (obs s) x
  throws : ∀ x s, inv s → ok x = false →
    ∃ e t, (f x).exec s = (.error e, t) ∧ raises e ∧ inv t ∧ obs t = obs s

/-- The loop does what the elements before the first failure do, and returns if there is none. -/
theorem Stops.forM {f : α → Prog σ ε PUnit} {inv : σ → Prop} {obs : σ → β} {ok : α → Bool}
    {eff : β → α → β} {raises : ε → Prop} (h : Stops f inv obs ok eff raises) (xs : List α) {s : σ}
    (hs : inv s) :
    ∃ r t, (xs.forM f).exec s = (r, t) ∧ inv t ∧ obs t = (xs.takeWhile ok).foldl eff (obs s) ∧
      (r = .ok ⟨⟩ ↔ ∀ x ∈ xs, ok x = true) ∧ ∀ e, r = .error e → raises e := by
  induction xs generalizing s with
  | nil => exact ⟨.ok ⟨⟩, s, rfl, hs, rfl, iff_of_true rfl nofun, nofun⟩
  | cons x xs ih =>
    show ∃ r t, (f x >>= fun _ => xs.forM f).exec s = (r, t) ∧ _
    cases hx : ok x with
    | true =>
      obtain ⟨u, hexec, hu, hobs⟩ := h.returns x s hs hx
      obtain ⟨r, t, hrest, ht, hobs', hr, hraises⟩ := ih hu
      refine ⟨r, t, ?_, ht, ?_, ?_, hraises⟩
      · rw [exec_bind_ok hexec, hrest]
      · rw [hobs', List.takeWhile_cons_of_pos hx, List.foldl_cons, hobs]
      · rw [hr, List.forall_mem_cons]
        exact ⟨fun hxs => ⟨hx, hxs⟩, And.right⟩
    | false =>
      obtain ⟨e, t, hexec, he, ht, hobs⟩ := h.throws x s hs hx
      refine ⟨.error e, t, exec_bind_error hexec _, ht, ?_, ?_, ?_⟩
      · rw [List.takeWhile_cons_of_neg (by rw [hx]; decide)]
        exact hobs
      · refine iff_of_false nofun fun hall => ?_
        rw [hall x List.mem_cons_self] at hx
        cases hx
      · rintro e' he'
        rw [← Except.error.inj he']
        exact he

/-! ## Programs that keep a relation -/

/-- Whether it returns or throws, the program leaves a state that is related to the one before, and
`raises` is true of what it throws. -/
structure Keeps (R : σ → σ → Prop) (raises : ε → Prop) (p : Prog σ ε α) : Prop where
  state : ∀ s, R s (p.exec s).2
  error : ∀ s e, (p.exec s).1 = .error e → raises e

variable {R : σ → σ → Prop} {raises : ε → Prop}

theorem Keeps.pure (hrefl : ∀ s, R s s) (a : α) : Keeps R raises (Pure.pure a : Prog σ ε α) :=
  ⟨hrefl, fun _ _ h => nomatch h⟩

theorem Keeps.throw (hrefl : ∀ s, R s s) {e : ε} (he : raises e) :
    Keeps R raises (MonadExcept.throw e : Prog σ ε α) :=
  ⟨hrefl, fun _ _ h => Except.error.inj h ▸ he⟩

/-- Nothing comes after an exception. -/
theorem Keeps.throw_bind (hrefl : ∀ s, R s s) {e : ε} (he : raises e) (f : α → Prog σ ε β) :
    Keeps R raises ((MonadExcept.throw e : Prog σ ε α) >>= f) :=
  ⟨hrefl, fun _ _ h => Except.error.inj h ▸ he⟩

theorem Keeps.bind (htrans : ∀ s t u, R s t → R t u → R s u) {p : Prog σ ε α}
    {f : α → Prog σ ε β} (hp : Keeps R raises p) (hf : ∀ a, Keeps R raises (f a)) :
    Keeps R raises (p >>= f) := by
  constructor
  · intro s
    have hs := hp.state s
    rcases hexec : p.exec s with ⟨r, t⟩
    rw [hexec] at hs
    cases r with
    | ok a =>
      rw [exec_bind_ok hexec]
      exact htrans s t _ hs ((hf a).state t)
    | error e =>
      rw [exec_bind_error hexec]
      exact hs
  · intro s e he
    rcases hexec : p.exec s with ⟨r, t⟩
    cases r with
    | ok a =>
      rw [exec_bind_ok hexec] at he
      exact (hf a).error t e he
    | error e' =>
      rw [exec_bind_error hexec] at he
      apply hp.error s e
      rw [hexec, ← Except.error.inj he]

theorem Keeps.forM (hrefl : ∀ s, R s s) (htrans : ∀ s t u, R s t → R t u → R s u)
    {f : α → Prog σ ε PUnit} {xs : List α} (h : ∀ x ∈ xs, Keeps R raises (f x)) :
    Keeps R raises (xs.forM f) := by
  induction xs with
  | nil => exact Keeps.pure hrefl _
  | cons x xs ih =>
    have hrest := ih fun y hy => h y (List.mem_cons_of_mem x hy)
    exact Keeps.bind htrans (h x List.mem_cons_self) fun _ => hrest

/-! ## Programs that see a state only up to a relation -/

/-- From related states the program comes to the same result, and to related states. -/
def Respects (R : σ → σ → Prop) (p : Prog σ ε α) : Prop :=
  ∀ s s', R s s' → (p.exec s).1 = (p.exec s').1 ∧ R (p.exec s).2 (p.exec s').2

theorem Respects.pure (a : α) : Respects R (Pure.pure a : Prog σ ε α) := fun _ _ h => ⟨rfl, h⟩

theorem Respects.throw (e : ε) : Respects R (MonadExcept.throw e : Prog σ ε α) :=
  fun _ _ h => ⟨rfl, h⟩

theorem Respects.bind {p : Prog σ ε α} {f : α → Prog σ ε β} (hp : Respects R p)
    (hf : ∀ a, Respects R (f a)) : Respects R (p >>= f) := by
  intro s s' h
  obtain ⟨hresult, hstate⟩ := hp s s' h
  rcases hexec : p.exec s with ⟨r, t⟩
  rcases hexec' : p.exec s' with ⟨r', t'⟩
  rw [hexec, hexec'] at hresult hstate
  obtain rfl : r = r' := hresult
  cases r with
  | ok a =>
    rw [exec_bind_ok hexec, exec_bind_ok hexec']
    exact hf a t t' hstate
  | error e =>
    rw [exec_bind_error hexec, exec_bind_error hexec']
    exact ⟨rfl, hstate⟩

/-- The rest of a program that has read the state. -/
theorem Respects.get_bind {f : σ → Prog σ ε α}
    (hf : ∀ s s', R s s' →
      ((f s).exec s).1 = ((f s').exec s').1 ∧ R ((f s).exec s).2 ((f s').exec s').2) :
    Respects R (get >>= f) := hf

theorem Respects.forM {f : α → Prog σ ε PUnit} (hf : ∀ x, Respects R (f x)) (xs : List α) :
    Respects R (xs.forM f) := by
  induction xs with
  | nil => exact Respects.pure _
  | cons x xs ih => exact Respects.bind (hf x) fun _ => ih

theorem Respects.tryCatch {p : Prog σ ε α} {h : ε → Prog σ ε α} (hp : Respects R p)
    (hh : ∀ e, Respects R (h e)) : Respects R (MonadExcept.tryCatch p h) := by
  intro s s' hs
  obtain ⟨hresult, hstate⟩ := hp s s' hs
  rcases hexec : p.exec s with ⟨r, t⟩
  rcases hexec' : p.exec s' with ⟨r', t'⟩
  rw [hexec, hexec'] at hresult hstate
  obtain rfl : r = r' := hresult
  rw [exec_tryCatch, exec_tryCatch, hexec, hexec']
  cases r with
  | ok a => exact ⟨rfl, hstate⟩
  | error e => exact hh e t t' hstate

end Prog

end Ra2yrcpp.Reasoning
