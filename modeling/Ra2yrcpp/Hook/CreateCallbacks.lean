import Mathlib.Data.String.Basic
import Ra2yrcpp.Hook.Call
import Ra2yrcpp.Hook.Registration

/-!
# The `CreateCallbacks` command

`create_callbacks` of `commands_yr.cpp` over any hooks and any callbacks, with the exceptions that
end its loop.  The loop checks and registers one callback after the other, in the order of their
names.  The last section says that the registration of the game's own callbacks is an instance.
-/

namespace Ra2yrcpp.Hook.CreateCallbacks

variable {σ : Type}

/-! ## The command -/

/-- An `ISCallback`; the map has it under its name. -/
structure ISCallback (σ : Type) where
  name : String
  target : String
  call : σ → σ

structure HookEntry (σ : Type) where
  address : Nat
  name : String
  callbacks : List (HookCallback σ)

/-- `cb_map_t`, in the order of its keys. -/
structure CallbackMap (σ : Type) where
  entries : List (ISCallback σ)
  sorted : entries.Pairwise fun v w => v.name < w.name

inductive GeneralError
  /-- `No such hook {}` -/
  | noSuchHook (target : String)
  /-- `Hook {} already has a callback {}` -/
  | alreadyHas (target name : String)
  deriving DecidableEq, Repr

def insertNew (v : ISCallback σ) : List (ISCallback σ) → List (ISCallback σ)
  | [] => [v]
  | w :: m =>
    if v.name < w.name then v :: w :: m
    else if v.name = w.name then w :: m
    else w :: insertNew v m

theorem name_of_mem_insertNew {v u : ISCallback σ} {m : List (ISCallback σ)}
    (h : u ∈ insertNew v m) : u.name = v.name ∨ u ∈ m := by
  induction m with
  | nil => exact .inl (congrArg ISCallback.name (List.mem_singleton.mp h))
  | cons w m ih =>
    unfold insertNew at h
    split at h
    · cases List.mem_cons.mp h with
      | inl hu => exact .inl (congrArg ISCallback.name hu)
      | inr hm => exact .inr hm
    · split at h
      · exact .inr h
      · cases List.mem_cons.mp h with
        | inl hu => exact .inr (hu ▸ List.mem_cons_self)
        | inr hm => exact (ih hm).imp id (List.mem_cons_of_mem w)

theorem insertNew_sorted (v : ISCallback σ) {m : List (ISCallback σ)}
    (hs : m.Pairwise fun v w => v.name < w.name) :
    (insertNew v m).Pairwise fun v w => v.name < w.name := by
  induction m with
  | nil => exact List.pairwise_singleton _ _
  | cons w m ih =>
    have hw := List.pairwise_cons.mp hs
    unfold insertNew
    split
    · next hlt =>
      apply List.pairwise_cons.mpr
      constructor
      · intro u hu
        cases List.mem_cons.mp hu with
        | inl he => exact he ▸ hlt
        | inr hm => exact lt_trans hlt (hw.1 u hm)
      · exact hs
    · next hge =>
      split
      · exact hs
      · next hne =>
        apply List.pairwise_cons.mpr
        constructor
        · intro u hu
          cases name_of_mem_insertNew hu with
          | inl he =>
            rw [he]
            exact lt_of_le_of_ne (not_lt.mp hge) (Ne.symm hne)
          | inr hm => exact hw.1 u hm
        · exact ih hw.2

def CallbackMap.tryEmplace (m : CallbackMap σ) (v : ISCallback σ) : CallbackMap σ :=
  ⟨insertNew v m.entries, insertNew_sorted v m.sorted⟩

/-- `init_callbacks` with the objects it makes. -/
def initCallbacks (made : List (ISCallback σ)) (m : CallbackMap σ) : CallbackMap σ :=
  made.foldl CallbackMap.tryEmplace m

def findHook (hooks : List (HookEntry σ)) (target : String) : Option (HookEntry σ) :=
  hooks.find? fun h => h.name = target

/-- The `HookCallback` that `add_to_hook` makes. -/
def ISCallback.hookCallback (v : ISCallback σ) : HookCallback σ := { func := v.call, name := v.name }

/-- `add_to_hook` through the iterator that `std::find_if` has returned: the first hook of that
name. -/
def addToHook (v : ISCallback σ) : List (HookEntry σ) → List (HookEntry σ)
  | [] => []
  | h :: hooks =>
    if h.name = v.target then { h with callbacks := h.callbacks ++ [v.hookCallback] } :: hooks
    else h :: addToHook v hooks

/-- The loop of `create_callbacks`: the hooks it leaves, and the exception that ended it. -/
def addCallbacks : List (ISCallback σ) → List (HookEntry σ) → List (HookEntry σ) × Option GeneralError
  | [], hooks => (hooks, none)
  | v :: cbs, hooks =>
    match findHook hooks v.target with
    | none => (hooks, some (.noSuchHook v.target))
    | some h =>
      if ∃ c ∈ h.callbacks, c.name = v.name then (hooks, some (.alreadyHas v.target v.name))
      else addCallbacks cbs (addToHook v hooks)

structure Outcome (σ : Type) where
  callbacks : CallbackMap σ
  hooks : List (HookEntry σ)
  thrown : Option GeneralError

def createCallbacks (made : List (ISCallback σ)) (m : CallbackMap σ) (hooks : List (HookEntry σ)) :
    Outcome σ :=
  let m := initCallbacks made m
  let r := addCallbacks m.entries hooks
  ⟨m, r.1, r.2⟩

/-! ## All or nothing -/

/-- There is a hook with the callback's target, and it has no callback of that name. -/
def Passes (hooks : List (HookEntry σ)) (v : ISCallback σ) : Prop :=
  ∃ h, findHook hooks v.target = some h ∧ ∀ c ∈ h.callbacks, c.name ≠ v.name

/-- The callback is in the hook that its target leads to, and no other one there has its name. -/
def RegisteredOnce (hooks : List (HookEntry σ)) (v : ISCallback σ) : Prop :=
  ∃ h, findHook hooks v.target = some h ∧
    (h.callbacks.filter fun c => c.name = v.name) = [v.hookCallback]

/-- An exception leaves the hooks as they were, and a return all callbacks registered. -/
def AllOrNothing (hooks : List (HookEntry σ)) (r : Outcome σ) : Prop :=
  (r.thrown ≠ none → r.hooks = hooks) ∧
    (r.thrown = none → ∀ v ∈ r.callbacks.entries, RegisteredOnce r.hooks v)

/-- All callbacks pass their checks, or already the first one does not. -/
def FirstDecides (hooks : List (HookEntry σ)) (cbs : List (ISCallback σ)) : Prop :=
  (∀ v ∈ cbs, Passes hooks v) ∨ ∀ v, cbs.head? = some v → ¬Passes hooks v

section Loop

variable {v w : ISCallback σ} {cbs : List (ISCallback σ)} {hooks : List (HookEntry σ)}

theorem addCallbacks_of_passes (h : Passes hooks v) :
    addCallbacks (v :: cbs) hooks = addCallbacks cbs (addToHook v hooks) := by
  obtain ⟨g, hfind, hnew⟩ := h
  rw [addCallbacks, hfind]
  dsimp only
  rw [if_neg]
  intro hold
  obtain ⟨c, hc, hname⟩ := hold
  exact hnew c hc hname

theorem addCallbacks_of_not_passes (h : ¬Passes hooks v) :
    (addCallbacks (v :: cbs) hooks).1 = hooks ∧ (addCallbacks (v :: cbs) hooks).2 ≠ none := by
  rw [addCallbacks]
  cases hfind : findHook hooks v.target with
  | none => exact ⟨rfl, nofun⟩
  | some g =>
    dsimp only
    by_cases hold : ∃ c ∈ g.callbacks, c.name = v.name
    · rw [if_pos hold]
      exact ⟨rfl, nofun⟩
    · refine absurd ⟨g, hfind, ?_⟩ h
      intro c hc hname
      exact hold ⟨c, hc, hname⟩

/-- One hook grows by the new callback, the one that the target leads to. -/
theorem findHook_addToHook (target : String) :
    findHook (addToHook v hooks) target =
      if target = v.target then
        (findHook hooks target).map fun h => { h with callbacks := h.callbacks ++ [v.hookCallback] }
      else findHook hooks target := by
  unfold findHook
  induction hooks with
  | nil => simp [addToHook]
  | cons h hooks ih =>
    unfold addToHook
    by_cases hv : h.name = v.target
    · rw [if_pos hv, List.find?_cons, List.find?_cons]
      by_cases ht : target = v.target
      · simp [hv, ht]
      · have hne : h.name ≠ target := fun he => ht (he ▸ hv)
        simp [hne, ht]
    · rw [if_neg hv, List.find?_cons, List.find?_cons, ih]
      by_cases ht : h.name = target
      · have hne : target ≠ v.target := fun he => hv (ht.trans he)
        simp [ht, hne]
      · simp [ht]

/-- The checks of a callback do not depend on what was registered under other names. -/
theorem passes_addToHook (hne : w.name ≠ v.name) :
    Passes (addToHook v hooks) w ↔ Passes hooks w := by
  unfold Passes
  rw [findHook_addToHook]
  by_cases ht : w.target = v.target
  · rw [if_pos ht]
    cases findHook hooks w.target with
    | none => simp
    | some h =>
      -- the hook that `w` looks at has grown by `v`
      have hv : v.hookCallback.name ≠ w.name := fun he => hne he.symm
      simp [or_imp, forall_and, hv]
  · rw [if_neg ht]

theorem registeredOnce_addToHook_self (h : Passes hooks v) :
    RegisteredOnce (addToHook v hooks) v := by
  obtain ⟨g, hfind, hnew⟩ := h
  refine ⟨{ g with callbacks := g.callbacks ++ [v.hookCallback] }, ?_, ?_⟩
  · rw [findHook_addToHook, if_pos rfl, hfind]
    rfl
  · have hnone : (g.callbacks.filter fun c => c.name = v.name) = [] := by
      rw [List.filter_eq_nil_iff]
      simpa using hnew
    have hself : ([v.hookCallback].filter fun c => c.name = v.name) = [v.hookCallback] := by
      simp [ISCallback.hookCallback]
    rw [List.filter_append, hnone, hself]
    rfl

theorem RegisteredOnce.addToHook (h : RegisteredOnce hooks w) (hne : w.name ≠ v.name) :
    RegisteredOnce (addToHook v hooks) w := by
  obtain ⟨g, hfind, honce⟩ := h
  by_cases ht : w.target = v.target
  · refine ⟨{ g with callbacks := g.callbacks ++ [v.hookCallback] }, ?_, ?_⟩
    · rw [findHook_addToHook, if_pos ht, hfind]
      rfl
    · have hv : ([v.hookCallback].filter fun c => c.name = w.name) = [] := by
        rw [List.filter_eq_nil_iff]
        simpa [ISCallback.hookCallback] using fun he : v.name = w.name => hne he.symm
      rw [List.filter_append, hv, List.append_nil, honce]
  · refine ⟨g, ?_, honce⟩
    rw [findHook_addToHook, if_neg ht, hfind]

theorem RegisteredOnce.not_passes (h : RegisteredOnce hooks v) : ¬Passes hooks v := by
  intro hpass
  obtain ⟨g, hfind, honce⟩ := h
  obtain ⟨g', hfind', hnew⟩ := hpass
  rw [hfind] at hfind'
  cases hfind'
  -- the second check of the loop finds it
  have hmem : v.hookCallback ∈ g.callbacks.filter fun c => c.name = v.name := by
    rw [honce]
    exact List.mem_singleton.mpr rfl
  exact hnew _ (List.mem_of_mem_filter hmem) rfl

/-- What is registered stays, whether the loop ends or throws. -/
theorem RegisteredOnce.addCallbacks (h : RegisteredOnce hooks v)
    (hne : ∀ w ∈ cbs, v.name ≠ w.name) : RegisteredOnce (addCallbacks cbs hooks).1 v := by
  induction cbs generalizing hooks with
  | nil => exact h
  | cons w cbs ih =>
    by_cases hpass : Passes hooks w
    · rw [addCallbacks_of_passes hpass]
      exact ih (h.addToHook (hne w List.mem_cons_self)) fun u hu => hne u (List.mem_cons_of_mem w hu)
    · rw [(addCallbacks_of_not_passes hpass).1]
      exact h

variable (hnames : cbs.Pairwise fun v w => v.name < w.name)

include hnames

/-- All checks can be made on the hooks as they are before the loop. -/
theorem addCallbacks_returns_iff (hooks : List (HookEntry σ)) :
    (addCallbacks cbs hooks).2 = none ↔ ∀ v ∈ cbs, Passes hooks v := by
  induction cbs generalizing hooks with
  | nil => exact iff_of_true rfl nofun
  | cons v cbs ih =>
    obtain ⟨hv, hnames⟩ := List.pairwise_cons.mp hnames
    by_cases hpass : Passes hooks v
    · rw [addCallbacks_of_passes hpass, ih hnames, List.forall_mem_cons]
      have hrest : ∀ w ∈ cbs, Passes (addToHook v hooks) w ↔ Passes hooks w :=
        fun w hw => passes_addToHook (ne_of_gt (hv w hw))
      constructor
      · intro h
        exact ⟨hpass, fun w hw => (hrest w hw).mp (h w hw)⟩
      · intro h w hw
        exact (hrest w hw).mpr (h.2 w hw)
    · apply iff_of_false
      · exact (addCallbacks_of_not_passes hpass).2
      · intro h
        exact hpass (h v List.mem_cons_self)

theorem registeredOnce_of_returns (h : (addCallbacks cbs hooks).2 = none) :
    ∀ v ∈ cbs, RegisteredOnce (addCallbacks cbs hooks).1 v := by
  induction cbs generalizing hooks with
  | nil => exact nofun
  | cons v cbs ih =>
    obtain ⟨hv, hrest⟩ := List.pairwise_cons.mp hnames
    -- `v` is registered in its round, and the later ones have other names
    have hpass := (addCallbacks_returns_iff hnames _).mp h v List.mem_cons_self
    rw [addCallbacks_of_passes hpass] at h ⊢
    intro w hw
    cases List.mem_cons.mp hw with
    | inl he =>
      rw [he]
      exact (registeredOnce_addToHook_self hpass).addCallbacks fun u hu => ne_of_lt (hv u hu)
    | inr hmem => exact ih hrest h w hmem

/-- The hooks are as before an exception when the first callback throws already. -/
theorem hooks_unchanged_iff (h : (addCallbacks cbs hooks).2 ≠ none) :
    (addCallbacks cbs hooks).1 = hooks ↔ ∀ v, cbs.head? = some v → ¬Passes hooks v := by
  cases cbs with
  | nil => exact absurd rfl h
  | cons v cbs =>
    obtain ⟨hv, -⟩ := List.pairwise_cons.mp hnames
    rw [List.head?_cons]
    by_cases hpass : Passes hooks v
    · apply iff_of_false
      -- some later callback has thrown, and the first one is left in its hook
      · intro heq
        have hleft : RegisteredOnce (addCallbacks cbs (addToHook v hooks)).1 v :=
          (registeredOnce_addToHook_self hpass).addCallbacks fun u hu => ne_of_lt (hv u hu)
        rw [addCallbacks_of_passes hpass] at heq
        rw [heq] at hleft
        exact hleft.not_passes hpass
      · exact fun hfirst => hfirst v rfl hpass
    · apply iff_of_true (addCallbacks_of_not_passes hpass).1
      intro w hw
      cases hw
      exact hpass

end Loop

/-- `CreateCallbacks` is all or nothing exactly when all callbacks of the map pass their checks or the
first one in the order of names does not. -/
theorem createCallbacks_allOrNothing_iff (made : List (ISCallback σ)) (m : CallbackMap σ)
    (hooks : List (HookEntry σ)) :
    AllOrNothing hooks (createCallbacks made m hooks) ↔
      FirstDecides hooks (initCallbacks made m).entries := by
  have hnames := (initCallbacks made m).sorted
  have hreturns := addCallbacks_returns_iff hnames hooks
  by_cases h : (addCallbacks (initCallbacks made m).entries hooks).2 = none
  · apply iff_of_true
    · exact ⟨fun hthrown => absurd h hthrown, registeredOnce_of_returns hnames⟩
    · exact .inl (hreturns.mp h)
  · have hunchanged := hooks_unchanged_iff hnames h
    constructor
    · intro hall
      exact .inr (hunchanged.mp (hall.1 h))
    · intro hcond
      cases hcond with
      | inl hpass => exact absurd (hreturns.mpr hpass) h
      | inr hfirst => exact ⟨fun _ => hunchanged.mpr hfirst, fun hnone => absurd hnone h⟩

/-! ## The callbacks of the game -/

section Registration

open Hook.Registration (Callback ObjectId Registered State)

variable (call : ObjectId → σ → σ)

/-- The object of a class, with its function. -/
def isCallback (c : Callback) (object : ObjectId) : ISCallback σ := ⟨c.name, c.target, call object⟩

def hookEntry (h : Registration.HookEntry) : HookEntry σ :=
  ⟨h.address, h.name, h.callbacks.map fun r => (isCallback call r.callback r.object).hookCallback⟩

/-- The objects that the map has for these classes. -/
def entries (cs : List Callback) (callbacks : Callback → Option ObjectId) : List (ISCallback σ) :=
  cs.filterMap fun c => (callbacks c).map (isCallback call c)

theorem all_sorted : Callback.all.Pairwise fun c d => c.name < d.name := by decide

theorem name_inj (c d : Callback) : c.name = d.name ↔ c = d := by
  constructor
  · cases c <;> cases d <;> decide
  · exact congrArg Callback.name

theorem entries_sorted (callbacks : Callback → Option ObjectId) :
    (entries call Callback.all callbacks).Pairwise fun v w => v.name < w.name := by
  apply List.pairwise_filterMap.mpr
  apply all_sorted.imp
  intro c d hlt v hv w hw
  obtain ⟨object, -, rfl⟩ := Option.map_eq_some_iff.mp hv
  obtain ⟨object', -, rfl⟩ := Option.map_eq_some_iff.mp hw
  exact hlt

theorem findHook_hookEntry (hooks : List Registration.HookEntry) (target : String) :
    findHook (hooks.map (hookEntry call)) target =
      (Registration.findHook hooks target).map (hookEntry call) := by
  unfold findHook Registration.findHook
  rw [List.find?_map]
  rfl

/-- Addresses tell the hooks apart, so the hook that is changed is the one that was found. -/
theorem addToHook_hookEntry {hooks : List Registration.HookEntry} {h : Registration.HookEntry}
    (c : Callback) (object : ObjectId)
    (hs : hooks.Pairwise fun h g => h.address < g.address)
    (hfind : Registration.findHook hooks c.target = some h) :
    addToHook (isCallback call c object) (hooks.map (hookEntry call)) =
      (Registration.updateHook h.address (· ++ [⟨c, object⟩]) hooks).map (hookEntry call) := by
  induction hooks with
  | nil => rfl
  | cons k hooks ih =>
    have hk := List.pairwise_cons.mp hs
    have htail : ∀ g ∈ hooks, k.address ≠ g.address := fun g hg => Nat.ne_of_lt (hk.1 g hg)
    rw [List.map_cons, addToHook]
    unfold Registration.findHook at hfind
    by_cases hname : k.name = c.target
    · rw [List.find?_cons_of_pos (by simpa using hname)] at hfind
      have hkh : k = h := Option.some.inj hfind
      subst hkh
      have hrest : Registration.updateHook k.address (· ++ [⟨c, object⟩]) hooks = hooks := by
        have hsame : ∀ g ∈ hooks, g.update k.address (· ++ [⟨c, object⟩]) = id g :=
          fun g hg => Registration.update_of_ne (htail g hg).symm
        exact (List.map_congr_left hsame).trans (List.map_id hooks)
      rw [if_pos (show (hookEntry call k).name = (isCallback call c object).target from hname),
        Registration.updateHook, List.map_cons, Registration.update_self]
      show _ = _ :: (Registration.updateHook k.address _ hooks).map (hookEntry call)
      rw [hrest]
      simp [hookEntry]
    · rw [List.find?_cons_of_neg (by simpa using hname)] at hfind
      rw [if_neg (show ¬(hookEntry call k).name = (isCallback call c object).target from hname),
        ih hk.2 hfind]
      have hne : k.address ≠ h.address := htail h (Registration.findHook_mem hfind).1
      rw [Registration.updateHook, Registration.updateHook, List.map_cons,
        Registration.update_of_ne hne]
      rfl

/-- The loop over the classes of the game is the loop over their objects in the map. -/
theorem addCallbacks_hookEntry (cs : List Callback) (s : State)
    (hs : s.hooks.Pairwise fun h g => h.address < g.address) :
    (addCallbacks (entries call cs s.callbacks) (s.hooks.map (hookEntry call))).1 =
      (Registration.addCallbacks cs s).hooks.map (hookEntry call) := by
  induction cs generalizing s with
  | nil => rfl
  | cons c cs ih =>
    rw [Registration.addCallbacks, entries, List.filterMap_cons]
    cases hobject : s.callbacks c with
    | none => exact ih s hs
    | some object =>
      show (addCallbacks (isCallback call c object :: entries call cs s.callbacks) _).1 = _
      rw [addCallbacks, show (isCallback call c object).target = c.target from rfl,
        findHook_hookEntry]
      cases hfind : Registration.findHook s.hooks c.target with
      | none => rfl
      | some h =>
        have hname : (∃ r ∈ (hookEntry call h).callbacks, r.name = (isCallback call c object).name) ↔
            ∃ r ∈ h.callbacks, r.callback = c := by
          simp [hookEntry, isCallback, ISCallback.hookCallback, name_inj]
        simp only [Option.map_some]
        by_cases hold : ∃ r ∈ h.callbacks, r.callback = c
        · rw [if_pos (hname.mpr hold), if_pos hold]
        · rw [if_neg (fun hr => hold (hname.mp hr)), if_neg hold,
            addToHook_hookEntry call c object hs hfind]
          exact ih { s with hooks := Registration.updateHook h.address (· ++ [⟨c, object⟩]) s.hooks }
            (List.pairwise_map.mpr (by simpa using hs))

theorem insertNew_of_forall_lt {v : ISCallback σ} {m : List (ISCallback σ)}
    (h : ∀ w ∈ m, v.name < w.name) : insertNew v m = v :: m := by
  cases m with
  | nil => rfl
  | cons w m => exact if_pos (h w List.mem_cons_self)

theorem insertNew_of_eq {v w : ISCallback σ} (m : List (ISCallback σ)) (h : v.name = w.name) :
    insertNew v (w :: m) = w :: m := by
  rw [insertNew, if_neg (h ▸ lt_irrefl v.name), if_pos h]

theorem insertNew_of_gt {v w : ISCallback σ} (m : List (ISCallback σ)) (h : w.name < v.name) :
    insertNew v (w :: m) = w :: insertNew v m := by
  rw [insertNew, if_neg (not_lt_of_gt h), if_neg (ne_of_gt h)]

theorem name_of_mem_entries {cs : List Callback} {callbacks : Callback → Option ObjectId}
    {v : ISCallback σ} (h : v ∈ entries call cs callbacks) : ∃ c ∈ cs, v.name = c.name := by
  obtain ⟨c, hc, hv⟩ := List.mem_filterMap.mp h
  obtain ⟨object, -, rfl⟩ := Option.map_eq_some_iff.mp hv
  exact ⟨c, hc, rfl⟩

theorem entries_congr {cs : List Callback} {f g : Callback → Option ObjectId}
    (h : ∀ c ∈ cs, f c = g c) : entries call cs f = entries call cs g := by
  apply List.filterMap_congr
  intro c hc
  rw [h c hc]

/-- `try_emplace` of an object under the name of its class. -/
theorem insertNew_entries {cs : List Callback} {c : Callback} (object : ObjectId)
    (callbacks : Callback → Option ObjectId)
    (hs : cs.Pairwise fun c d => c.name < d.name) (hc : c ∈ cs) :
    insertNew (isCallback call c object) (entries call cs callbacks) =
      entries call cs (if (callbacks c).isSome then callbacks
        else Function.update callbacks c (some object)) := by
  induction cs with
  | nil => cases hc
  | cons d cs ih =>
    obtain ⟨hd, hs⟩ := List.pairwise_cons.mp hs
    have hcons : ∀ f : Callback → Option ObjectId, entries call (d :: cs) f =
        ((f d).map (isCallback call d)).toList ++ entries call cs f := by
      intro f
      unfold entries
      rw [List.filterMap_cons]
      cases f d <;> rfl
    rw [hcons, hcons]
    by_cases hcd : c = d
    · subst hcd
      cases hobject : callbacks c with
      | some old =>
        rw [Option.isSome_some, if_pos rfl, hobject]
        exact insertNew_of_eq _ rfl
      | none =>
        have hrest : entries call cs (Function.update callbacks c (some object)) =
            entries call cs callbacks :=
          entries_congr call fun e he =>
            Function.update_of_ne (fun heq => ne_of_lt (hd e he) (by rw [heq])) _ _
        rw [if_neg (by simp), hrest, Function.update_self]
        apply insertNew_of_forall_lt
        intro w hw
        obtain ⟨e, he, hname⟩ := name_of_mem_entries call hw
        rw [hname]
        exact hd e he
    · have hmem : c ∈ cs := (List.mem_cons.mp hc).resolve_left hcd
      have hlt : d.name < c.name := hd c hmem
      have hsame : (if (callbacks c).isSome then callbacks
          else Function.update callbacks c (some object)) d = callbacks d := by
        split
        · rfl
        · exact Function.update_of_ne (fun he => hcd he.symm) _ _
      rw [hsame, ← ih hs hmem]
      cases callbacks d with
      | none => rfl
      | some old => exact insertNew_of_gt _ hlt

/-- The objects that `init_callbacks` makes. -/
def madeFrom : List Callback → ObjectId → List (ISCallback σ)
  | [], _ => []
  | c :: cs, next => isCallback call c next :: madeFrom cs (next + 1)

def callbackMap (s : State) : CallbackMap σ :=
  ⟨entries call Callback.all s.callbacks, entries_sorted call s.callbacks⟩

theorem initCallbacks_callbackMap (cs : List Callback) (s : State) :
    initCallbacks (madeFrom call cs s.nextObject) (callbackMap call s) =
      callbackMap call (cs.foldl Registration.tryEmplace s) := by
  induction cs generalizing s with
  | nil => rfl
  | cons c cs ih =>
    have hone : (callbackMap call s).tryEmplace (isCallback call c s.nextObject) =
        callbackMap call (Registration.tryEmplace s c) := by
      have hentries := insertNew_entries call s.nextObject s.callbacks all_sorted c.mem_all
      simp only [callbackMap, CallbackMap.tryEmplace, Registration.tryEmplace, hentries]
    rw [List.foldl_cons, ← ih, ← hone]
    rfl

/-- The command on the game's own callbacks. -/
theorem createCallbacks_hooks (recordTraffic : Bool) (s : State)
    (hs : s.hooks.Pairwise fun h g => h.address < g.address) :
    (createCallbacks (madeFrom call (Registration.defaults recordTraffic) s.nextObject)
        (callbackMap call s) (s.hooks.map (hookEntry call))).hooks =
      (Registration.createCallbacks recordTraffic s).hooks.map (hookEntry call) := by
  have hhooks : ∀ (cs : List Callback) (s : State),
      (cs.foldl Registration.tryEmplace s).hooks = s.hooks := by
    intro cs
    induction cs with
    | nil => exact fun _ => rfl
    | cons c cs ih => exact fun s => ih (Registration.tryEmplace s c)
  unfold createCallbacks
  dsimp only
  rw [initCallbacks_callbackMap]
  show (addCallbacks (entries call Callback.all _) _).1 = _
  rw [← hhooks (Registration.defaults recordTraffic) s] at hs ⊢
  exact addCallbacks_hookEntry call Callback.all _ hs

/-- The hooks of the game, its callbacks, and the end of its loop. -/
def oneGame : List Registration.Action :=
  [.createHook "on_frame_update" 0x55de4f, .createHook "on_gameloop_exit" 0x72dfb0,
    .createHook "on_progress_update" 0x643c62, .createHook "cb_debug_print" 0x4068e0,
    .createCallbacks false, .call 0x72dfb0]

/-- What `CBExitGameLoop` leaves: its own callback is still registered. -/
def afterGame : State := (Reasoning.run Registration.step State.init oneGame).get (by decide)

/-- The next `CreateCallbacks` registers three callbacks before it finds that of the game loop. -/
theorem afterGame_not_allOrNothing :
    ¬AllOrNothing (afterGame.hooks.map (hookEntry fun _ (s : Unit) => s))
      (createCallbacks (madeFrom (fun _ s => s) (Registration.defaults false) afterGame.nextObject)
        (callbackMap (fun _ s => s) afterGame)
        (afterGame.hooks.map (hookEntry fun _ s => s))) := by
  intro h
  have hsame := h.1 (by decide)
  have hcounts := congrArg (List.map fun h => h.callbacks.length) hsame
  revert hcounts
  decide

end Registration

end Ra2yrcpp.Hook.CreateCallbacks
