import Mathlib.Data.List.Basic
import Mathlib.Data.List.Nodup
import Mathlib.Logic.Function.Basic
import Ra2yrcpp.Reasoning.Transition

/-!
# Registration of callbacks

`create_callbacks` makes the callback objects of the game and adds each of them to the hook that has
its target's name; `CBExitGameLoop::do_call` takes them from their hooks and deletes them.  Hooks are
kept by address, so a name leads to the hook with the smallest address among those of that name.
Both hold the storage and the hook map locked, and are one step each.
-/

namespace Ra2yrcpp.Hook.Registration

open Reasoning

/-- The classes of callbacks, in the order of their `key_name`s. -/
inductive Callback
  | gameCommand
  | updateLoadProgress
  | debugPrint
  | exitGameLoop
  | saveState
  | tunnelRecvFrom
  | tunnelSendTo
  deriving DecidableEq, Repr

namespace Callback

/-- `key_name`. -/
def name : Callback → String
  | gameCommand => "cb_game_command"
  | updateLoadProgress => "cb_progress_update"
  | debugPrint => "debug_print"
  | exitGameLoop => "gameloop_exit"
  | saveState => "save_state"
  | tunnelRecvFrom => "tunnel_recvfrom"
  | tunnelSendTo => "tunnel_sendto"

/-- `key_target`. -/
def target : Callback → String
  | gameCommand => "on_frame_update"
  | updateLoadProgress => "on_progress_update"
  | debugPrint => "cb_debug_print"
  | exitGameLoop => "on_gameloop_exit"
  | saveState => "on_frame_update"
  | tunnelRecvFrom => "cb_tunnel_recvfrom"
  | tunnelSendTo => "cb_tunnel_sendto"

/-- The order in which a map from names goes through them. -/
def all : List Callback :=
  [gameCommand, updateLoadProgress, debugPrint, exitGameLoop, saveState, tunnelRecvFrom, tunnelSendTo]

end Callback

example : (Callback.all.map Callback.name).Pairwise (· < ·) := by decide

abbrev ObjectId := Nat

/-- A `HookCallback` that `add_to_hook` made.  Its `max_calls` is 0: no call of the hook removes it. -/
structure Registered where
  callback : Callback
  /-- The `ISCallback` that its function captures. -/
  object : ObjectId
  deriving DecidableEq, Repr

structure HookEntry where
  address : Nat
  name : String
  callbacks : List Registered
  deriving DecidableEq, Repr

structure State where
  /-- `hooks_`, in the order of its keys. -/
  hooks : List HookEntry
  /-- `GameDataYR::callbacks`. -/
  callbacks : Callback → Option ObjectId
  nextObject : ObjectId
  /-- An exception has left `Hook::call`; nothing in the process catches it. -/
  terminated : Bool

def State.init : State := ⟨[], fun _ => none, 0, false⟩

/-- `std::find_if` over the hooks, by name. -/
def findHook (hooks : List HookEntry) (name : String) : Option HookEntry := hooks.find? fun h => h.name = name

/-- What `f` makes of the callbacks of the hook, if it is at the address. -/
def HookEntry.update (address : Nat) (f : List Registered → List Registered) (h : HookEntry) :
    HookEntry :=
  if h.address = address then { h with callbacks := f h.callbacks } else h

def updateHook (address : Nat) (f : List Registered → List Registered) (hooks : List HookEntry) :
    List HookEntry :=
  hooks.map (HookEntry.update address f)

def insertHook (h : HookEntry) : List HookEntry → List HookEntry
  | [] => [h]
  | g :: hooks => if h.address < g.address then h :: g :: hooks else g :: insertHook h hooks

/-- `create_hook`; an address that is in use throws. -/
def createHook (s : State) (name : String) (address : Nat) : State :=
  if ∃ h ∈ s.hooks, h.address = address then s
  else { s with hooks := insertHook ⟨address, name, []⟩ s.hooks }

/-- The callbacks that `init_callbacks` makes; the tunnel's with `RA2YRCPP_RECORD_TRAFFIC` only. -/
def defaults (recordTraffic : Bool) : List Callback :=
  (if recordTraffic then [.tunnelRecvFrom, .tunnelSendTo] else []) ++
    [.exitGameLoop, .gameCommand, .saveState, .updateLoadProgress, .debugPrint]

/-- `try_emplace` of a new object; where the name is there, the object is destroyed again. -/
def tryEmplace (s : State) (c : Callback) : State :=
  { s with
    callbacks := if (s.callbacks c).isSome then s.callbacks
      else Function.update s.callbacks c (some s.nextObject)
    nextObject := s.nextObject + 1 }

/-- `init_callbacks`.  Nothing sets `callbacks_initialized`. -/
def initCallbacks (recordTraffic : Bool) (s : State) : State :=
  (defaults recordTraffic).foldl tryEmplace s

/-- The loop of `create_callbacks` over the names in the map; both `throw`s end it. -/
def addCallbacks : List Callback → State → State
  | [], s => s
  | c :: cs, s =>
    match s.callbacks c with
    | none => addCallbacks cs s
    | some object =>
      match findHook s.hooks c.target with
      | none => s
      | some h =>
        if ∃ r ∈ h.callbacks, r.callback = c then s
        else addCallbacks cs
          { s with hooks := updateHook h.address (· ++ [⟨c, object⟩]) s.hooks }

def createCallbacks (recordTraffic : Bool) (s : State) : State :=
  addCallbacks Callback.all (initCallbacks recordTraffic s)

/-- `Hook::remove_callback` on the callbacks of a hook that has one of that name. -/
def removeCallback (c : Callback) (rs : List Registered) : List Registered :=
  rs.eraseP fun r => r.callback = c

/-- The loop of `CBExitGameLoop::do_call`.  Where no hook is found the object stays; where the hook
has no such callback, `remove_callback` throws. -/
def removeCallbacks : List Callback → State → State
  | [], s => s
  | c :: cs, s =>
    if c = .exitGameLoop ∨ s.callbacks c = none then removeCallbacks cs s
    else
      match findHook s.hooks c.target with
      | none => removeCallbacks cs s
      | some h =>
        if ∃ r ∈ h.callbacks, r.callback = c then
          removeCallbacks cs
            { s with
              hooks := updateHook h.address (removeCallback c) s.hooks
              callbacks := Function.update s.callbacks c none }
        else { s with terminated := true }

/-- `Hook::call`: of the callbacks of the game only `CBExitGameLoop` changes registrations. -/
def call (h : HookEntry) (s : State) : State :=
  if ∃ r ∈ h.callbacks, r.callback = .exitGameLoop then removeCallbacks Callback.all s else s

inductive Action
  /-- One hook of a `CreateHooks` command. -/
  | createHook (name : String) (address : Nat)
  | createCallbacks (recordTraffic : Bool)
  | call (address : Nat)
  deriving DecidableEq, Repr

def step (s : State) (a : Action) : Option State :=
  if s.terminated then none
  else
    match a with
    | .createHook name address => some (createHook s name address)
    | .createCallbacks recordTraffic => some (createCallbacks recordTraffic s)
    | .call address => (s.hooks.find? fun h => h.address = address).map fun h => call h s

/-- No hook has a callback whose object was deleted. -/
def NoDeleted (s : State) : Prop :=
  ∀ h ∈ s.hooks, ∀ r ∈ h.callbacks, ∃ c ∈ Callback.all, s.callbacks c = some r.object

instance (s : State) : Decidable (NoDeleted s) :=
  inferInstanceAs (Decidable (∀ h ∈ s.hooks, ∀ r ∈ h.callbacks, ∃ c ∈ Callback.all, _ = _))

/-- A second hook with the name of the first, below it, gets the callbacks again; at the end of the
game loop they are taken from the second hook only. -/
def hookTwice : List Action :=
  [.createHook "on_frame_update" 0x55de4f, .createHook "on_gameloop_exit" 0x72dfb0,
    .createHook "on_progress_update" 0x643c62, .createHook "cb_debug_print" 0x4068e0,
    .createCallbacks false, .createHook "on_frame_update" 0x400000, .createCallbacks false,
    .call 0x72dfb0]

theorem deleted_in_first_hook :
    ∃ s, run step State.init hookTwice = some s ∧ ¬NoDeleted s := by
  refine ⟨(run step State.init hookTwice).get (by decide), by simp, ?_⟩
  decide

/-! ## The condition -/

/-- No hook is created below one that has the same name and callbacks. -/
def KeepsFirst (s : State) : Action → Prop
  | .createHook name address => ∀ h ∈ s.hooks, h.name = name → address < h.address → h.callbacks = []
  | _ => True

instance (s : State) : (a : Action) → Decidable (KeepsFirst s a)
  | .createHook _ _ => inferInstanceAs (Decidable (∀ h ∈ s.hooks, _ → _ → _ = _))
  | .createCallbacks _ => isTrue trivial
  | .call _ => isTrue trivial

/-- Every callback is where its target's name leads to, once, and its object is the one of its
name. -/
structure Wf (s : State) : Prop where
  sorted : s.hooks.Pairwise fun h g => h.address < g.address
  nodup : ∀ h ∈ s.hooks, (h.callbacks.map Registered.callback).Nodup
  found : ∀ h ∈ s.hooks, ∀ r ∈ h.callbacks, findHook s.hooks r.callback.target = some h
  object : ∀ h ∈ s.hooks, ∀ r ∈ h.callbacks, s.callbacks r.callback = some r.object

theorem wf_init : Wf State.init where
  sorted := List.Pairwise.nil
  nodup _ h := by cases h
  found _ h := by cases h
  object _ h := by cases h

theorem Callback.mem_all (c : Callback) : c ∈ Callback.all := by
  cases c <;> decide

theorem Wf.noDeleted {s : State} (h : Wf s) : NoDeleted s :=
  fun g hg r hr => ⟨r.callback, r.callback.mem_all, h.object g hg r hr⟩

/-! ## Hooks by name -/

variable {hooks : List HookEntry} {h g : HookEntry} {name : String} {address : Nat}
  {f : List Registered → List Registered}

theorem findHook_mem (hfind : findHook hooks name = some h) : h ∈ hooks ∧ h.name = name := by
  unfold findHook at hfind
  exact ⟨List.mem_of_find?_eq_some hfind, by simpa using List.find?_some hfind⟩

theorem mem_insertHook : g ∈ insertHook h hooks ↔ g = h ∨ g ∈ hooks := by
  induction hooks with
  | nil => simp [insertHook]
  | cons k hooks ih =>
    unfold insertHook
    split
    · rw [List.mem_cons]
    · rw [List.mem_cons, ih, List.mem_cons]
      exact or_left_comm

theorem insertHook_sorted (hs : hooks.Pairwise fun h g => h.address < g.address)
    (hnew : ∀ g ∈ hooks, g.address ≠ h.address) :
    (insertHook h hooks).Pairwise fun h g => h.address < g.address := by
  induction hooks with
  | nil => exact List.pairwise_singleton _ _
  | cons k hooks ih =>
    have hk := List.pairwise_cons.mp hs
    unfold insertHook
    split
    · next hlt =>
      apply List.pairwise_cons.mpr
      constructor
      · intro g hg
        cases List.mem_cons.mp hg with
        | inl he => exact he ▸ hlt
        | inr hmem => exact Nat.lt_trans hlt (hk.1 g hmem)
      · exact hs
    · next hge =>
      apply List.pairwise_cons.mpr
      constructor
      · intro g hg
        cases mem_insertHook.mp hg with
        | inl he =>
          have hne := hnew k List.mem_cons_self
          rw [he]
          omega
        | inr hmem => exact hk.1 g hmem
      · exact ih hk.2 fun g hg => hnew g (List.mem_cons_of_mem k hg)

/-- A new hook behind the one that a name leads to does not change where it leads. -/
theorem findHook_insertHook (hs : hooks.Pairwise fun h g => h.address < g.address)
    (hfind : findHook hooks name = some g) (hbehind : h.name = name → g.address < h.address) :
    findHook (insertHook h hooks) name = some g := by
  induction hooks with
  | nil => cases hfind
  | cons k hooks ih =>
    have hk := List.pairwise_cons.mp hs
    unfold insertHook
    split
    · next hlt =>
      -- the new hook comes first, so it has another name
      have hg : k.address ≤ g.address := by
        cases List.mem_cons.mp (findHook_mem hfind).1 with
        | inl he => exact Nat.le_of_eq (congrArg HookEntry.address he.symm)
        | inr hmem => exact Nat.le_of_lt (hk.1 g hmem)
      have hname : h.name ≠ name := by
        intro he
        have hlt' := hbehind he
        omega
      unfold findHook
      rw [List.find?_cons_of_neg (by simpa using hname)]
      exact hfind
    · unfold findHook at hfind ⊢
      by_cases hkn : k.name = name
      · rw [List.find?_cons_of_pos (by simpa using hkn)] at hfind ⊢
        exact hfind
      · rw [List.find?_cons_of_neg (by simpa using hkn)] at hfind ⊢
        exact ih hk.2 hfind

@[simp] theorem update_name : (h.update address f).name = h.name := by
  unfold HookEntry.update
  split <;> rfl

@[simp] theorem update_address : (h.update address f).address = h.address := by
  unfold HookEntry.update
  split <;> rfl

theorem update_of_ne (hne : h.address ≠ address) : h.update address f = h := if_neg hne

theorem update_self : h.update h.address f = { h with callbacks := f h.callbacks } := if_pos rfl

theorem findHook_updateHook :
    findHook (updateHook address f hooks) name = (findHook hooks name).map (.update address f) := by
  unfold findHook updateHook
  rw [List.find?_map]
  congr 2
  ext h
  simp

theorem eq_of_address (hs : hooks.Pairwise fun h g => h.address < g.address) (hh : h ∈ hooks)
    (hg : g ∈ hooks) (ha : g.address = h.address) : g = h := by
  induction hooks with
  | nil => cases hh
  | cons k hooks ih =>
    have hk := List.pairwise_cons.mp hs
    cases List.mem_cons.mp hh with
    | inl hhk =>
      cases List.mem_cons.mp hg with
      | inl hgk => rw [hgk, hhk]
      | inr hmem =>
        have hlt := hk.1 g hmem
        rw [← hhk] at hlt
        omega
    | inr hhm =>
      cases List.mem_cons.mp hg with
      | inl hgk =>
        have hlt := hk.1 h hhm
        rw [← hgk] at hlt
        omega
      | inr hgm => exact ih hk.2 hhm hgm

/-! ## Steps -/

variable {s : State}

/-- The callbacks of the hook `h` become others, and some objects may go. -/
theorem Wf.update (hw : Wf s) (hh : h ∈ s.hooks) {m : Callback → Option ObjectId}
    (hnodup : ((f h.callbacks).map Registered.callback).Nodup)
    (hfound : ∀ r ∈ f h.callbacks, findHook s.hooks r.callback.target = some h)
    (hobject : ∀ r ∈ f h.callbacks, m r.callback = some r.object)
    (hothers : ∀ g ∈ s.hooks, g ≠ h → ∀ r ∈ g.callbacks, m r.callback = some r.object) :
    Wf { s with hooks := updateHook h.address f s.hooks, callbacks := m } := by
  -- a hook of the new list is `h` with the new callbacks, or another one as it was
  have hmem : ∀ g' ∈ updateHook h.address f s.hooks,
      g' = { h with callbacks := f h.callbacks } ∨ g' ∈ s.hooks ∧ g' ≠ h ∧ g'.address ≠ h.address := by
    intro g' hg'
    obtain ⟨g, hg, rfl⟩ := List.mem_map.mp hg'
    by_cases ha : g.address = h.address
    · rw [eq_of_address hw.sorted hh hg ha, update_self]
      exact Or.inl rfl
    · rw [update_of_ne ha]
      exact Or.inr ⟨hg, fun he => ha (he ▸ rfl), ha⟩
  constructor
  · exact List.pairwise_map.mpr (by simpa using hw.sorted)
  · intro g' hg'
    cases hmem g' hg' with
    | inl he =>
      rw [he]
      exact hnodup
    | inr hold => exact hw.nodup g' hold.1
  · intro g' hg' r hr
    dsimp only
    rw [findHook_updateHook]
    cases hmem g' hg' with
    | inl he =>
      rw [he] at hr ⊢
      rw [hfound r hr, Option.map_some, update_self]
    | inr hold =>
      rw [hw.found g' hold.1 r hr, Option.map_some, update_of_ne hold.2.2]
  · intro g' hg' r hr
    cases hmem g' hg' with
    | inl he =>
      rw [he] at hr
      exact hobject r hr
    | inr hold => exact hothers g' hold.1 hold.2.1 r hr

theorem Wf.createHook (hw : Wf s) (hok : KeepsFirst s (.createHook name address)) :
    Wf (createHook s name address) := by
  unfold Registration.createHook
  split
  · exact hw
  · next hnew =>
    have hne : ∀ g ∈ s.hooks, g.address ≠ address := fun g hg ha => hnew ⟨g, hg, ha⟩
    constructor
    · exact insertHook_sorted hw.sorted hne
    · intro g hg
      cases mem_insertHook.mp hg with
      | inl he =>
        rw [he]
        exact List.nodup_nil
      | inr hmem => exact hw.nodup g hmem
    · intro g hg r hr
      cases mem_insertHook.mp hg with
      | inl he =>
        rw [he] at hr
        cases hr
      | inr hmem =>
        have hfind := hw.found g hmem r hr
        apply findHook_insertHook hw.sorted hfind
        intro hname
        -- a hook below `g` would have to find it without callbacks
        have hge : ¬address < g.address := by
          intro hlt
          have hnil := hok g hmem ((findHook_mem hfind).2.trans hname.symm) hlt
          rw [hnil] at hr
          cases hr
        have hneq := hne g hmem
        show g.address < address
        omega
    · intro g hg r hr
      cases mem_insertHook.mp hg with
      | inl he =>
        rw [he] at hr
        cases hr
      | inr hmem => exact hw.object g hmem r hr

/-- A name that has an object keeps it. -/
theorem Wf.tryEmplace (hw : Wf s) (c : Callback) : Wf (tryEmplace s c) where
  sorted := hw.sorted
  nodup := hw.nodup
  found := hw.found
  object := by
    intro h hh r hr
    have ho := hw.object h hh r hr
    unfold Registration.tryEmplace
    dsimp only
    split
    · exact ho
    · next hnone =>
      have hne : r.callback ≠ c := by
        intro he
        rw [← he, ho] at hnone
        exact hnone rfl
      rw [Function.update_of_ne hne]
      exact ho

theorem Wf.initCallbacks (hw : Wf s) (recordTraffic : Bool) : Wf (initCallbacks recordTraffic s) := by
  unfold Registration.initCallbacks
  generalize defaults recordTraffic = cs
  induction cs generalizing s with
  | nil => exact hw
  | cons c cs ih => exact ih (hw.tryEmplace c)

theorem Wf.addCallbacks (hw : Wf s) (cs : List Callback) : Wf (addCallbacks cs s) := by
  induction cs generalizing s with
  | nil => exact hw
  | cons c cs ih =>
    unfold Registration.addCallbacks
    split
    · exact ih hw
    · next object hobject =>
      split
      · exact hw
      · next h hfind =>
        split
        · exact hw
        · next hnew =>
          have hh := (findHook_mem hfind).1
          apply ih
          apply hw.update hh
          · rw [List.map_append, List.nodup_append]
            refine ⟨hw.nodup h hh, List.nodup_singleton _, ?_⟩
            intro d hd d' hd' he
            obtain ⟨r, hr, hrd⟩ := List.mem_map.mp hd
            have hc : d' = c := List.mem_singleton.mp hd'
            exact hnew ⟨r, hr, hrd.trans (he.trans hc)⟩
          · intro r hr
            cases List.mem_append.mp hr with
            | inl hold => exact hw.found h hh r hold
            | inr hadd =>
              rw [List.mem_singleton.mp hadd]
              exact hfind
          · intro r hr
            cases List.mem_append.mp hr with
            | inl hold => exact hw.object h hh r hold
            | inr hadd =>
              rw [List.mem_singleton.mp hadd]
              exact hobject
          · exact fun g hg _ => hw.object g hg

theorem Registered.ne_of_mem_removeCallback {c : Callback} {rs : List Registered} {r : Registered}
    (hnodup : (rs.map Registered.callback).Nodup) (hr : r ∈ removeCallback c rs) :
    r.callback ≠ c := by
  induction rs with
  | nil => cases hr
  | cons q rs ih =>
    have hq := List.nodup_cons.mp hnodup
    unfold removeCallback at hr
    by_cases hc : q.callback = c
    · rw [List.eraseP_cons_of_pos (by simpa using hc)] at hr
      intro he
      exact hq.1 (List.mem_map.mpr ⟨r, hr, he.trans hc.symm⟩)
    · rw [List.eraseP_cons_of_neg (by simpa using hc)] at hr
      cases List.mem_cons.mp hr with
      | inl he => rwa [he]
      | inr hmem => exact ih hq.2 hmem

/-- What is removed was registered in the one hook that the target's name leads to. -/
theorem Wf.removeCallbacks (hw : Wf s) (cs : List Callback) : Wf (removeCallbacks cs s) := by
  induction cs generalizing s with
  | nil => exact hw
  | cons c cs ih =>
    unfold Registration.removeCallbacks
    split
    · exact ih hw
    · split
      · exact ih hw
      · next h hfind =>
        split
        · have hh := (findHook_mem hfind).1
          have hsub : ∀ r ∈ removeCallback c h.callbacks, r ∈ h.callbacks :=
            fun r hr => List.mem_of_mem_eraseP hr
          apply ih
          apply hw.update hh
          · exact (List.eraseP_sublist.map Registered.callback).nodup (hw.nodup h hh)
          · exact fun r hr => hw.found h hh r (hsub r hr)
          · intro r hr
            rw [Function.update_of_ne (Registered.ne_of_mem_removeCallback (hw.nodup h hh) hr)]
            exact hw.object h hh r (hsub r hr)
          · intro g hg hne r hr
            have hrc : r.callback ≠ c := by
              intro he
              have hfound := hw.found g hg r hr
              rw [he, hfind] at hfound
              exact hne (Option.some.inj hfound).symm
            rw [Function.update_of_ne hrc]
            exact hw.object g hg r hr
        · exact ⟨hw.sorted, hw.nodup, hw.found, hw.object⟩

theorem wf_step {t : State} {a : Action} (hw : Wf s) (hok : KeepsFirst s a)
    (hstep : step s a = some t) : Wf t := by
  unfold step at hstep
  split at hstep
  · cases hstep
  · cases a with
    | createHook name address =>
      rw [← Option.some.inj hstep]
      exact hw.createHook hok
    | createCallbacks recordTraffic =>
      rw [← Option.some.inj hstep]
      exact (hw.initCallbacks recordTraffic).addCallbacks Callback.all
    | call address =>
      obtain ⟨h, -, rfl⟩ := Option.map_eq_some_iff.mp hstep
      unfold call
      split
      · exact hw.removeCallbacks Callback.all
      · exact hw

/-- In every run in which no hook is created below one that has the same name and callbacks, no hook
has a callback whose object was deleted. -/
theorem no_deleted_callback {acts : List Action} (hok : Conforms step KeepsFirst State.init acts)
    (hrun : run step State.init acts = some s) : NoDeleted s := by
  have hstep : ∀ s a t, Wf s → KeepsFirst s a → step s a = some t → Wf t :=
    fun _ _ _ h hok hstep => wf_step h hok hstep
  exact (run_invariant_of_conforms hstep wf_init hok hrun).noDeleted

/-- The hooks of the game and a second one above the first; two rounds of the game loop. -/
def hookAbove : List Action :=
  [.createHook "on_frame_update" 0x55de4f, .createHook "on_gameloop_exit" 0x72dfb0,
    .createHook "on_progress_update" 0x643c62, .createHook "cb_debug_print" 0x4068e0,
    .createCallbacks false, .createHook "on_frame_update" 0x600000, .createCallbacks false,
    .call 0x55de4f, .call 0x72dfb0, .createCallbacks false]

theorem hookAbove_noDeleted :
    ∃ s, run step State.init hookAbove = some s ∧ NoDeleted s := by
  have hrun : run step State.init hookAbove =
      some ((run step State.init hookAbove).get (by decide)) := by
    simp
  exact ⟨_, hrun, no_deleted_callback (by decide) hrun⟩

end Ra2yrcpp.Hook.Registration
