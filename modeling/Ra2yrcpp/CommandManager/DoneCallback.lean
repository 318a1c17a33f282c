import Ra2yrcpp.CommandManager.BlockingRequest
import Ra2yrcpp.CommandManager.OneCommand

/-!
# Done callbacks

`Command::run` calls the handler and then the done callback; an exception of the handler skips the
callback.  `handle_cmd_wait` of `is_context.cpp`, which creates the hooks and the callbacks when the
service starts, waits for the callback of its command without looking at the result.
-/

open Ra2yrcpp.Reasoning

namespace Ra2yrcpp.CommandManager.DoneCallback

open Blocking (Completed)

/-- Where the thread that starts the service is in `handle_cmd_wait`. -/
inductive Starter
  | idle
  | made (p : CommandPtr)
  /-- in `done.wait(true)` -/
  | waiting (p : CommandPtr)
  deriving DecidableEq, Repr

/-- `calls` counts the invocations of each done callback, and `threw` tells the commands whose handler
ended with an exception. -/
structure Service where
  mgr : State
  starter : Starter
  calls : CommandPtr → Nat
  threw : CommandPtr → Bool

def Service.init : Service := ⟨State.init, .idle, fun _ => 0, fun _ => false⟩

inductive Action
  | manager (a : CommandManager.Action)
  | cmdWait (name : String) (data : Any)
  | starterEnqueues
  | starterReturns
  deriving DecidableEq, Repr

/-- `done_callback_(this)` runs between these stages; it returns or throws. -/
def invokes : Stage → Stage → Bool
  | .handled none, .called => true
  | .handled none, .handled (some _) => true
  | _, _ => false

/-- The step from `s` to `t` invokes the done callback of the command. -/
def invoked (s t : State) (p : CommandPtr) : Bool :=
  match s.worker, t.worker with
  | .user q st, .user _ st' => q == p && invokes st st' && (s.cmds p).doneCallback
  | _, _ => false

/-- The exception of the handler has reached the catch block of `get_cmd`. -/
def caught (t : State) (p : CommandPtr) : Bool :=
  match t.worker with
  | .user q (.thrown _ _) => q == p
  | _ => false

/-- A step of the manager. -/
def Service.go (S : Service) (m : State) : Service :=
  { S with
    mgr := m
    calls := fun p => S.calls p + (invoked S.mgr m p).toNat
    threw := fun p => S.threw p || caught m p }

/-- The command of `handle_cmd_wait` is enqueued by its own thread, and its callback, which sets a
flag, does not throw. -/
def Service.reserves (S : Service) : CommandManager.Action → Bool
  | .emplace p => decide (S.starter = .made p)
  | .callbackThrows _ => S.mgr.worker.held.any fun p => decide (S.starter = .waiting p)
  | _ => false

def step (handlers : String → Option Handler) (S : Service) : Action → Option Service
  | .manager a =>
    if S.reserves a then none else (CommandManager.step handlers S.mgr a).map S.go
  -- an unknown name throws out of `handle_cmd_wait`
  | .cmdWait name data =>
    if S.starter = .idle then
      (CommandManager.step handlers S.mgr (.makeCommand name data 0 true true)).map fun m =>
        { S.go m with
          starter := if (handlers name).isSome then .made S.mgr.nextPtr else .idle }
    else none
  | .starterEnqueues =>
    match S.starter with
    | .made p =>
      (CommandManager.step handlers S.mgr (.emplace p)).map fun m =>
        { S.go m with starter := .waiting p }
    | _ => none
  | .starterReturns =>
    match S.starter with
    | .waiting p => if 0 < S.calls p then some { S with starter := .idle } else none
    | _ => none

/-! ## Hooks that cannot be created -/

/-- The handler of `CreateHooks` throws. -/
def hooksThrow : List Action :=
  [Action.cmdWait "CreateHooks" [7], Action.starterEnqueues] ++
    List.replicate 4 (Action.manager .work) ++
    [Action.manager (.fnThrows [7] "hook overlaps")] ++ List.replicate 7 (Action.manager .work)

theorem starter_waits_for_ever :
    ∃ S, run (step fun _ => some plainHandler) Service.init hooksThrow = some S ∧
      Completed S.mgr 0 ∧ (S.mgr.cmds 0).doneCallback = true ∧ S.calls 0 = 0 ∧
      S.starter = .waiting 0 ∧ (step (fun _ => some plainHandler) S .starterReturns).isNone = true :=
  ⟨(run (step fun _ => some plainHandler) Service.init hooksThrow).get (by decide),
    by simp, by decide, by decide, by decide, by decide, by decide⟩

/-! ## How often a callback is invoked -/

variable {handlers : String → Option Handler} {s t : State} {a : CommandManager.Action}
  {p : CommandPtr} {S T : Service} {act : Action} {acts : List Action}

/-- The count for a handler that has ended. -/
def Once (calls : Nat) (threw : Bool) : Prop := calls = (!threw).toNat

/-- How far a command with a callback has come. -/
def CallsAt (calls : Nat) (threw : Bool) : Stage → Prop
  | .thrown _ _ => calls = 0 ∧ threw = true
  | .closing _ o => calls = 0 ∧ threw = o.isSome
  | .packing _ o => calls = 0 ∧ threw = o.isSome
  | .handled none => calls = 0 ∧ threw = false
  | .handled (some _) => Once calls threw
  | .called => calls = 1 ∧ threw = false
  | .erring => Once calls threw
  | .finished => Once calls threw
  | .storing => Once calls threw
  | _ => calls = 0 ∧ threw = false

def isThrown : Stage → Bool
  | .thrown _ _ => true
  | _ => false

theorem callsAt_move {h : Handler} {c c' : Command} {st st' : Stage} (hmove : UserMove h c st c' st')
    {calls : Nat} {threw : Bool} (hat : CallsAt calls threw st) :
    CallsAt (calls + (invokes st st').toNat) (threw || isThrown st') st' := by
  cases hmove with
  | fnReturns st m hst hbody =>
    cases st with
    | body | posting =>
      obtain ⟨rfl, rfl⟩ := hat
      exact ⟨rfl, rfl⟩
    | _ => cases hst
  | fnThrows st m msg hst =>
    cases st with
    | body | posting =>
      obtain ⟨rfl, rfl⟩ := hat
      exact ⟨rfl, rfl⟩
    | _ => cases hst
  | read m o hpending =>
    obtain ⟨rfl, rfl⟩ := hat
    exact ⟨rfl, Bool.or_false _⟩
  | skip m o hpending | pack m o =>
    obtain ⟨rfl, rfl⟩ := hat
    -- after an exception `run` does not come to the callback
    cases o with
    | none => exact ⟨rfl, rfl⟩
    | some msg => rfl
  | assign | storeError =>
    show Once (calls + 0) (threw || false)
    rw [Bool.or_false]
    exact hat
  | clear m msg => exact ⟨hat.1, by rw [hat.2]; rfl⟩
  | callbackThrows msg =>
    obtain ⟨rfl, rfl⟩ := hat
    rfl
  | storeOk =>
    obtain ⟨rfl, rfl⟩ := hat
    rfl
  | _ =>
    obtain ⟨rfl, rfl⟩ := hat
    exact ⟨rfl, rfl⟩

/-- The record of a command with a callback. -/
structure Counted (S : Service) (p : CommandPtr) : Prop where
  waits : S.mgr.waits p → S.calls p = 0 ∧ S.threw p = false
  stage : ∀ st, S.mgr.worker = .user p st → CallsAt (S.calls p) (S.threw p) st
  ended : ¬ S.mgr.waits p → (∀ st, S.mgr.worker ≠ .user p st) → Once (S.calls p) (S.threw p)

theorem invoked_user {st st' : Stage} (hst : s.worker = .user p st) (hst' : t.worker = .user p st')
    (hcallback : (s.cmds p).doneCallback = true) : invoked s t p = invokes st st' := by
  unfold invoked
  rw [hst, hst', hcallback]
  simp

theorem caught_user {st : Stage} (hst : t.worker = .user p st) : caught t p = isThrown st := by
  unfold caught
  rw [hst]
  cases st <;> simp [isThrown]

theorem invoked_of_ne (h : ∀ st, s.worker ≠ .user p st) : invoked s t p = false := by
  unfold invoked
  split
  · rename_i q st r st' hst hst'
    have hne : q ≠ p := by
      rintro rfl
      exact h st hst
    simp [hne]
  · rfl

theorem invoked_of_storing (hst : s.worker = .user p .storing) : invoked s t p = false := by
  unfold invoked
  rw [hst]
  cases t.worker with
  | user q st => simp [invokes]
  | _ => rfl

theorem invokes_self (st : Stage) : invokes st st = false := by
  cases st with
  | handled o => cases o <;> rfl
  | _ => rfl

theorem caught_of_ne (h : ∀ st, t.worker ≠ .user p st) : caught t p = false := by
  unfold caught
  split
  · rename_i q m msg hst
    have hne : q ≠ p := by
      rintro rfl
      exact h _ hst
    simp [hne]
  · rfl

/-- An exception is recorded when it reaches the catch block. -/
theorem CallsAt.or_isThrown {calls : Nat} {threw : Bool} {st : Stage} (hat : CallsAt calls threw st) :
    (threw || isThrown st) = threw := by
  cases st with
  | thrown m msg =>
    rw [hat.2]
    rfl
  | _ => exact Bool.or_false threw

theorem Counted.go (h : Counted S p) (hw : Wf S.mgr) (heff : Effect handlers S.mgr a t)
    (hlt : p < S.mgr.nextPtr) (hty : (S.mgr.cmds p).base.type = .user)
    (hcallback : (S.mgr.cmds p).doneCallback = true) : Counted (S.go t) p := by
  have hw' := wf_step hw heff
  -- where the worker does not execute the command, the record stays
  have hrecord : (∀ st, S.mgr.worker ≠ .user p st) → (∀ st, t.worker ≠ .user p st) →
      (S.go t).calls p = S.calls p ∧ (S.go t).threw p = S.threw p := by
    intro hs ht
    show S.calls p + (invoked S.mgr t p).toNat = _ ∧ (S.threw p || caught t p) = _
    rw [invoked_of_ne hs, caught_of_ne ht]
    exact ⟨rfl, Bool.or_false _⟩
  have hgo : ∀ st st', S.mgr.worker = .user p st → t.worker = .user p st' →
      CallsAt (S.calls p + (invokes st st').toNat) (S.threw p || isThrown st') st' →
      Counted (S.go t) p := by
    intro st st' hst hst' hat
    refine ⟨fun hwaits => absurd hwaits (hw'.not_waits hst'), fun st'' hst'' => ?_,
      fun _ hnone => absurd hst' (hnone st')⟩
    have heq : t.worker = .user p st'' := hst''
    rw [hst'] at heq
    obtain ⟨-, rfl⟩ := Worker.user.inj heq
    show CallsAt (S.calls p + (invoked S.mgr t p).toNat) (S.threw p || caught t p) st'
    rw [invoked_user hst hst' hcallback, caught_user hst']
    exact hat
  cases heff.course hw hlt hty with
  | same hworker hwaits hcmd hentries =>
    by_cases hheld : ∃ st, S.mgr.worker = .user p st
    · obtain ⟨st, hst⟩ := hheld
      apply hgo st st hst ((hworker st).mpr hst)
      rw [invokes_self, (h.stage st hst).or_isThrown]
      exact h.stage st hst
    · have hs : ∀ st, S.mgr.worker ≠ .user p st := fun st hst => hheld ⟨st, hst⟩
      have ht : ∀ st, t.worker ≠ .user p st := fun st hst => hs st ((hworker st).mp hst)
      obtain ⟨hcalls, hthrew⟩ := hrecord hs ht
      refine ⟨fun hw => ?_, fun st hst => absurd hst (ht st), fun hw _ => ?_⟩
      · rw [hcalls, hthrew]
        exact h.waits (hwaits.mp hw)
      · rw [hcalls, hthrew]
        exact h.ended (mt hwaits.mpr hw) hs
  | taken hwaits hworker hcmd hentries =>
    have hs : ∀ st, S.mgr.worker ≠ .user p st := fun st hst => hw.not_waits hst hwaits
    refine ⟨fun hw => absurd hw (hw'.not_waits hworker), fun st hst => ?_,
      fun _ hnone => absurd hworker (hnone _)⟩
    have heq : t.worker = .user p st := hst
    rw [hworker] at heq
    obtain ⟨-, rfl⟩ := Worker.user.inj heq
    show S.calls p + (invoked S.mgr t p).toNat = 0 ∧ (S.threw p || caught t p) = false
    rw [invoked_of_ne hs, caught_user hworker, (h.waits hwaits).1, (h.waits hwaits).2]
    exact ⟨rfl, rfl⟩
  | move st st' hd c hst hh hmove hst' hcmd hentries =>
    exact hgo st st' hst hst' (callsAt_move hmove (h.stage st hst))
  | put m hst hst' hcmd =>
    apply hgo _ _ hst hst'
    obtain ⟨hcalls, hthrew⟩ := h.stage _ hst
    rw [hcalls, hthrew]
    exact ⟨rfl, rfl⟩
  | record hst hst' hcmd hentries =>
    apply hgo _ _ hst hst'
    show Once (S.calls p + 0) (S.threw p || false)
    rw [Bool.or_false]
    exact h.stage _ hst
  | store hst hworker hwaits hcmd hentries =>
    refine ⟨fun hw => absurd (hwaits.mp hw) (Wf.not_waits ‹_› hst), fun st hst => absurd hst (hworker st),
      fun _ _ => ?_⟩
    show Once (S.calls p + (invoked S.mgr t p).toNat) (S.threw p || caught t p)
    rw [invoked_of_storing hst, caught_of_ne hworker, Bool.or_false]
    exact h.stage _ hst

/-! ## The invariant -/

structure Inv (S : Service) : Prop where
  wf : Wf S.mgr
  fresh : ∀ p, ¬ p < S.mgr.nextPtr → S.calls p = 0 ∧ S.threw p = false
  counted : ∀ p < S.mgr.nextPtr, (S.mgr.cmds p).base.type = .user →
    (S.mgr.cmds p).doneCallback = true → Counted S p
  starter : ∀ p, S.starter = .made p ∨ S.starter = .waiting p →
    p < S.mgr.nextPtr ∧ (S.mgr.cmds p).base.type = .user ∧ (S.mgr.cmds p).doneCallback = true

theorem inv_init : Inv Service.init where
  wf := wf_init
  fresh _ _ := ⟨rfl, rfl⟩
  counted _ hlt := absurd hlt (Nat.not_lt_zero _)
  starter _ h := h.elim nofun nofun

theorem Inv.go (h : Inv S) (heff : Effect handlers S.mgr a t) : Inv (S.go t) := by
  have hw' := wf_step h.wf heff
  have hkeeps := heff.keeps h.wf
  -- a command that was not there has no record
  have hnew : ∀ p, ¬ p < S.mgr.nextPtr → (∀ st, t.worker ≠ .user p st) →
      (S.go t).calls p = 0 ∧ (S.go t).threw p = false := by
    intro p hp ht
    have hs : ∀ st, S.mgr.worker ≠ .user p st := fun st hst => hp (h.wf.held_lt hst)
    show S.calls p + (invoked S.mgr t p).toNat = 0 ∧ (S.threw p || caught t p) = false
    rw [invoked_of_ne hs, caught_of_ne ht, (h.fresh p hp).1, (h.fresh p hp).2]
    exact ⟨rfl, rfl⟩
  refine ⟨hw', fun p hp => ?_, fun p hp hty hcallback => ?_, fun p hp => ?_⟩
  · apply hnew p fun hlt => hp (Nat.lt_of_lt_of_le hlt hkeeps.next)
    exact fun st hst => hp (hw'.held_lt hst)
  · by_cases hlt : p < S.mgr.nextPtr
    · have hty' : (S.mgr.cmds p).base.type = .user := by
        rw [← hkeeps.base hlt]
        exact hty
      have hcallback' : (S.mgr.cmds p).doneCallback = true :=
        (heff.doneCallback h.wf hlt).symm.trans hcallback
      exact (h.counted p hlt hty' hcallback').go h.wf heff hlt hty' hcallback'
    · obtain ⟨-, hworker, hwaits⟩ := heff.created h.wf hp hlt
      have ht : ∀ st, t.worker ≠ .user p st := by
        intro st hst
        rw [hworker] at hst
        exact hlt (h.wf.held_lt hst)
      exact ⟨fun _ => hnew p hlt ht, fun st hst => absurd hst (ht st), fun hw => absurd hwaits hw⟩
  · obtain ⟨hlt, hty, hcallback⟩ := h.starter p hp
    refine ⟨Nat.lt_of_lt_of_le hlt hkeeps.next, ?_, ?_⟩
    · show (t.cmds p).base.type = .user
      rw [hkeeps.base hlt]
      exact hty
    · exact (heff.doneCallback h.wf hlt).trans hcallback

theorem Inv.setStarter (h : Inv S) {st : Starter}
    (hst : ∀ p, st = .made p ∨ st = .waiting p → p < S.mgr.nextPtr ∧
      (S.mgr.cmds p).base.type = .user ∧ (S.mgr.cmds p).doneCallback = true) :
    Inv { S with starter := st } := by
  refine ⟨h.wf, h.fresh, fun p hp hty hcallback => ?_, hst⟩
  have hcounted := h.counted p hp hty hcallback
  exact ⟨hcounted.waits, hcounted.stage, hcounted.ended⟩

/-- The command that `handle_cmd_wait` makes. -/
theorem makeCommand_made {name : String} {data : Any} (hname : (handlers name).isSome = true)
    (ht : t = makeCommand handlers s name data 0 true true) :
    s.nextPtr < t.nextPtr ∧ (t.cmds s.nextPtr).base.type = .user ∧
      (t.cmds s.nextPtr).doneCallback = true := by
  obtain ⟨h, hh⟩ := Option.isSome_iff_exists.mp hname
  subst ht
  unfold makeCommand
  rw [hh]
  refine ⟨Nat.lt_succ_self _, ?_, ?_⟩
  · show (Function.update s.cmds s.nextPtr _ s.nextPtr).base.type = _
    rw [Function.update_self]
    rfl
  · show (Function.update s.cmds s.nextPtr _ s.nextPtr).doneCallback = _
    rw [Function.update_self]
    rfl

theorem inv_step (h : Inv S) (hstep : step handlers S act = some T) : Inv T := by
  cases act with
  | manager a =>
    simp only [step] at hstep
    split at hstep
    · cases hstep
    · obtain ⟨m, hm, rfl⟩ := Option.map_eq_some_iff.mp hstep
      exact h.go (step_effect hm)
  | cmdWait name data =>
    simp only [step] at hstep
    split at hstep
    · obtain ⟨m, hm, rfl⟩ := Option.map_eq_some_iff.mp hstep
      have heff : Effect handlers S.mgr (.makeCommand name data 0 true true) m := step_effect hm
      apply (h.go heff).setStarter
      intro p hp
      split at hp
      · rename_i hname
        have heq : S.mgr.nextPtr = p := by simpa using hp
        subst heq
        exact makeCommand_made hname (Option.some.inj hm).symm
      · cases hp with
        | inl hp => cases hp
        | inr hp => cases hp
    · cases hstep
  | starterEnqueues =>
    simp only [step] at hstep
    split at hstep
    · rename_i q hq
      obtain ⟨m, hm, rfl⟩ := Option.map_eq_some_iff.mp hstep
      have hgo := h.go (step_effect hm)
      apply hgo.setStarter
      intro p hp
      have heq : q = p := by simpa using hp
      subst heq
      exact hgo.starter q (Or.inl hq)
    · cases hstep
  | starterReturns =>
    simp only [step] at hstep
    split at hstep
    · split at hstep
      · obtain rfl := Option.some.inj hstep
        exact h.setStarter fun p hp => hp.elim nofun nofun
      · cases hstep
    · cases hstep

/-- A command that the worker is done with waits no more, and is not with the worker. -/
theorem once_of_completed (h : Inv S) (hty : (S.mgr.cmds p).base.type = .user)
    (hcallback : (S.mgr.cmds p).doneCallback = true) (hdone : Completed S.mgr p) :
    Once (S.calls p) (S.threw p) := by
  obtain ⟨hlt, hmade, hqueue, hheld⟩ := h.wf.done_alone hdone
  apply (h.counted p hlt hty hcallback).ended
  · rintro (hmem | hmem)
    · exact hmade hmem
    · exact hqueue hmem
  · intro st hst
    exact hheld (mem_held_of_user hst)

/-- For every command with a done callback that the worker has finished, in every interleaving: the
callback was invoked exactly once if and only if the handler did not throw; and `handle_cmd_wait`
returns for a finished command under the same condition. -/
theorem invoked_once_iff (hrun : run (step handlers) Service.init acts = some S) :
    (∀ p, (S.mgr.cmds p).base.type = .user → (S.mgr.cmds p).doneCallback = true →
      Completed S.mgr p → (S.calls p = 1 ↔ S.threw p = false)) ∧
    ∀ p, S.starter = .waiting p → Completed S.mgr p →
      ((step handlers S .starterReturns).isSome = true ↔ S.threw p = false) := by
  have h : Inv S := run_invariant (fun _ _ _ h hstep => inv_step h hstep) inv_init hrun
  constructor
  · intro p hty hcallback hdone
    have honce := once_of_completed h hty hcallback hdone
    unfold Once at honce
    cases hthrew : S.threw p with
    | true =>
      rw [hthrew] at honce
      rw [honce]
      decide
    | false =>
      rw [hthrew] at honce
      rw [honce]
      decide
  · intro p hp hdone
    obtain ⟨-, hty, hcallback⟩ := h.starter p (Or.inr hp)
    have honce := once_of_completed h hty hcallback hdone
    unfold Once at honce
    have hstep : step handlers S .starterReturns =
        if 0 < S.calls p then some { S with starter := .idle } else none := by
      simp only [step, hp]
    rw [hstep]
    cases hthrew : S.threw p with
    | true =>
      rw [hthrew] at honce
      rw [honce, if_neg (by decide)]
      exact ⟨nofun, nofun⟩
    | false =>
      rw [hthrew] at honce
      rw [honce]
      exact ⟨fun _ => rfl, fun _ => rfl⟩

/-- The handler of `CreateHooks` returns. -/
def hooksCreated : List Action :=
  [Action.cmdWait "CreateHooks" [7], Action.starterEnqueues] ++
    List.replicate 4 (Action.manager .work) ++
    [Action.manager (.fnReturns [7])] ++ List.replicate 6 (Action.manager .work)

theorem hooksCreated_invoked :
    ∃ S, run (step fun _ => some plainHandler) Service.init hooksCreated = some S ∧
      Completed S.mgr 0 ∧ S.starter = .waiting 0 ∧ S.calls 0 = 1 := by
  have hrun : run (step fun _ => some plainHandler) Service.init hooksCreated =
      some ((run (step fun _ => some plainHandler) Service.init hooksCreated).get (by decide)) := by
    simp
  exact ⟨_, hrun, by decide, by decide,
    ((invoked_once_iff hrun).1 0 (by decide) (by decide) (by decide)).mpr (by decide)⟩

end Ra2yrcpp.CommandManager.DoneCallback
