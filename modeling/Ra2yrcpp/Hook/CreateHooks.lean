import Ra2yrcpp.Hook.Install

/-!
# The `CreateHooks` command

The handler of `commands_builtin.cpp` on Windows: it suspends the threads of the process, creates the
hooks it was asked for, and resumes the threads behind the loop, which `create_hook` may leave by an
exception.
-/

namespace Ra2yrcpp.Hook.CreateHooks

open Install

/-! ## The handler -/

/-- `ra2yrproto::commands::CreateHooks`. -/
structure Args where
  hooks : List HookCall
  noSuspendThreads : Bool
  deriving DecidableEq, Repr

/-- The loop over the hooks: the service it leaves, and the exception that ended it. -/
def createLoop (env : Nat → Environment) : Service → List HookCall → Service × Option Failure
  | S, [] => (S, none)
  | S, h :: hooks =>
    match createHook (env h.target) S h with
    | .error e => (S, some e)
    | .ok S => createLoop env S hooks

def suspendThreads (S : Service) (ns : List ThreadId) : Service :=
  { S with process := S.process.suspendThreads ns }

def resumeThreads (S : Service) (ns : List ThreadId) : Service :=
  { S with process := S.process.resumeThreads ns }

/-- The handler, run by the thread `currentTid`. -/
def handler (env : Nat → Environment) (currentTid : ThreadId) (S : Service) (a : Args) :
    Service × Option Failure :=
  let ns := getConnectionThreads S
  if a.noSuspendThreads then createLoop env S a.hooks
  else
    let ns := ns ++ [currentTid]
    match createLoop env (suspendThreads S ns) a.hooks with
    | (S, some e) => (S, some e)
    | (S, none) => (resumeThreads S ns, none)

/-- No address is hooked already, or asked for twice. -/
def NewAddresses (S : Service) (hooks : List HookCall) : Prop :=
  (∀ c ∈ hooks, ∀ h ∈ S.hooks, h.srcAddress ≠ c.target) ∧ (hooks.map HookCall.target).Nodup

instance (S : Service) (hooks : List HookCall) : Decidable (NewAddresses S hooks) :=
  inferInstanceAs (Decidable (_ ∧ _))

/-- All threads of the process are exempt from the suspension. -/
def OnlyMasked (currentTid : ThreadId) (S : Service) : Prop :=
  ∀ t ∈ S.process.threads, t = S.ioServiceTid ∨ t = currentTid

instance (currentTid : ThreadId) (S : Service) : Decidable (OnlyMasked currentTid S) :=
  inferInstanceAs (Decidable (∀ t ∈ S.process.threads, _))

def CountsKept (S S' : Service) : Prop :=
  ∀ t, S'.process.suspendCount t = S.process.suspendCount t

/-! ## The loop -/

section Loop

variable (env : Nat → Environment) (S : Service) (hooks : List HookCall)

/-- The loop without the state it leaves when it throws. -/
theorem createLoop_eq_createHooks :
    createHooks env S hooks = match createLoop env S hooks with
      | (_, some e) => .error e
      | (S', none) => .ok S' := by
  induction hooks generalizing S with
  | nil => rfl
  | cons h hooks ih =>
    rw [createHooks, createLoop]
    cases hcreate : createHook (env h.target) S h with
    | error e => rfl
    | ok S' => exact ih S'

/-- A hook is created behind the suspension: the patch itself suspends nothing. -/
theorem createLoop_counts :
    (createLoop env S hooks).1.process.suspendCount = S.process.suspendCount ∧
      (createLoop env S hooks).1.process.threads = S.process.threads := by
  induction hooks generalizing S with
  | nil => exact ⟨rfl, rfl⟩
  | cons h hooks ih =>
    rw [createLoop]
    cases hcreate : createHook (env h.target) S h with
    | error e => exact ⟨rfl, rfl⟩
    | ok S' =>
      have hprocess := (createHook_cases hcreate).2.2
      have hS' := ih S'
      rw [hprocess] at hS'
      exact hS'

theorem createLoop_returns_iff : (createLoop env S hooks).2 = none ↔ NewAddresses S hooks := by
  induction hooks generalizing S with
  | nil => simp [createLoop, NewAddresses]
  | cons c hooks ih =>
    rw [createLoop]
    cases hcreate : createHook (env c.target) S c with
    | error e =>
      apply iff_of_false
      · exact nofun
      · intro hnew
        obtain ⟨S', hS'⟩ := createHook_isOk (env c.target) (hnew.1 c List.mem_cons_self)
        rw [hcreate] at hS'
        cases hS'
    | ok S' =>
      -- the new hook is one more address that the rest must not ask for
      obtain ⟨hc, hperm, -⟩ := createHook_cases hcreate
      have hmem : ∀ h, h ∈ S'.hooks ↔ h = newHook (env c.target) S c ∨ h ∈ S.hooks := by
        intro h
        rw [hperm.mem_iff, List.mem_cons]
      rw [ih, NewAddresses, NewAddresses, List.map_cons, List.nodup_cons, List.mem_map]
      constructor
      · intro hnew
        refine ⟨?_, ?_, hnew.2⟩
        · intro c' hc' h hh
          rcases List.mem_cons.mp hc' with rfl | hc'
          · exact hc h hh
          · exact hnew.1 c' hc' h ((hmem h).mpr (.inr hh))
        · intro hex
          obtain ⟨c', hc', heq⟩ := hex
          exact hnew.1 c' hc' _ ((hmem _).mpr (.inl rfl)) heq.symm
      · intro hnew
        refine ⟨?_, hnew.2.2⟩
        intro c' hc' h hh
        rcases (hmem h).mp hh with rfl | hh
        · intro heq
          exact hnew.2.1 ⟨c', hc', heq.symm⟩
        · exact hnew.1 c' (List.mem_cons_of_mem _ hc') h hh

end Loop

/-! ## Suspend counts after the command -/

/-- Each thread that was suspended is resumed once, however its memory has changed meanwhile. -/
theorem suspendCount_resume_of_suspended {P Q : Process} (ns : List ThreadId)
    (hcount : Q.suspendCount = (P.suspendThreads ns).suspendCount)
    (hthreads : Q.threads = P.threads) (t : ThreadId) :
    (Q.resumeThreads ns).suspendCount t = P.suspendCount t := by
  rw [Process.suspendCount_resumeThreads, hcount, Process.suspendCount_suspendThreads]
  simp only [hthreads]
  split <;> omega

theorem mem_noSuspend_iff (S : Service) (currentTid t : ThreadId) :
    t ∈ getConnectionThreads S ++ [currentTid] ↔ t = S.ioServiceTid ∨ t = currentTid := by
  simp [getConnectionThreads]

section Handler

variable (env : Nat → Environment) (currentTid : ThreadId) (S : Service) (a : Args)

theorem handler_noSuspend (hno : a.noSuspendThreads = true) :
    handler env currentTid S a = createLoop env S a.hooks := by
  unfold handler
  dsimp only
  rw [if_pos hno]

/-- The loop runs with all threads suspended but the masked ones. -/
theorem handler_suspended (hno : a.noSuspendThreads = false) :
    let ns := getConnectionThreads S ++ [currentTid]
    let r := createLoop env (suspendThreads S ns) a.hooks
    handler env currentTid S a = if r.2 = none then (resumeThreads r.1 ns, none) else r := by
  intro ns r
  unfold handler
  dsimp only
  rw [if_neg (by simp [hno])]
  show (match r with
    | (S, some e) => (S, some e)
    | (S, none) => (resumeThreads S ns, none)) = _
  obtain ⟨S', e⟩ := r
  cases e <;> rfl

/-- The suspend counts after `CreateHooks` are those before it exactly when it was told not to
suspend, no address is hooked already or asked for twice, or there is no thread to suspend. -/
theorem handler_countsKept_iff :
    CountsKept S (handler env currentTid S a).1 ↔
      a.noSuspendThreads = true ∨ NewAddresses S a.hooks ∨ OnlyMasked currentTid S := by
  cases hno : a.noSuspendThreads with
  | true =>
    apply iff_of_true
    · intro t
      rw [handler_noSuspend env currentTid S a hno, (createLoop_counts ..).1]
    · exact .inl rfl
  | false =>
    have hhandler := handler_suspended env currentTid S a hno
    dsimp only at hhandler
    obtain ⟨hcount, hthreads⟩ :=
      createLoop_counts env (suspendThreads S (getConnectionThreads S ++ [currentTid])) a.hooks
    have hreturns :=
      createLoop_returns_iff env (suspendThreads S (getConnectionThreads S ++ [currentTid])) a.hooks
    generalize createLoop env (suspendThreads S (getConnectionThreads S ++ [currentTid])) a.hooks =
      r at hhandler hcount hthreads hreturns
    -- the suspension leaves the table of hooks alone
    change r.2 = none ↔ NewAddresses S a.hooks at hreturns
    rw [hhandler, ← hreturns]
    by_cases hr : r.2 = none
    -- the threads are resumed only here
    · apply iff_of_true
      · intro t
        rw [if_pos hr]
        exact suspendCount_resume_of_suspended _ hcount
          (hthreads.trans (Process.threads_suspendThreads _ _)) t
      · exact .inr (.inl hr)
    · rw [if_neg hr]
      have hleft : ∀ t, r.1.process.suspendCount t =
          if t ∈ S.process.threads ∧ t ∉ getConnectionThreads S ++ [currentTid] then
            S.process.suspendCount t + 1 else S.process.suspendCount t := by
        intro t
        rw [hcount]
        exact Process.suspendCount_suspendThreads S.process _ t
      constructor
      -- a thread that is not masked stays suspended once more than before
      · intro hkept
        refine .inr (.inr ?_)
        intro t ht
        have htkept := hkept t
        rw [hleft t] at htkept
        by_contra hmasked
        rw [← mem_noSuspend_iff] at hmasked
        rw [if_pos ⟨ht, hmasked⟩] at htkept
        omega
      · intro hcond t
        rcases hcond with hfalse | hfalse | hmasked
        · cases hfalse
        · exact absurd hfalse hr
        · rw [hleft t, if_neg]
          intro ht
          exact ht.2 ((mem_noSuspend_iff S currentTid t).mpr (hmasked t ht.1))

end Handler

/-! ## An address that is hooked already -/

/-- The game's thread 1, the worker's 2 and the connection's 3, none suspended. -/
def threeThreads : Process where
  threads := [1, 2, 3]
  suspendCount _ := 0
  memory _ := 0
  nodup := nodup_threeThreads

def buffer : Environment where
  code := 0x10000
  mainTid := 2
  eip _ _ := 0
  exitEip _ _ := 0
  countEnter _ := 0
  countExit _ := 0
  fuel := 1

/-- A service with one hook, at `0x401000`. -/
def oneHook : Service where
  process := threeThreads
  hooks := [⟨0x401000, 6, "on_frame_update", [3], true, 0x10000, List.replicate 6 0, rfl⟩]
  ioServiceTid := 3

/-- The address is asked for again, and the thread of the game stays suspended. -/
theorem oneHook_repeat_leaks_suspension :
    ¬CountsKept oneHook
      (handler (fun _ => buffer) 2 oneHook ⟨[⟨"again", 0x401000, 6⟩], false⟩).1 := by
  intro h
  have hgame := h 1
  revert hgame
  decide

end Ra2yrcpp.Hook.CreateHooks
