import Mathlib.Data.List.Sort
import Mathlib.Tactic.IntervalCases
import Ra2yrcpp.Hook.Process
import Ra2yrcpp.Reasoning.X86

/-!
# Installing and removing hooks

`create_hook` of the instrumentation service, the constructor of `Hook`, which saves the code that
the trampoline overwrites, and its destructor, which writes that code back.
-/

namespace Ra2yrcpp.Hook.Install

open Reasoning Reasoning.X86

def byteOf (w : Word) (i : Nat) : UInt8 := UInt8.ofNat (w.toNat / 256 ^ i)

/-- `DetourTrampoline`: `push imm32`, `ret`, and `nop` up to `code_length`. -/
def trampolineCode (target : Word) (codeLength : Nat) : List UInt8 :=
  [0x68, byteOf target 0, byteOf target 1, byteOf target 2, byteOf target 3, 0xc3] ++
    List.replicate (codeLength - 6) 0x90

/-- A `Hook`.  The buffer of its `DetourMain` is its own: no patch of another hook goes there. -/
structure Installed where
  srcAddress : Nat
  codeLength : Nat
  name : String
  noSuspend : List ThreadId
  manual : Bool
  /-- The address `dm_.getCode()`. -/
  code : Word
  /-- The first `code_length` bytes there. -/
  displaced : List UInt8
  length_displaced : displaced.length = codeLength

/-- What one hook meets: where its buffer is allocated, and what the checks of its waits find. -/
structure Environment where
  code : Word
  mainTid : ThreadId
  /-- The instruction pointers at the checks of `patch_code_safe`. -/
  eip : Nat → ThreadId → Nat
  /-- The instruction pointers and the counters at the checks of `~Hook`. -/
  exitEip : Nat → ThreadId → Nat
  countEnter : Nat → Word
  countExit : Nat → Word
  fuel : Nat

/-- `Hook::Hook`. -/
def construct (env : Environment) (srcAddress codeLength : Nat) (name : String)
    (noSuspend : List ThreadId) (manual : Bool) (P : Process) : Option (Installed × Process) :=
  let h : Installed :=
    { srcAddress, codeLength, name, noSuspend, manual
      code := env.code
      displaced := read P.memory srcAddress codeLength
      length_displaced := length_read }
  let f := trampolineCode env.code codeLength
  if manual then some (h, patchCode P srcAddress f)
  else
    (patchCodeSafe noSuspend env.mainTid env.eip srcAddress f env.fuel P).map fun P => (h, P)

/-- The wait of `~Hook`, behind the patch. -/
def exitLoop (env : Environment) (target length : Nat) : Nat → Nat → Process → Option Process
  | 0, _, _ => none
  | fuel + 1, k, P =>
    if numThreadsAtTgt P env.mainTid (env.exitEip k) target length > 0 ∨
        env.countEnter k ≠ env.countExit k then
      exitLoop env target length fuel (k + 1) (threadsResumeWaitPause P env.mainTid)
    else some P

/-- `Hook::~Hook`. -/
def destruct (env : Environment) (h : Installed) (P : Process) : Option Process := do
  let P ← patchCodeSafe h.noSuspend env.mainTid env.eip h.srcAddress h.displaced env.fuel P
  let P ← exitLoop env h.code.toNat h.codeLength env.fuel 0 (P.suspendThreads [env.mainTid])
  return P.resumeOthers env.mainTid

structure Service where
  process : Process
  /-- `hooks_`, in the order of its keys. -/
  hooks : List Installed := []
  ioServiceTid : ThreadId

/-- Why a call has not returned: `std::runtime_error`, or a wait that goes on. -/
inductive Failure
  | runtimeError (what : String)
  | waiting
  deriving DecidableEq, Repr

def getConnectionThreads (S : Service) : List ThreadId := [S.ioServiceTid]

structure HookCall where
  name : String
  target : Nat
  codeLength : Nat
  deriving DecidableEq, Repr

def formatPointer (p : Nat) : String := "0x" ++ String.ofList (Nat.toDigits 16 p)

def createHook (env : Environment) (S : Service) (c : HookCall) : Except Failure Service :=
  if ∃ h ∈ S.hooks, h.srcAddress = c.target then
    .error (.runtimeError
      ("Can't overwrite existing hook (name=" ++ c.name ++ " address=" ++ formatPointer c.target ++
        ")"))
  else
    match construct env c.target c.codeLength c.name (getConnectionThreads S) true S.process with
    | none => .error .waiting
    | some (h, P) =>
      .ok { S with
        process := P
        hooks := S.hooks.orderedInsert (fun h h' => h.srcAddress ≤ h'.srcAddress) h }

/-- A sequence of calls; the environment of a hook is found under its target. -/
def createHooks (env : Nat → Environment) : Service → List HookCall → Except Failure Service
  | S, [] => .ok S
  | S, c :: calls =>
    match createHook (env c.target) S c with
    | .error e => .error e
    | .ok S => createHooks env S calls

/-- Destroys the entries of the map one after the other. -/
def destroyHooks (env : Nat → Environment) : List Installed → Process → Option Process
  | [], P => some P
  | h :: hooks, P => (destruct (env h.srcAddress) h P).bind (destroyHooks env hooks)

/-! ## What one hook does to the memory -/

/-- The trampoline is in place. -/
def Intact (m : Nat → UInt8) (h : Installed) : Prop :=
  read m h.srcAddress h.codeLength = trampolineCode h.code h.codeLength

def Apart (a n b k : Nat) : Prop := a + n ≤ b ∨ b + k ≤ a

instance (a n b k : Nat) : Decidable (Apart a n b k) := inferInstanceAs (Decidable (_ ∨ _))

def Installed.Apart (h h' : Installed) : Prop :=
  Install.Apart h.srcAddress h.codeLength h'.srcAddress h'.codeLength

/-- The two calls patch disjoint regions. -/
def HookCall.Apart (c c' : HookCall) : Prop :=
  Install.Apart c.target c.codeLength c'.target c'.codeLength

instance (c c' : HookCall) : Decidable (c.Apart c') :=
  inferInstanceAs (Decidable (Install.Apart _ _ _ _))

def Installed.Covers (h : Installed) (x : Nat) : Prop :=
  h.srcAddress ≤ x ∧ x < h.srcAddress + h.codeLength

theorem length_trampolineCode (target : Word) {n : Nat} (h : 6 ≤ n) :
    (trampolineCode target n).length = n := by
  simp only [trampolineCode, List.length_append, List.length_cons, List.length_nil,
    List.length_replicate]
  omega

/-- The checks of both waits find the region empty some time. -/
def Environment.Ends (env : Environment) (h : Installed) (P : Process) : Prop :=
  (∃ n < env.fuel, numThreadsAtTgt P env.mainTid (env.eip n) h.srcAddress h.codeLength = 0) ∧
    ∃ n < env.fuel, numThreadsAtTgt P env.mainTid (env.exitEip n) h.code.toNat h.codeLength = 0 ∧
      env.countEnter n = env.countExit n

section ExitLoop

variable {env : Environment} {target length fuel k : Nat} {P P' : Process}

theorem exitLoop_rest (h : exitLoop env target length fuel k P = some P') :
    P'.threads = P.threads ∧ P'.memory = P.memory := by
  induction fuel generalizing k P with
  | zero => cases h
  | succ fuel ih =>
    rw [exitLoop] at h
    split at h
    · simpa using ih h
    · obtain rfl := Option.some.inj h
      exact ⟨rfl, rfl⟩

theorem exitLoop_isSome {n : Nat} (hn : n < fuel)
    (hidle : numThreadsAtTgt P env.mainTid (env.exitEip (k + n)) target length = 0)
    (hcount : env.countEnter (k + n) = env.countExit (k + n)) :
    (exitLoop env target length fuel k P).isSome := by
  induction fuel generalizing k P n with
  | zero => exact absurd hn (Nat.not_lt_zero n)
  | succ fuel ih =>
    rw [exitLoop]
    split
    · next hbusy =>
      have hpos : n ≠ 0 := by
        rintro rfl
        rw [Nat.add_zero] at hidle hcount
        rcases hbusy with hbusy | hbusy
        · omega
        · exact hbusy hcount
      have hk : k + 1 + (n - 1) = k + n := by omega
      refine ih (n := n - 1) (by omega) ?_ ?_
      · rw [hk, numThreadsAtTgt_congr (threads_threadsResumeWaitPause P env.mainTid)]
        exact hidle
      · rw [hk]
        exact hcount
    · rfl

end ExitLoop

theorem destruct_spec {env : Environment} {h : Installed} {P P' : Process}
    (hd : destruct env h P = some P') :
    P'.threads = P.threads ∧ P'.memory = write P.memory h.srcAddress h.displaced := by
  obtain ⟨Q, hQ, hd⟩ := Option.bind_eq_some_iff.mp hd
  obtain ⟨R, hR, hd⟩ := Option.bind_eq_some_iff.mp hd
  obtain rfl := Option.some.inj hd
  have hrest := exitLoop_rest hR
  rw [Process.threads_suspendThreads, Process.memory_suspendThreads] at hrest
  rw [Process.threads_resumeOthers, Process.memory_resumeOthers, hrest.1, hrest.2]
  exact ⟨threads_patchCodeSafe hQ, memory_patchCodeSafe hQ⟩

theorem destruct_isSome {env : Environment} {h : Installed} {P : Process} (hends : env.Ends h P) :
    ∃ P', destruct env h P = some P' := by
  obtain ⟨⟨n, hn, hidle⟩, k, hk, hexit, hcount⟩ := hends
  rw [← h.length_displaced] at hidle
  have hpatch : (patchCodeSafe h.noSuspend env.mainTid env.eip h.srcAddress h.displaced env.fuel
      P).isSome := patchCodeSafe_isSome_of_idle hn hidle
  obtain ⟨Q, hQ⟩ := Option.isSome_iff_exists.mp hpatch
  have hthreads : (Q.suspendThreads [env.mainTid]).threads = P.threads := by
    rw [Process.threads_suspendThreads, threads_patchCodeSafe hQ]
  rw [← numThreadsAtTgt_congr hthreads, ← Nat.zero_add k] at hexit
  rw [← Nat.zero_add k] at hcount
  obtain ⟨R, hR⟩ := Option.isSome_iff_exists.mp (exitLoop_isSome hk hexit hcount)
  refine ⟨R.resumeOthers env.mainTid, ?_⟩
  unfold destruct
  rw [hQ, Option.bind_eq_bind, Option.bind_some, hR]
  rfl

/-! ## Creating hooks -/

/-- The hook that a call adds. -/
def newHook (env : Environment) (S : Service) (c : HookCall) : Installed where
  srcAddress := c.target
  codeLength := c.codeLength
  name := c.name
  noSuspend := getConnectionThreads S
  manual := true
  code := env.code
  displaced := read S.process.memory c.target c.codeLength
  length_displaced := length_read

theorem createHook_cases {env : Environment} {S S' : Service} {c : HookCall}
    (h : createHook env S c = .ok S') :
    (∀ h ∈ S.hooks, h.srcAddress ≠ c.target) ∧
      S'.hooks.Perm (newHook env S c :: S.hooks) ∧
      S'.process = patchCode S.process c.target (trampolineCode env.code c.codeLength) := by
  unfold createHook at h
  split at h
  · cases h
  · next hnew =>
    obtain rfl := Except.ok.inj h
    refine ⟨fun h hh heq => hnew ⟨h, hh, heq⟩, List.perm_orderedInsert _ _ _, rfl⟩

theorem createHook_isOk (env : Environment) {S : Service} {c : HookCall}
    (hnew : ∀ h ∈ S.hooks, h.srcAddress ≠ c.target) : ∃ S', createHook env S c = .ok S' := by
  refine ⟨_, if_neg ?_⟩
  rintro ⟨h, hh, heq⟩
  exact hnew h hh heq

/-- The hooks of `S'` are those of `S` and one for each call. -/
theorem createHooks_hooks {env : Nat → Environment} {S S' : Service} {calls : List HookCall}
    (h : createHooks env S calls = .ok S') :
    (∀ hook ∈ S.hooks, hook ∈ S'.hooks) ∧
      ∀ c ∈ calls, ∃ hook ∈ S'.hooks,
        hook.srcAddress = c.target ∧ hook.codeLength = c.codeLength ∧
          hook.code = (env c.target).code := by
  induction calls generalizing S with
  | nil =>
    obtain rfl := Except.ok.inj h
    exact ⟨fun _ => id, nofun⟩
  | cons c calls ih =>
    rw [createHooks] at h
    split at h
    · cases h
    · next S₁ hS₁ =>
      obtain ⟨-, hperm, -⟩ := createHook_cases hS₁
      obtain ⟨hkeep, hall⟩ := ih h
      constructor
      · intro hook hhook
        exact hkeep hook (hperm.mem_iff.mpr (List.mem_cons_of_mem _ hhook))
      · intro c' hc'
        rcases List.mem_cons.mp hc' with rfl | hc'
        · exact ⟨_, hkeep _ (hperm.mem_iff.mpr List.mem_cons_self), rfl, rfl, rfl⟩
        · exact hall c' hc'

theorem createHooks_isOk (env : Nat → Environment) {S : Service} {calls : List HookCall}
    (hold : ∀ h ∈ S.hooks, ∀ c ∈ calls, h.srcAddress ≠ c.target)
    (hnodup : (calls.map HookCall.target).Nodup) : ∃ S', createHooks env S calls = .ok S' := by
  induction calls generalizing S with
  | nil => exact ⟨S, rfl⟩
  | cons c calls ih =>
    obtain ⟨hc, hnodup⟩ := List.nodup_cons.mp hnodup
    obtain ⟨S₁, hS₁⟩ := createHook_isOk (env c.target) fun h hh => hold h hh c List.mem_cons_self
    rw [createHooks, hS₁]
    refine ih ?_ hnodup
    intro h hh c' hc'
    obtain ⟨-, hperm, -⟩ := createHook_cases hS₁
    rcases List.mem_cons.mp (hperm.mem_iff.mp hh) with rfl | hh
    · exact fun heq => hc (List.mem_map.mpr ⟨c', hc', heq.symm⟩)
    · exact hold h hh c' (List.mem_cons_of_mem _ hc')

/-! ## Disjoint regions -/

/-- Hooks on disjoint regions of the memory `m₀`. -/
structure Patched (m₀ : Nat → UInt8) (hooks : List Installed) (m : Nat → UInt8) : Prop where
  apart : hooks.Pairwise Installed.Apart
  displaced : ∀ h ∈ hooks, h.displaced = read m₀ h.srcAddress h.codeLength
  intact : ∀ h ∈ hooks, Intact m h
  frame : ∀ x, (∀ h ∈ hooks, ¬h.Covers x) → m x = m₀ x

theorem patched_nil (m : Nat → UInt8) : Patched m [] m where
  apart := .nil
  displaced := nofun
  intact := nofun
  frame _ _ := rfl

theorem Patched.perm {m₀ m : Nat → UInt8} {hooks hooks' : List Installed}
    (hs : Patched m₀ hooks m) (hperm : hooks'.Perm hooks) : Patched m₀ hooks' m where
  apart := hs.apart.perm hperm.symm Or.symm
  displaced h hh := hs.displaced h (hperm.mem_iff.mp hh)
  intact h hh := hs.intact h (hperm.mem_iff.mp hh)
  frame x hx := hs.frame x fun h hh => hx h (hperm.mem_iff.mpr hh)

/-- The region of a new hook is still the original one, and its trampoline stays out of the others. -/
theorem Patched.create {m₀ m : Nat → UInt8} {hooks : List Installed} {h : Installed}
    (hs : Patched m₀ hooks m) (hsix : 6 ≤ h.codeLength) (hapart : ∀ h' ∈ hooks, h.Apart h')
    (hdisplaced : h.displaced = read m h.srcAddress h.codeLength) :
    Patched m₀ (h :: hooks) (write m h.srcAddress (trampolineCode h.code h.codeLength)) where
  apart := List.pairwise_cons.mpr ⟨hapart, hs.apart⟩
  displaced h' hh' := by
    rcases List.mem_cons.mp hh' with rfl | hh'
    · rw [hdisplaced]
      apply read_congr
      intro x hle hlt
      apply hs.frame
      intro h'' hh'' hcovers
      have hlow := hcovers.1
      have hhigh := hcovers.2
      rcases hapart h'' hh'' with h | h <;> omega
    · exact hs.displaced h' hh'
  intact h' hh' := by
    have hlen := length_trampolineCode h.code hsix
    rcases List.mem_cons.mp hh' with rfl | hh'
    · have hread : read (write m h'.srcAddress (trampolineCode h'.code h'.codeLength)) h'.srcAddress
          (trampolineCode h'.code h'.codeLength).length = trampolineCode h'.code h'.codeLength :=
        read_write_same
      rwa [hlen] at hread
    · unfold Intact
      rw [read_write_disjoint (by rw [hlen]; exact hapart h' hh')]
      exact hs.intact h' hh'
  frame x hx := by
    have hlen := length_trampolineCode h.code hsix
    have hout := hx h List.mem_cons_self
    rw [← hs.frame x fun h' hh' => hx h' (List.mem_cons_of_mem _ hh')]
    apply write_of_outside
    rw [hlen]
    exact hout

/-- Writing the displaced code back leaves the other hooks as they are. -/
theorem Patched.destroy {m₀ m : Nat → UInt8} {hooks : List Installed} {h : Installed}
    (hs : Patched m₀ (h :: hooks) m) : Patched m₀ hooks (write m h.srcAddress h.displaced) where
  apart := (List.pairwise_cons.mp hs.apart).2
  displaced h' hh' := hs.displaced h' (List.mem_cons_of_mem _ hh')
  intact h' hh' := by
    have hapart := (List.pairwise_cons.mp hs.apart).1 h' hh'
    unfold Intact
    rw [read_write_disjoint (by rw [h.length_displaced]; exact hapart)]
    exact hs.intact h' (List.mem_cons_of_mem _ hh')
  frame x hx := by
    by_cases hcovers : h.Covers x
    · rw [hs.displaced h List.mem_cons_self]
      exact write_read_apply hcovers.1 hcovers.2
    · have hkeep : write m h.srcAddress h.displaced x = m x := by
        apply write_of_outside
        rw [h.length_displaced]
        exact hcovers
      rw [hkeep]
      apply hs.frame
      intro h' hh'
      rcases List.mem_cons.mp hh' with rfl | hh'
      · exact hcovers
      · exact hx h' hh'

theorem createHooks_patched {env : Nat → Environment} {S S' : Service} {calls : List HookCall}
    {m₀ : Nat → UInt8} (hs : Patched m₀ S.hooks S.process.memory)
    (hsix : ∀ c ∈ calls, 6 ≤ c.codeLength) (hapart : calls.Pairwise HookCall.Apart)
    (hold : ∀ h ∈ S.hooks, ∀ c ∈ calls, Apart c.target c.codeLength h.srcAddress h.codeLength)
    (h : createHooks env S calls = .ok S') : Patched m₀ S'.hooks S'.process.memory := by
  induction calls generalizing S with
  | nil =>
    obtain rfl := Except.ok.inj h
    exact hs
  | cons c calls ih =>
    rw [createHooks] at h
    split at h
    · cases h
    · next S₁ hS₁ =>
      obtain ⟨hc, hapart⟩ := List.pairwise_cons.mp hapart
      obtain ⟨-, hperm, hprocess⟩ := createHook_cases hS₁
      refine ih ?_ (fun c' hc' => hsix c' (List.mem_cons_of_mem _ hc')) hapart ?_ h
      · rw [hprocess]
        refine Patched.perm (Patched.create hs ?_ ?_ rfl) hperm
        · exact hsix c List.mem_cons_self
        · exact fun h' hh' => hold h' hh' c List.mem_cons_self
      · intro h' hh' c' hc'
        rcases List.mem_cons.mp (hperm.mem_iff.mp hh') with rfl | hh'
        · exact (hc c' hc').symm
        · exact hold h' hh' c' (List.mem_cons_of_mem _ hc')

theorem destroyHooks_patched {env : Nat → Environment} {m₀ : Nat → UInt8}
    {done rest : List Installed} {P : Process} (hs : Patched m₀ (done ++ rest) P.memory)
    (hends : ∀ h ∈ done, (env h.srcAddress).Ends h P) :
    ∃ P', destroyHooks env done P = some P' ∧ Patched m₀ rest P'.memory := by
  induction done generalizing P with
  | nil => exact ⟨P, rfl, hs⟩
  | cons h done ih =>
    obtain ⟨Q, hQ⟩ := destruct_isSome (hends h List.mem_cons_self)
    obtain ⟨hthreads, hmemory⟩ := destruct_spec hQ
    rw [destroyHooks, hQ, Option.bind_some]
    refine ih ?_ ?_
    · rw [hmemory]
      exact hs.destroy
    · intro h' hh'
      have hends := hends h' (List.mem_cons_of_mem _ hh')
      unfold Environment.Ends at hends ⊢
      simp only [numThreadsAtTgt_congr hthreads]
      exact hends

/-- While they are installed the trampolines are in place, and removing all the hooks restores the
memory; for every service without hooks and every allocation of the buffers. -/
def Unhooks (calls : List HookCall) : Prop :=
  ∀ (env : Nat → Environment) (S₀ : Service), S₀.hooks = [] → ∀ pre, pre <+: calls →
    ∃ S, createHooks env S₀ pre = .ok S ∧
      ∀ done rest, S.hooks = done ++ rest →
        (∀ h ∈ done, (env h.srcAddress).Ends h S.process) →
        ∃ P, destroyHooks env done S.process = some P ∧ (∀ h ∈ rest, Intact P.memory h) ∧
          (rest = [] → P.memory = S₀.process.memory)

theorem unhooks_of_apart {calls : List HookCall} (hsix : ∀ c ∈ calls, 6 ≤ c.codeLength)
    (hnodup : (calls.map HookCall.target).Nodup) (hapart : calls.Pairwise HookCall.Apart) :
    Unhooks calls := by
  intro env S₀ hempty pre hpre
  have hsub := hpre.sublist
  obtain ⟨S, hS⟩ := createHooks_isOk env (S := S₀) (by simp [hempty])
    (hnodup.sublist (hsub.map HookCall.target))
  have hs₀ : Patched S₀.process.memory S₀.hooks S₀.process.memory := by
    rw [hempty]
    exact patched_nil _
  have hs := createHooks_patched hs₀ (fun c hc => hsix c (hsub.subset hc)) (hapart.sublist hsub)
    (by simp [hempty]) hS
  refine ⟨S, hS, fun done rest hsplit hends => ?_⟩
  rw [hsplit] at hs
  obtain ⟨P, hP, hrest⟩ := destroyHooks_patched hs hends
  refine ⟨P, hP, hrest.intact, ?_⟩
  rintro rfl
  funext x
  exact hrest.frame x nofun

/-! ## Overlapping regions -/

def sampleService : Service where
  process :=
    { threads := [1, 2], suspendCount := fun _ => 0, memory := fun _ => 0, nodup := by decide }
  ioServiceTid := 2

/-- A buffer address without the first byte of a trampoline in it. -/
def sampleEnvironment : Environment where
  code := 0x20000000
  mainTid := 1
  eip _ _ := 0
  exitEip _ _ := 0
  countEnter _ := 0
  countExit _ := 0
  fuel := 1

theorem trampolineCode_ne_push (n : Nat) {i : Nat} (hi : 0 < i) :
    (trampolineCode 0x20000000 n)[i]? ≠ some 0x68 := by
  unfold trampolineCode
  by_cases hlt : i < 6
  · interval_cases i <;> simp [byteOf]
  · rw [List.getElem?_append_right (by simpa using hlt), List.getElem?_replicate]
    split <;> decide

/-- A trampoline does not start inside another one. -/
theorem not_overlap_of_intact {m : Nat → UInt8} {h h' : Installed} (hm : Intact m h)
    (hm' : Intact m h') (hsix : 6 ≤ h'.codeLength) (hcode : h.code = 0x20000000)
    (hlt : h.srcAddress < h'.srcAddress) : h.srcAddress + h.codeLength ≤ h'.srcAddress := by
  by_contra hover
  obtain ⟨i, hi⟩ := Nat.exists_eq_add_of_lt hlt
  have hfirst : some (m h'.srcAddress) = some 0x68 := by
    have hget := getElem?_read (m := m) (a := h'.srcAddress) (show 0 < h'.codeLength by omega)
    rw [← Nat.add_zero h'.srcAddress, ← hget, hm']
    rfl
  have hinner : some (m h'.srcAddress) ≠ some 0x68 := by
    have hget := getElem?_read (m := m) (a := h.srcAddress) (show i + 1 < h.codeLength by omega)
    rw [hi, Nat.add_assoc, ← hget, hm, hcode]
    exact trampolineCode_ne_push _ (Nat.succ_pos i)
  exact hinner hfirst

/-- Hooks can be removed again exactly when their regions are pairwise disjoint. -/
theorem unhooks_iff_apart {calls : List HookCall} (hsix : ∀ c ∈ calls, 6 ≤ c.codeLength)
    (hnodup : (calls.map HookCall.target).Nodup) :
    Unhooks calls ↔ calls.Pairwise HookCall.Apart := by
  refine ⟨fun hunhooks => ?_, unhooks_of_apart hsix hnodup⟩
  obtain ⟨S, hS, hall⟩ :=
    hunhooks (fun _ => sampleEnvironment) sampleService rfl calls List.prefix_rfl
  obtain ⟨P, hP, hintact, -⟩ := hall [] S.hooks rfl nofun
  obtain rfl := Option.some.inj hP
  have hhooks := (createHooks_hooks hS).2
  -- two trampolines that are both in place do not overlap
  refine (List.pairwise_map.mp hnodup).imp_of_mem fun {c c'} hc hc' hne => ?_
  obtain ⟨h, hh, htarget, hlength, hcode⟩ := hhooks c hc
  obtain ⟨h', hh', htarget', hlength', hcode'⟩ := hhooks c' hc'
  have hlong : 6 ≤ h.codeLength := hlength ▸ hsix c hc
  have hlong' : 6 ≤ h'.codeLength := hlength' ▸ hsix c' hc'
  unfold HookCall.Apart Apart
  rw [← htarget, ← htarget'] at hne ⊢
  rw [← hlength, ← hlength']
  rcases Nat.lt_or_gt_of_ne hne with hlt | hlt
  · exact .inl (not_overlap_of_intact (hintact h hh) (hintact h' hh') hlong' hcode hlt)
  · exact .inr (not_overlap_of_intact (hintact h' hh') (hintact h hh) hlong hcode' hlt)

/-- `gg_hooks` of `hooks_yr.cpp`. -/
def ggHooks : List HookCall :=
  [⟨"on_frame_update", 0x55de4f, 7⟩, ⟨"on_gameloop_exit", 0x72dfb0, 6⟩,
    ⟨"cb_tunnel_sendto", 0x7b3d6f, 6⟩, ⟨"cb_tunnel_recvfrom", 0x7b3f15, 6⟩,
    ⟨"on_progress_update", 0x643c62, 6⟩, ⟨"cb_debug_print", 0x4068e0, 6⟩]

theorem unhooks_ggHooks : Unhooks ggHooks :=
  (unhooks_iff_apart (by decide) (by decide)).mpr (by decide)

/-- The second region starts in the first one: the second hook saves three bytes of the trampoline of
the first one, overwrites them, and writes them back after the original code. -/
theorem overlapping_not_restored :
    ∃ S P, createHooks (fun _ => sampleEnvironment) sampleService
        [⟨"first", 0x1000, 6⟩, ⟨"second", 0x1003, 6⟩] = .ok S ∧
      (∃ h ∈ S.hooks, ¬Intact S.process.memory h) ∧
      destroyHooks (fun _ => sampleEnvironment) S.hooks S.process = some P ∧
      P.memory 0x1005 = 0xc3 ∧ sampleService.process.memory 0x1005 = 0 := by
  refine ⟨_, _, rfl, ⟨_, List.mem_cons_self, ?_⟩, rfl, ?_, rfl⟩
  · unfold Intact
    decide
  · decide

end Ra2yrcpp.Hook.Install
