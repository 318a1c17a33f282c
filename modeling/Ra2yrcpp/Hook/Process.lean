import Mathlib.Data.List.Basic
import Mathlib.Data.List.Nodup
import Mathlib.Logic.Function.Basic
import Ra2yrcpp.Reasoning.ByteMemory

/-!
# Threads and patches

The process a hook is installed in: suspend counts of its threads, `suspend_threads` and
`resume_threads` of `process.cpp`, and `patch_code_safe` of `hook.cpp`, which waits until no thread
is in the region it patches.
-/

namespace Ra2yrcpp.Hook

open Reasoning

abbrev ThreadId := Nat

structure Process where
  threads : List ThreadId
  suspendCount : ThreadId → Nat
  memory : Nat → UInt8
  nodup : threads.Nodup

namespace Process

def writeMemory (P : Process) (address : Nat) (code : List UInt8) : Process :=
  { P with memory := write P.memory address code }

/-- `SuspendThread` and `ResumeThread` change the count of one thread. -/
def modifyCount (P : Process) (t : ThreadId) (f : Nat → Nat) : Process :=
  { P with suspendCount := Function.update P.suspendCount t (f (P.suspendCount t)) }

def suspend (P : Process) (t : ThreadId) : Process := P.modifyCount t (· + 1)

def resume (P : Process) (t : ThreadId) : Process := P.modifyCount t (· - 1)

def forEachThread (P : Process) (callback : Process → ThreadId → Process) : Process :=
  P.threads.foldl callback P

def suspendThreads (P : Process) (noSuspend : List ThreadId) : Process :=
  P.forEachThread fun P t => if t ∉ noSuspend then P.suspend t else P

/-- The overload of `resume_threads` with a list. -/
def resumeThreads (P : Process) (noResume : List ThreadId) : Process :=
  P.forEachThread fun P t => if t ∉ noResume then P.resume t else P

/-- The overload of `resume_threads` with one thread. -/
def resumeOthers (P : Process) (mainTid : ThreadId) : Process :=
  P.forEachThread fun P t => if t ≠ mainTid then P.resume t else P

end Process

/-- How many instruction pointers of the other threads are in the region. -/
def numThreadsAtTgt (P : Process) (mainTid : ThreadId) (eip : ThreadId → Nat)
    (target length : Nat) : Nat :=
  (P.threads.filter fun t => t ≠ mainTid).countP fun t =>
    decide (target ≤ eip t ∧ eip t < target + length)

def threadsResumeWaitPause (P : Process) (mainTid : ThreadId) : Process :=
  (P.resumeOthers mainTid).suspendThreads [mainTid]

/-- The wait of `patch_code_safe`.  `eip k` are the instruction pointers that the check with number
`k` finds; it gives up when the fuel is used up. -/
def waitLoop (mainTid : ThreadId) (eip : Nat → ThreadId → Nat) (target length : Nat) :
    Nat → Nat → Process → Option Process
  | 0, _, _ => none
  | fuel + 1, k, P =>
    if numThreadsAtTgt P mainTid (eip k) target length > 0 then
      waitLoop mainTid eip target length fuel (k + 1) (threadsResumeWaitPause P mainTid)
    else some P

def patchCode (P : Process) (targetAddress : Nat) (code : List UInt8) : Process :=
  P.writeMemory targetAddress code

def patchCodeSafe (noSuspend : List ThreadId) (mainTid : ThreadId) (eip : Nat → ThreadId → Nat)
    (targetAddress : Nat) (code : List UInt8) (fuel : Nat) (P : Process) : Option Process :=
  let ns := noSuspend ++ [mainTid]
  (waitLoop mainTid eip targetAddress code.length fuel 0 (P.suspendThreads ns)).map fun P =>
    (patchCode P targetAddress code).resumeThreads ns

/-! ## What the loops over the threads do -/

namespace Process

/-- A loop over the threads that changes the count of those with `p` by `f`. -/
theorem foldl_modifyCount (p : ThreadId → Prop) [DecidablePred p] (f : Nat → Nat) (P : Process)
    (l : List ThreadId) (hl : l.Nodup) (t : ThreadId) :
    (l.foldl (fun P t => if p t then P.modifyCount t f else P) P).suspendCount t =
      if t ∈ l ∧ p t then f (P.suspendCount t) else P.suspendCount t := by
  induction l generalizing P with
  | nil => simp
  | cons u l ih =>
    obtain ⟨hu, hl⟩ := List.nodup_cons.mp hl
    rw [List.foldl_cons, ih _ hl]
    by_cases htu : t = u
    · subst htu
      by_cases hp : p t <;> simp [hp, hu, modifyCount]
    · by_cases hp : p u <;> simp [hp, htu, modifyCount]

theorem foldl_modifyCount_rest (p : ThreadId → Prop) [DecidablePred p] (f : Nat → Nat)
    (P : Process) (l : List ThreadId) :
    (l.foldl (fun P t => if p t then P.modifyCount t f else P) P).threads = P.threads ∧
      (l.foldl (fun P t => if p t then P.modifyCount t f else P) P).memory = P.memory := by
  induction l generalizing P with
  | nil => exact ⟨rfl, rfl⟩
  | cons u l ih =>
    rw [List.foldl_cons]
    obtain ⟨hthreads, hmemory⟩ := ih (if p u then P.modifyCount u f else P)
    rw [hthreads, hmemory]
    split <;> exact ⟨rfl, rfl⟩

variable (P : Process) (ns : List ThreadId) (mainTid t : ThreadId)

theorem suspendCount_suspendThreads :
    (P.suspendThreads ns).suspendCount t =
      if t ∈ P.threads ∧ t ∉ ns then P.suspendCount t + 1 else P.suspendCount t :=
  foldl_modifyCount (· ∉ ns) (· + 1) P P.threads P.nodup t

theorem suspendCount_resumeThreads :
    (P.resumeThreads ns).suspendCount t =
      if t ∈ P.threads ∧ t ∉ ns then P.suspendCount t - 1 else P.suspendCount t :=
  foldl_modifyCount (· ∉ ns) (· - 1) P P.threads P.nodup t

theorem suspendCount_resumeOthers :
    (P.resumeOthers mainTid).suspendCount t =
      if t ∈ P.threads ∧ t ≠ mainTid then P.suspendCount t - 1 else P.suspendCount t :=
  foldl_modifyCount (· ≠ mainTid) (· - 1) P P.threads P.nodup t

@[simp] theorem threads_suspendThreads : (P.suspendThreads ns).threads = P.threads :=
  (foldl_modifyCount_rest (· ∉ ns) (· + 1) P P.threads).1

@[simp] theorem threads_resumeThreads : (P.resumeThreads ns).threads = P.threads :=
  (foldl_modifyCount_rest (· ∉ ns) (· - 1) P P.threads).1

@[simp] theorem threads_resumeOthers : (P.resumeOthers mainTid).threads = P.threads :=
  (foldl_modifyCount_rest (· ≠ mainTid) (· - 1) P P.threads).1

@[simp] theorem memory_suspendThreads : (P.suspendThreads ns).memory = P.memory :=
  (foldl_modifyCount_rest (· ∉ ns) (· + 1) P P.threads).2

@[simp] theorem memory_resumeThreads : (P.resumeThreads ns).memory = P.memory :=
  (foldl_modifyCount_rest (· ∉ ns) (· - 1) P P.threads).2

@[simp] theorem memory_resumeOthers : (P.resumeOthers mainTid).memory = P.memory :=
  (foldl_modifyCount_rest (· ≠ mainTid) (· - 1) P P.threads).2

end Process

/-! ## Suspend counts after a patch -/

theorem numThreadsAtTgt_congr {P Q : Process} (h : P.threads = Q.threads) (mainTid : ThreadId)
    (eip : ThreadId → Nat) (target length : Nat) :
    numThreadsAtTgt P mainTid eip target length = numThreadsAtTgt Q mainTid eip target length := by
  unfold numThreadsAtTgt
  rw [h]

@[simp] theorem threads_threadsResumeWaitPause (P : Process) (mainTid : ThreadId) :
    (threadsResumeWaitPause P mainTid).threads = P.threads := by
  simp [threadsResumeWaitPause]

@[simp] theorem memory_threadsResumeWaitPause (P : Process) (mainTid : ThreadId) :
    (threadsResumeWaitPause P mainTid).memory = P.memory := by
  simp [threadsResumeWaitPause]

/-- A round gives a thread its count back, or leaves it at one. -/
theorem suspendCount_threadsResumeWaitPause (P : Process) (mainTid t : ThreadId) :
    (threadsResumeWaitPause P mainTid).suspendCount t =
      if t ∈ P.threads ∧ t ≠ mainTid then P.suspendCount t - 1 + 1 else P.suspendCount t := by
  unfold threadsResumeWaitPause
  rw [Process.suspendCount_suspendThreads, Process.suspendCount_resumeOthers,
    Process.threads_resumeOthers]
  by_cases ht : t ∈ P.threads ∧ t ≠ mainTid
  · simp [ht]
  · simp only [List.mem_singleton, if_neg ht]

section WaitLoop

variable {mainTid : ThreadId} {eip : Nat → ThreadId → Nat} {target length fuel k : Nat}
  {P P' : Process}

theorem waitLoop_rest (h : waitLoop mainTid eip target length fuel k P = some P') :
    P'.threads = P.threads ∧ P'.memory = P.memory := by
  induction fuel generalizing k P with
  | zero => cases h
  | succ fuel ih =>
    rw [waitLoop] at h
    split at h
    · simpa using ih h
    · obtain rfl := Option.some.inj h
      exact ⟨rfl, rfl⟩

-- the first round raises a zero count, the later ones keep what they find
theorem suspendCount_waitLoop (h : waitLoop mainTid eip target length fuel k P = some P')
    (t : ThreadId) :
    P'.suspendCount t =
      if 0 < numThreadsAtTgt P mainTid (eip k) target length ∧ t ∈ P.threads ∧ t ≠ mainTid then
        P.suspendCount t - 1 + 1
      else P.suspendCount t := by
  induction fuel generalizing k P with
  | zero => cases h
  | succ fuel ih =>
    rw [waitLoop] at h
    split at h
    · next hbusy =>
      rw [ih h, suspendCount_threadsResumeWaitPause, threads_threadsResumeWaitPause]
      by_cases ht : t ∈ P.threads ∧ t ≠ mainTid
      · simp only [ht, hbusy, and_true, if_true, ne_eq, not_false_eq_true]
        split <;> omega
      · simp [ht]
    · next hidle =>
      obtain rfl := Option.some.inj h
      rw [if_neg fun hall => hidle hall.1]

/-- The wait ends as soon as a check finds nobody in the region. -/
theorem waitLoop_isSome_of_idle {n : Nat} (hn : n < fuel)
    (hidle : numThreadsAtTgt P mainTid (eip (k + n)) target length = 0) :
    (waitLoop mainTid eip target length fuel k P).isSome := by
  induction fuel generalizing k P n with
  | zero => exact absurd hn (Nat.not_lt_zero n)
  | succ fuel ih =>
    rw [waitLoop]
    split
    · next hbusy =>
      have hpos : n ≠ 0 := by
        rintro rfl
        rw [Nat.add_zero] at hidle
        omega
      have hcongr := numThreadsAtTgt_congr (threads_threadsResumeWaitPause P mainTid) mainTid
        (eip (k + n)) target length
      refine ih (n := n - 1) (by omega) ?_
      rw [show k + 1 + (n - 1) = k + n by omega, hcongr]
      exact hidle
    · rfl

end WaitLoop

section PatchCodeSafe

variable {noSuspend : List ThreadId} {mainTid : ThreadId} {eip : Nat → ThreadId → Nat}
  {target fuel : Nat} {code : List UInt8} {P P' : Process}

theorem memory_patchCodeSafe
    (h : patchCodeSafe noSuspend mainTid eip target code fuel P = some P') :
    P'.memory = write P.memory target code := by
  obtain ⟨Q, hQ, rfl⟩ := Option.map_eq_some_iff.mp h
  rw [Process.memory_resumeThreads]
  show write Q.memory target code = _
  rw [(waitLoop_rest hQ).2, Process.memory_suspendThreads]

theorem threads_patchCodeSafe
    (h : patchCodeSafe noSuspend mainTid eip target code fuel P = some P') :
    P'.threads = P.threads := by
  obtain ⟨Q, hQ, rfl⟩ := Option.map_eq_some_iff.mp h
  rw [Process.threads_resumeThreads]
  show Q.threads = _
  rw [(waitLoop_rest hQ).1, Process.threads_suspendThreads]

theorem patchCodeSafe_isSome_of_idle {n : Nat} (hn : n < fuel)
    (hidle : numThreadsAtTgt P mainTid (eip n) target code.length = 0) :
    (patchCodeSafe noSuspend mainTid eip target code fuel P).isSome := by
  rw [patchCodeSafe, Option.isSome_map]
  refine waitLoop_isSome_of_idle hn ?_
  rw [Nat.zero_add, numThreadsAtTgt_congr (Process.threads_suspendThreads P _)]
  exact hidle

/-- What `patch_code_safe` leaves in the count of a thread: a thread that is not to be suspended is
still resumed and suspended by every round. -/
theorem suspendCount_patchCodeSafe
    (h : patchCodeSafe noSuspend mainTid eip target code fuel P = some P') {t : ThreadId}
    (ht : t ∈ P.threads) :
    P'.suspendCount t =
      if 0 < numThreadsAtTgt P mainTid (eip 0) target code.length ∧ t ∈ noSuspend ∧ t ≠ mainTid then
        P.suspendCount t - 1 + 1
      else P.suspendCount t := by
  obtain ⟨Q, hQ, rfl⟩ := Option.map_eq_some_iff.mp h
  have hthreads : Q.threads = P.threads := by
    rw [(waitLoop_rest hQ).1, Process.threads_suspendThreads]
  have hcount := suspendCount_waitLoop hQ t
  rw [numThreadsAtTgt_congr (Process.threads_suspendThreads P _), Process.threads_suspendThreads,
    Process.suspendCount_suspendThreads] at hcount
  rw [Process.suspendCount_resumeThreads]
  show (if t ∈ Q.threads ∧ t ∉ noSuspend ++ [mainTid] then Q.suspendCount t - 1
    else Q.suspendCount t) = _
  rw [hthreads, hcount]
  by_cases hmain : t = mainTid
  · simp [hmain]
  · by_cases hns : t ∈ noSuspend
    · simp [ht, hmain, hns]
    · simp only [ht, hmain, hns, List.mem_append, List.mem_singleton, or_self, not_false_eq_true,
        if_true, ne_eq, and_true, and_false, if_false]
      split <;> omega

/-- The suspend counts are as before exactly when the first check finds nobody in the region, or
every other thread of `no_suspend_` was suspended already. -/
theorem patchCodeSafe_keeps_suspendCount_iff
    (h : patchCodeSafe noSuspend mainTid eip target code fuel P = some P') :
    (∀ t ∈ P.threads, P'.suspendCount t = P.suspendCount t) ↔
      numThreadsAtTgt P mainTid (eip 0) target code.length = 0 ∨
        ∀ t ∈ P.threads, t ∈ noSuspend → t ≠ mainTid → 0 < P.suspendCount t := by
  constructor
  · intro hall
    by_cases hidle : numThreadsAtTgt P mainTid (eip 0) target code.length = 0
    · exact .inl hidle
    · refine .inr fun t ht hns hmain => ?_
      have hcount := suspendCount_patchCodeSafe h ht
      rw [hall t ht, if_pos ⟨Nat.pos_of_ne_zero hidle, hns, hmain⟩] at hcount
      omega
  · intro hcond t ht
    rw [suspendCount_patchCodeSafe h ht]
    split
    · next hbusy =>
      rcases hcond with hidle | hpos
      · omega
      · have := hpos t ht hbusy.2.1 hbusy.2.2
        omega
    · rfl

end PatchCodeSafe

theorem nodup_threeThreads : List.Nodup ([1, 2, 3] : List ThreadId) := by decide

/-- Thread 1 patches; thread 2 serves the connections and is not to be suspended; thread 3 is the
game. -/
def threeThreads (suspendCount : ThreadId → Nat) : Process where
  threads := [1, 2, 3]
  suspendCount := suspendCount
  memory := fun _ => 0
  nodup := nodup_threeThreads

/-- The game thread is in the region at the first check and gone at the next one. -/
def gameLeavesRegion (k : Nat) (t : ThreadId) : Nat := if t = 3 ∧ k = 0 then 0x55de50 else 0

def patchThree (suspendCount : ThreadId → Nat) : Option Process :=
  patchCodeSafe [2] 1 gameLeavesRegion 0x55de4f (List.replicate 7 0x90) 2 (threeThreads suspendCount)

/-- A patch while thread 2 was suspended before by somebody else. -/
theorem patchThree_suspended_before :
    ∃ P, patchThree (fun t => if t = 2 then 1 else 0) = some P ∧
      ∀ t ∈ [1, 2, 3], P.suspendCount t = if t = 2 then 1 else 0 := by
  obtain ⟨P, hP⟩ : ∃ P, patchThree (fun t => if t = 2 then 1 else 0) = some P := ⟨_, rfl⟩
  exact ⟨P, hP, (patchCodeSafe_keeps_suspendCount_iff hP).mpr (by decide)⟩

/-- The thread of the connections is left suspended. -/
theorem patchThree_leaks :
    ∃ P, patchThree (fun _ => 0) = some P ∧
      ¬∀ t ∈ (threeThreads fun _ => 0).threads,
        P.suspendCount t = (threeThreads fun _ => 0).suspendCount t := by
  refine ⟨_, rfl, ?_⟩
  decide

end Ra2yrcpp.Hook
