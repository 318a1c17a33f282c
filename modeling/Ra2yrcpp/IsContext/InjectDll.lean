import Mathlib.Data.List.Infix
import Ra2yrcpp.IsContext.DllLoader
import Ra2yrcpp.Reasoning.X86.Conventions

/-!
# Injection of the library

`inject_dll` lets a thread of the game run the loader: the address at which the thread was suspended
is pushed onto its stack, and it is resumed at the code.
-/

namespace Ra2yrcpp.IsContext

open Reasoning.X86

/-! ## `dll_inject.cpp` -/

/-- The thread as it is resumed; the shellcode has been written to `scAddr`. -/
def injectCode (scAddr : Word) (t : Machine) : Machine where
  cpu := { t.cpu with esp := t.cpu.esp - 4, mem := store32 t.cpu.mem (t.cpu.esp - 4) t.eip }
  eip := scAddr

/-! ## `inject_dll` -/

/-- `INIT_NAME`. -/
def initName : List Byte :=
  [0x69, 0x6e, 0x69, 0x74, 0x5f, 0x69, 0x73, 0x65, 0x72, 0x76, 0x69, 0x63, 0x65]

/-- `o_dll`. -/
def injectOptions (procAddrs : ProcAddrs) (pathDll : List Byte) (maxConnections port : Word) :
    Options where
  PA := procAddrs
  pathDll := pathDll
  nameInit := initName
  maxClients := maxConnections
  port := port
  indirect := false
  noInitHooks := false

/-- What the process has loaded, and the options of the injection. -/
structure Injection where
  modules : List (List Byte)
  procAddrs : ProcAddrs
  pathDll : List Byte
  maxConnections : Word
  port : Word
  force : Bool

/-- The shellcode, if one is injected. -/
def injectDll (maxCodeSize : Nat) (i : Injection) : Option (List Instr) :=
  let isLoaded := i.modules.any fun a => decide (i.pathDll <:+: a)
  if isLoaded && !i.force then none
  else dllLoader maxCodeSize (injectOptions i.procAddrs i.pathDll i.maxConnections i.port)

/-! ## What the thread has to do -/

/-- The thread is where it was suspended, with all its registers and flags. -/
structure Resumed (suspended final : Machine) : Prop where
  eip : final.eip = suspended.eip
  regs : { final.cpu with mem := suspended.cpu.mem } = suspended.cpu

/-! ## The pushed address -/

/-- `n` bytes above a place `k` bytes below `e`. -/
theorem toNat_sub_below (e : Word) {k n : Nat} (hn : n ≤ k) (hk : k + 4 < 4294967296) :
    (e + 4 - (e - BitVec.ofNat 32 k + BitVec.ofNat 32 n)).toNat = k - n + 4 := by
  have hsplit : BitVec.ofNat 32 k = BitVec.ofNat 32 (k - n) + BitVec.ofNat 32 n := by
    rw [← BitVec.ofNat_add, Nat.sub_add_cancel hn]
  have hdist : e + 4 - (e - BitVec.ofNat 32 k + BitVec.ofNat 32 n) =
      BitVec.ofNat 32 (k - n + 4) := by
    rw [hsplit, BitVec.ofNat_add]
    generalize BitVec.ofNat 32 (k - n) = a
    generalize BitVec.ofNat 32 n = b
    bv_omega
  rw [hdist, BitVec.toNat_ofNat]
  omega

section Held

variable {c d : Cpu} {m : Machine} {q : Word} {ws : List Word} {n popped : Nat}

/-- The word at the top of the stack that the loader finds. -/
def Held (c d : Cpu) : Prop := ∀ x, InWord c.esp x → d.mem x = c.mem x

theorem held_enter (c : Cpu) : Held c (applyAll enter c) := by
  have hcount : (savedWords c).length = 10 := rfl
  intro x hx
  unfold InWord at hx
  rw [applyAll_enter]
  apply pushAll_of_not_below
  · rw [hcount]
    decide
  · rw [hcount]
    unfold Below
    bv_omega

/-- Neither the code, which pushes below the word, nor the function that it calls changes it. -/
theorem Held.call (h : Held c d) (hpushed : Pushed m.cpu d.mem q ws) (k : Nat)
    (hq : q = c.esp - BitVec.ofNat 32 k) (hk : 4 * (n + 1) ≤ k)
    (hlen : k + 4 * ws.length + 4 < 4294967296) {f : Machine → Machine}
    (hf : Callee f n popped (c.esp + 4)) : Held c (f m).cpu := by
  have hesp : m.cpu.esp = c.esp - BitVec.ofNat 32 (k + 4 * ws.length) := by
    rw [hpushed.esp, hq, BitVec.ofNat_add, BitVec.sub_sub]
  intro x hx
  unfold InWord at hx
  rw [hf.memory, hpushed.mem, pushAll_of_not_below (by omega)]
  · exact h x hx
  · rw [hq]
    unfold Below
    bv_omega
  · rw [hesp, toNat_sub_below c.esp (by omega) (by omega)]
    unfold Below
    bv_omega

end Held

section Run

variable {maxCodeSize : Nat} {i : Injection} {sc : List Instr} {code : Word → Option Instr}
  {scAddr : Word} {t m₁ m₂ m₃ : Machine} {loadLibrary getProcAddress init : Machine → Machine}

theorem injectDll_eq (hinject : injectDll maxCodeSize i = some sc) :
    sc = dllLoaderCode (injectOptions i.procAddrs i.pathDll i.maxConnections i.port) ∧
      codeSize sc ≤ maxCodeSize := by
  unfold injectDll dllLoader at hinject
  obtain ⟨-, hemit⟩ := Option.ite_none_left_eq_some.mp hinject
  obtain ⟨hfits, hsc⟩ := Option.ite_none_right_eq_some.mp hemit
  rw [← Option.some.inj hsc]
  exact ⟨rfl, hfits⟩

/-- The code ends behind its last instruction, with the registers of the thread as it was resumed. -/
theorem steps_injected (hmax : maxCodeSize ≤ 1073741824)
    (hinject : injectDll maxCodeSize i = some sc) (hcode : CodeAt code scAddr sc)
    (hload : Callee loadLibrary 1 1 (t.cpu.esp - 4))
    (hproc : Callee getProcAddress 2 2 (t.cpu.esp - 4)) (hinit : Callee init 3 0 (t.cpu.esp - 4)) :
    ∃ ms mem,
      Run.steps code sc.length ⟨injectCode scAddr t, [loadLibrary, getProcAddress, init], []⟩ =
        some ⟨⟨{ (injectCode scAddr t).cpu with mem := mem },
          scAddr + BitVec.ofNat 32 (codeSize sc)⟩, [], ms⟩ := by
  obtain ⟨rfl, hfits⟩ := injectDll_eq hinject
  have hwords := length_stringWords_le
    (injectOptions i.procAddrs i.pathDll i.maxConnections i.port)
  have hsteps := steps_dllLoader (c := (injectCode scAddr t).cpu) hcode hload hproc hinit rfl rfl rfl
  obtain ⟨-, -, hframed⟩ := framed_calls (c := (injectCode scAddr t).cpu) (a := scAddr)
    (o := injectOptions i.procAddrs i.pathDll i.maxConnections i.port) (by omega) (by omega)
    hload hproc hinit rfl rfl rfl
  rw [hframed.leave] at hsteps
  exact ⟨_, _, hsteps⟩

/-- The three functions keep the word. -/
theorem held_calls {o : Options} {c : Cpu}
    (hpathLen : 40 + 4 * ((stringWords o.pathDll).length + 2) + 4 < 4294967296)
    (hnameLen : 56 + 4 * ((stringWords o.nameInit).length + 4) < 4294967296)
    (hframed : Framed c (loadLibrary (exec .callEax m₁)).cpu)
    (hesp : (getProcAddress (exec .callEax m₂)).cpu.esp =
      c.esp - BitVec.ofNat 32 (40 + 4 * ((stringWords o.nameInit).length + 1)))
    (hload : Callee loadLibrary 1 1 (c.esp + 4)) (hproc : Callee getProcAddress 2 2 (c.esp + 4))
    (hinit : Callee init 3 0 (c.esp + 4)) (hm₁ : m₁ = atCall (toLoadLibrary o) c scAddr)
    (hm₂ : m₂ = atCall (toGetProcAddress o) (loadLibrary (exec .callEax m₁)).cpu
      (afterCall (toLoadLibrary o) scAddr))
    (hm₃ : m₃ = atCall (toInit o) (getProcAddress (exec .callEax m₂)).cpu
      (afterCall (toGetProcAddress o) (afterCall (toLoadLibrary o) scAddr))) :
    Held c (init (exec .callEax m₃)).cpu := by
  have hheld₁ : Held c (loadLibrary (exec .callEax m₁)).cpu := by
    have hpushed : Pushed (exec .callEax m₁).cpu (applyAll enter c).mem (c.esp - 40)
        (stringWords o.pathDll ++ [pathPointer o c] ++ [m₁.eip + 2]) := by
      rw [hm₁]
      exact (onStack_toLoadLibrary o c).1.pushed.push _
    apply (held_enter c).call hpushed 40 rfl (by decide) _ hload
    simp only [List.length_append, List.length_singleton]
    omega
  have hheld₂ : Held c (getProcAddress (exec .callEax m₂)).cpu := by
    have hpushed : Pushed (exec .callEax m₂).cpu (loadLibrary (exec .callEax m₁)).cpu.mem
        (c.esp - 40) ((loadLibrary (exec .callEax m₁)).cpu.eax :: stringWords o.nameInit ++
          [namePointer o c, (loadLibrary (exec .callEax m₁)).cpu.eax] ++ [m₂.eip + 2]) := by
      rw [hm₂]
      exact (onStack_toGetProcAddress o hframed.ebp (by omega)).1.pushed.push _
    apply hheld₁.call hpushed 40 rfl (by decide) _ hproc
    simp only [List.length_append, List.length_cons, List.length_nil]
    omega
  have hpushed : Pushed (exec .callEax m₃).cpu (getProcAddress (exec .callEax m₂)).cpu.mem
      (getProcAddress (exec .callEax m₂)).cpu.esp (initWords o ++ [m₃.eip + 2]) := by
    rw [hm₃]
    exact (pushed_toInit o _).push _
  apply hheld₂.call hpushed _ hesp (by omega) _ hinit
  show 40 + 4 * ((stringWords o.nameInit).length + 1) + 4 * 4 + 4 < 4294967296
  omega

/-- With a `ret` behind it the loader returns to the address at the top of the stack. -/
theorem steps_dllLoader_ret {o : Options} {c : Cpu}
    (hsize : codeSize (dllLoaderCode o) ≤ 1073741824)
    (hcode : CodeAt code scAddr (dllLoaderCode o ++ [.ret]))
    (hload : Callee loadLibrary 1 1 c.esp) (hproc : Callee getProcAddress 2 2 c.esp)
    (hinit : Callee init 3 0 c.esp) (hloadTop : Callee loadLibrary 1 1 (c.esp + 4))
    (hprocTop : Callee getProcAddress 2 2 (c.esp + 4)) (hinitTop : Callee init 3 0 (c.esp + 4)) :
    ∃ ms mem,
      Run.steps code (dllLoaderCode o ++ [Instr.ret]).length
          ⟨⟨c, scAddr⟩, [loadLibrary, getProcAddress, init], []⟩ =
        some ⟨⟨{ c with esp := c.esp + 4, mem := mem }, load32 c.mem c.esp⟩, [], ms⟩ := by
  obtain ⟨hcode, hret⟩ := codeAt_append.mp hcode
  have hwords := length_stringWords_le o
  obtain ⟨m₁, hm₁⟩ : ∃ m, m = atCall (toLoadLibrary o) c scAddr := ⟨_, rfl⟩
  obtain ⟨m₂, hm₂⟩ : ∃ m, m = atCall (toGetProcAddress o) (loadLibrary (exec .callEax m₁)).cpu
    (afterCall (toLoadLibrary o) scAddr) := ⟨_, rfl⟩
  obtain ⟨m₃, hm₃⟩ : ∃ m, m = atCall (toInit o) (getProcAddress (exec .callEax m₂)).cpu
    (afterCall (toGetProcAddress o) (afterCall (toLoadLibrary o) scAddr)) := ⟨_, rfl⟩
  obtain ⟨hframed₁, hesp₂, hframed₃⟩ :=
    framed_calls (by omega) (by omega) hload hproc hinit hm₁ hm₂ hm₃
  have hheld := held_calls (by omega) (by omega) hframed₁ hesp₂ hloadTop hprocTop hinitTop hm₁ hm₂
    hm₃
  have hsteps := steps_dllLoader hcode hload hproc hinit hm₁ hm₂ hm₃
  rw [hframed₃.leave] at hsteps
  obtain ⟨mem, hmem⟩ : ∃ mem, mem = (init (exec .callEax m₃)).cpu.mem := ⟨_, rfl⟩
  have hword : load32 mem c.esp = load32 c.mem c.esp := by
    rw [hmem]
    exact load32_congr hheld
  rw [← hmem] at hsteps
  rw [← hword]
  exact ⟨_, mem, steps_append hsteps (steps_ret hret.1)⟩

/-- So would the thread. -/
theorem resumed_ret (hmax : maxCodeSize ≤ 1073741824)
    (hinject : injectDll maxCodeSize i = some sc) (hcode : CodeAt code scAddr (sc ++ [.ret]))
    (hload : Callee loadLibrary 1 1 (t.cpu.esp - 4))
    (hproc : Callee getProcAddress 2 2 (t.cpu.esp - 4)) (hinit : Callee init 3 0 (t.cpu.esp - 4))
    (hloadTop : Callee loadLibrary 1 1 t.cpu.esp)
    (hprocTop : Callee getProcAddress 2 2 t.cpu.esp) (hinitTop : Callee init 3 0 t.cpu.esp) :
    ∃ ms final,
      Run.steps code (sc ++ [Instr.ret]).length
          ⟨injectCode scAddr t, [loadLibrary, getProcAddress, init], []⟩ = some ⟨final, [], ms⟩ ∧
      Resumed t final := by
  obtain ⟨rfl, hfits⟩ := injectDll_eq hinject
  have htop : t.cpu.esp - 4 + 4 = t.cpu.esp := BitVec.sub_add_cancel _ _
  rw [← htop] at hloadTop hprocTop hinitTop
  obtain ⟨ms, mem, hsteps⟩ := steps_dllLoader_ret (c := (injectCode scAddr t).cpu)
    (Nat.le_trans hfits hmax) hcode hload hproc hinit hloadTop hprocTop hinitTop
  refine ⟨ms, _, hsteps, ?_, ?_⟩
  -- the address is where `inject_code` has pushed it
  · exact load32_store32 _ _ _
  · show { t.cpu with esp := t.cpu.esp - 4 + 4 } = t.cpu
    rw [htop]

end Run

/-- The code never takes the return address from the stack. -/
theorem injectDll_not_resumed {maxCodeSize : Nat} (hmax : maxCodeSize ≤ 1073741824) {i : Injection}
    {sc : List Instr} (hinject : injectDll maxCodeSize i = some sc) {code : Word → Option Instr}
    {scAddr : Word} (hcode : CodeAt code scAddr sc) (t : Machine)
    {loadLibrary getProcAddress init : Machine → Machine}
    (hload : Callee loadLibrary 1 1 (t.cpu.esp - 4))
    (hproc : Callee getProcAddress 2 2 (t.cpu.esp - 4)) (hinit : Callee init 3 0 (t.cpu.esp - 4)) :
    ∃ ms final,
      Run.steps code sc.length ⟨injectCode scAddr t, [loadLibrary, getProcAddress, init], []⟩ =
        some ⟨final, [], ms⟩ ∧
      final.eip = scAddr + BitVec.ofNat 32 (codeSize sc) ∧ final.cpu.esp = t.cpu.esp - 4 ∧
      ¬Resumed t final := by
  obtain ⟨ms, mem, hsteps⟩ := steps_injected hmax hinject hcode hload hproc hinit
  refine ⟨ms, _, hsteps, rfl, rfl, ?_⟩
  intro hresumed
  have hesp : t.cpu.esp - 4 = t.cpu.esp := congrArg Cpu.esp hresumed.regs
  bv_omega

/-! ## An injection into a process that has not loaded the library -/

def firstInjection : Injection where
  modules := []
  procAddrs := ⟨0x75000000, 0x75000100⟩
  pathDll := initIservice.pathDll
  maxConnections := 16
  port := 14521
  force := false

def shellcode : List Instr :=
  dllLoaderCode (injectOptions ⟨0x75000000, 0x75000100⟩ initIservice.pathDll 16 14521)

def suspendedThread : Machine := ⟨loaderCpu, 0x55dde0⟩

theorem injectDll_firstInjection : injectDll 4096 firstInjection = some shellcode := by
  have hfits : codeSize shellcode ≤ 4096 := by decide
  show (if codeSize shellcode ≤ 4096 then some shellcode else none) = some shellcode
  exact if_pos hfits

theorem codeAt_shellcode : CodeAt (place 0x900000 shellcode) 0x900000 shellcode :=
  codeAt_place (by decide) (by decide)

theorem suspendedThread_not_resumed :
    ∃ ms final,
      Run.steps (place 0x900000 shellcode) shellcode.length
          ⟨injectCode 0x900000 suspendedThread,
            [returning 0x10000000 1, returning 0x10001234 2, returning 0 0], []⟩ =
        some ⟨final, [], ms⟩ ∧
      final.eip = 0x900000 + BitVec.ofNat 32 (codeSize shellcode) ∧
      final.cpu.esp = suspendedThread.cpu.esp - 4 ∧ ¬Resumed suspendedThread final :=
  injectDll_not_resumed (by decide) injectDll_firstInjection codeAt_shellcode suspendedThread
    (callee_returning _ 1 1 _) (callee_returning _ 2 2 _) (callee_returning 0 3 0 _)

/-- The thread goes on behind the code. -/
theorem suspendedThread_lost :
    ∃ ms final,
      Run.steps (place 0x900000 shellcode) shellcode.length
          ⟨injectCode 0x900000 suspendedThread,
            [returning 0x10000000 1, returning 0x10001234 2, returning 0 0], []⟩ =
        some ⟨final, [], ms⟩ ∧
      final.eip ≠ suspendedThread.eip ∧ final.cpu.esp ≠ suspendedThread.cpu.esp := by
  obtain ⟨ms, mem, hsteps⟩ := steps_injected (by decide : 4096 ≤ 1073741824)
    injectDll_firstInjection (t := suspendedThread) codeAt_shellcode (callee_returning _ 1 1 _)
    (callee_returning _ 2 2 _) (callee_returning 0 3 0 _)
  refine ⟨ms, _, hsteps, ?_, ?_⟩
  · show (0x900000 + BitVec.ofNat 32 (codeSize shellcode) : Word) ≠ 0x55dde0
    decide
  · show (0x8000 - 4 : Word) ≠ 0x8000
    decide

end Ra2yrcpp.IsContext
