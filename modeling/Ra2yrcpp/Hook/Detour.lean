import Mathlib.Algebra.GroupWithZero.Nat
import Mathlib.Data.List.Basic
import Ra2yrcpp.Reasoning.X86

/-!
# The code of a hook

`DetourTrampoline`, which takes the place of the hooked instructions, and `DetourMain`, which runs
them, calls `Hook::call` with the registers and jumps back.
-/

namespace Ra2yrcpp.Hook

open Reasoning.X86

/-- The addresses the two pieces of code are generated for. -/
structure Detour where
  srcAddress : Word
  detourAddress : Word
  codeLength : Nat
  hook : Word
  callHook : Word
  countEnter : Word
  countExit : Word
  /-- The trampoline fits into the code it replaces. -/
  six_le : 6 ≤ codeLength

/-- `DetourMain` after the displaced instructions. -/
def Detour.hookCode (d : Detour) : List Instr :=
  [.pushad, .pushfd, .push d.hook, .movEax d.callHook, .lockInc d.countEnter, .callEax,
    .lockInc d.countExit, .addEsp 4, .popfd, .popad,
    .push (d.srcAddress + BitVec.ofNat 32 d.codeLength), .ret]

def detourMain (d : Detour) (displaced : Cpu → Cpu) : List Instr :=
  .block displaced d.codeLength :: d.hookCode

def detourTrampoline (d : Detour) : List Instr :=
  [.push d.detourAddress, .ret] ++ List.replicate (d.codeLength - 6) .nop

/-- The trampoline takes the place of exactly the displaced code. -/
theorem size_detourTrampoline (d : Detour) :
    ((detourTrampoline d).map Instr.size).sum = d.codeLength := by
  have := d.six_le
  simp only [detourTrampoline, List.map_append, List.map_cons, List.map_nil, List.map_replicate,
    List.sum_append, List.sum_cons, List.sum_nil, List.sum_replicate_nat, Instr.size]
  omega

/-- The union of `types.h`: the order in which `pushad` and `pushfd` leave the registers. -/
structure X86Regs where
  eflags : Word
  edi : Word
  esi : Word
  ebp : Word
  esp : Word
  ebx : Word
  edx : Word
  ecx : Word
  eax : Word
  deriving DecidableEq, Repr

def readRegs (m : Mem) (a : Word) : X86Regs where
  eflags := load32 m a
  edi := load32 m (a + 4)
  esi := load32 m (a + 8)
  ebp := load32 m (a + 12)
  esp := load32 m (a + 16)
  ebx := load32 m (a + 20)
  edx := load32 m (a + 24)
  ecx := load32 m (a + 28)
  eax := load32 m (a + 32)

/-- The registers as a callback gets them. -/
def regsOf (c : Cpu) : X86Regs where
  eflags := c.eflags &&& 0x00fcffff
  edi := c.edi
  esi := c.esi
  ebp := c.ebp
  esp := c.esp
  ebx := c.ebx
  edx := c.edx
  ecx := c.ecx
  eax := c.eax

/-! ## Execution -/

/-- One instruction of the generated code, or `Hook::call` from its entry to its return. -/
def step (d : Detour) (code : Word → Option Instr) (hookCall : Machine → Machine) (m : Machine) :
    Option Machine :=
  match code m.eip with
  | some i => some (exec i m)
  | none => if m.eip = d.callHook then some (hookCall m) else none

def steps (d : Detour) (code : Word → Option Instr) (hookCall : Machine → Machine) :
    Nat → Machine → Option Machine
  | 0, m => some m
  | n + 1, m => (step d code hookCall m).bind (steps d code hookCall n)

/-- What is known of `Hook::call`: it is `cdecl`, its callbacks see and edit the registers in the
slot of its second argument, it uses at most `depth` bytes of stack, and neither the counters nor the
flags of the kernel are changed by it. -/
structure Cdecl (d : Detour) (hookCall : Machine → Machine)
    (callbacks : X86Regs → Mem → X86Regs × Mem) (depth : Nat) : Prop where
  eip : ∀ m, (hookCall m).eip = load32 m.cpu.mem m.cpu.esp
  esp : ∀ m, (hookCall m).cpu.esp = m.cpu.esp + 4
  argument : ∀ m, readRegs (hookCall m).cpu.mem (m.cpu.esp + 8) =
    (callbacks (readRegs m.cpu.mem (m.cpu.esp + 8)) m.cpu.mem).1
  memory : ∀ m x, ¬Below (m.cpu.esp + 44) (44 + depth) x →
    (hookCall m).cpu.mem x = (callbacks (readRegs m.cpu.mem (m.cpu.esp + 8)) m.cpu.mem).2 x
  counters : ∀ r mem x, InWord d.countEnter x ∨ InWord d.countExit x → (callbacks r mem).2 x = mem x
  flags : ∀ m, (hookCall m).cpu.eflags &&& ~~~Cpu.userFlags = m.cpu.eflags &&& ~~~Cpu.userFlags

section Steps

variable {d : Detour} {code : Word → Option Instr} {hookCall : Machine → Machine}

theorem steps_exec {c : Cpu} {a : Word} {i : Instr} (h : code a = some i) (n : Nat) :
    steps d code hookCall (n + 1) ⟨c, a⟩ = steps d code hookCall n (exec i ⟨c, a⟩) := by
  simp [steps, step, h]

theorem steps_hookCall {m : Machine} (h : code m.eip = none) (heip : m.eip = d.callHook) (n : Nat) :
    steps d code hookCall (n + 1) m = steps d code hookCall n (hookCall m) := by
  rw [steps, step, h, if_pos heip]
  rfl

/-- Where `Hook::call` returns to. -/
def Detour.returnAddress (d : Detour) : Word :=
  d.detourAddress + BitVec.ofNat 32 d.codeLength + 1 + 1 + 5 + 5 + 7 + 2

/-- The registers and the stack when `Hook::call` is entered. -/
def atCall (d : Detour) (c : Cpu) : Cpu :=
  ({ c.pushad.pushfd.push d.hook with eax := d.callHook }.lockInc d.countEnter).push d.returnAddress

/-- From the return of `Hook::call` to the jump back. -/
def afterCall (d : Detour) (c : Cpu) : Cpu :=
  let c' := ((c.lockInc d.countExit).addEsp 4).popfd.popad.push
    (d.srcAddress + BitVec.ofNat 32 d.codeLength)
  { c' with esp := c'.esp + 4 }

/-- The jump that both pieces of code end with. -/
theorem exec_ret_push (c : Cpu) (v a : Word) :
    exec .ret ⟨c.push v, a⟩ = ⟨{ c.push v with esp := (c.push v).esp + 4 }, v⟩ := by
  simp only [exec, Cpu.push, load32_store32]

theorem steps_detourTrampoline (h : CodeAt code d.srcAddress (detourTrampoline d)) (c : Cpu)
    (n : Nat) :
    steps d code hookCall (n + 2) ⟨c, d.srcAddress⟩ = steps d code hookCall n
      ⟨{ c with mem := store32 c.mem (c.esp - 4) d.detourAddress }, d.detourAddress⟩ := by
  have hesp : c.esp - 4 + 4 = c.esp := by bv_omega
  rw [steps_exec h.1, exec, steps_exec h.2.1, exec_ret_push]
  simp only [Cpu.push, hesp]

theorem steps_to_call {displaced : Cpu → Cpu}
    (h : CodeAt code d.detourAddress (detourMain d displaced)) (c : Cpu) (n : Nat) :
    steps d code hookCall (n + 7) ⟨c, d.detourAddress⟩ =
      steps d code hookCall n ⟨atCall d (displaced c), d.callHook⟩ := by
  obtain ⟨h0, h1, h2, h3, h4, h5, h6, -⟩ := h
  rw [steps_exec h0, exec, steps_exec h1, exec, steps_exec h2, exec, steps_exec h3, exec,
    steps_exec h4, exec, steps_exec h5, exec, steps_exec h6, exec]
  rfl

theorem steps_from_call {a : Word}
    (h : CodeAt code a [.lockInc d.countExit, .addEsp 4, .popfd, .popad,
      .push (d.srcAddress + BitVec.ofNat 32 d.codeLength), .ret]) (c : Cpu) (n : Nat) :
    steps d code hookCall (n + 6) ⟨c, a⟩ =
      steps d code hookCall n ⟨afterCall d c, d.srcAddress + BitVec.ofNat 32 d.codeLength⟩ := by
  obtain ⟨h0, h1, h2, h3, h4, h5, -⟩ := h
  rw [steps_exec h0, exec, steps_exec h1, exec, steps_exec h2, exec, steps_exec h3, exec,
    steps_exec h4, exec, steps_exec h5, exec_ret_push]
  rfl

/-- From the hooked address to the code behind the displaced instructions. -/
theorem steps_hook {displaced : Cpu → Cpu}
    (htrampoline : CodeAt code d.srcAddress (detourTrampoline d))
    (hdetour : CodeAt code d.detourAddress (detourMain d displaced)) (hcall : code d.callHook = none)
    (hreturn : ∀ m, (hookCall m).eip = load32 m.cpu.mem m.cpu.esp) (c : Cpu) :
    steps d code hookCall 16 ⟨c, d.srcAddress⟩ = some
      ⟨afterCall d (hookCall ⟨atCall d (displaced
          { c with mem := store32 c.mem (c.esp - 4) d.detourAddress }), d.callHook⟩).cpu,
        d.srcAddress + BitVec.ofNat 32 d.codeLength⟩ := by
  rw [steps_detourTrampoline htrampoline, steps_to_call hdetour, steps_hookCall hcall rfl]
  generalize hm : atCall d _ = c'
  have heip : (hookCall ⟨c', d.callHook⟩).eip = d.returnAddress := by
    rw [hreturn, ← hm]
    exact load32_store32 _ _ _
  have hmachine : hookCall ⟨c', d.callHook⟩ =
      ⟨(hookCall ⟨c', d.callHook⟩).cpu, d.returnAddress⟩ := by
    rw [← heip]
  have htail : CodeAt code d.returnAddress [.lockInc d.countExit, .addEsp 4, .popfd, .popad,
      .push (d.srcAddress + BitVec.ofNat 32 d.codeLength), .ret] := hdetour.2.2.2.2.2.2.2
  rw [hmachine, steps_from_call htail]
  rfl

end Steps

/-! ## The stack image -/

theorem readRegs_congr {m m' : Mem} {q : Word} (h : ∀ x, Below q 36 x → m x = m' x) :
    readRegs m (q - 36) = readRegs m' (q - 36) := by
  have hword : ∀ a : Word, (∀ x, InWord a x → Below q 36 x) → load32 m a = load32 m' a :=
    fun a ha => load32_congr fun x hx => h x (ha x hx)
  simp only [readRegs, X86Regs.mk.injEq]
  refine ⟨?_, ?_, ?_, ?_, ?_, ?_, ?_, ?_, ?_⟩
  all_goals
    apply hword
    intro x hx
    unfold InWord at hx
    unfold Below
    bv_omega

/-- What `pushad`, `pushfd` and `push hook` leave on the stack, first to last. -/
def savedWords (d : Detour) (c : Cpu) : List Word :=
  [c.eax, c.ecx, c.edx, c.ebx, c.esp, c.ebp, c.esi, c.edi, c.eflags &&& 0x00fcffff, d.hook]

/-- The image of `pushad` and `pushfd` is an `X86Regs`. -/
theorem readRegs_pushAll (d : Detour) (c : Cpu) :
    readRegs (pushAll c.mem c.esp (savedWords d c)) (c.esp - 36) = regsOf c := by
  have hload : ∀ k (hk : k < (savedWords d c).length) (a : Word),
      a = c.esp - BitVec.ofNat 32 (4 * (k + 1)) →
      load32 (pushAll c.mem c.esp (savedWords d c)) a = (savedWords d c)[k] := by
    intro k hk a ha
    rw [ha]
    exact load32_pushAll (by simp [savedWords]) hk
  unfold readRegs regsOf
  rw [hload 8 (by simp [savedWords]) (c.esp - 36) (by bv_omega),
    hload 7 (by simp [savedWords]) (c.esp - 36 + 4) (by bv_omega),
    hload 6 (by simp [savedWords]) (c.esp - 36 + 8) (by bv_omega),
    hload 5 (by simp [savedWords]) (c.esp - 36 + 12) (by bv_omega),
    hload 4 (by simp [savedWords]) (c.esp - 36 + 16) (by bv_omega),
    hload 3 (by simp [savedWords]) (c.esp - 36 + 20) (by bv_omega),
    hload 2 (by simp [savedWords]) (c.esp - 36 + 24) (by bv_omega),
    hload 1 (by simp [savedWords]) (c.esp - 36 + 28) (by bv_omega),
    hload 0 (by simp [savedWords]) (c.esp - 36 + 32) (by bv_omega)]
  rfl

/-- The counters are neither in the words that the detour writes to the stack nor in the same word. -/
structure Apart (d : Detour) (entry top : Word) (depth : Nat) : Prop where
  entry : ∀ x, InWord d.countEnter x ∨ InWord d.countExit x → ¬InWord (entry - 4) x
  stack : ∀ x, InWord d.countEnter x ∨ InWord d.countExit x → ¬Below top (44 + depth) x
  counters : ∀ x, InWord d.countEnter x → ¬InWord d.countExit x

theorem esp_atCall (d : Detour) (c : Cpu) : (atCall d c).esp = c.esp - 44 := by
  show c.esp - 4 - 4 - 4 - 4 - 4 - 4 - 4 - 4 - 4 - 4 - 4 = c.esp - 44
  bv_omega

theorem mem_atCall (d : Detour) (c : Cpu) :
    (atCall d c).mem =
      store32 (store32 (pushAll c.mem c.esp (savedWords d c)) d.countEnter
        (load32 (pushAll c.mem c.esp (savedWords d c)) d.countEnter + 1)) (c.esp - 44)
        d.returnAddress := by
  have hesp : c.esp - 4 - 4 - 4 - 4 - 4 - 4 - 4 - 4 - 4 - 4 - 4 = c.esp - 44 := by bv_omega
  simp only [atCall, Cpu.lockInc, Cpu.pushad, Cpu.pushfd, Cpu.push, pushAll, savedWords, hesp]

theorem pushAll_savedWords_of_not_below {d : Detour} {c : Cpu} {x : Word} (h : ¬Below c.esp 44 x) :
    pushAll c.mem c.esp (savedWords d c) x = c.mem x :=
  pushAll_of_not_below (by simp [savedWords])
    fun hx => h (below_mono (by simp [savedWords]) hx)

theorem mem_atCall_of_not_below {d : Detour} {c : Cpu} {x : Word} (h : ¬Below c.esp 44 x)
    (hcount : ¬InWord d.countEnter x) : (atCall d c).mem x = c.mem x := by
  rw [mem_atCall, store32_of_not_inWord, store32_of_not_inWord hcount,
    pushAll_savedWords_of_not_below h]
  unfold InWord
  unfold Below at h
  bv_omega

section AtCall

variable {d : Detour} {c : Cpu} (hstack : ∀ x, InWord d.countEnter x → ¬Below c.esp 44 x)

include hstack

theorem readRegs_atCall : readRegs (atCall d c).mem ((atCall d c).esp + 8) = regsOf c := by
  have haddr : c.esp - 44 + 8 = c.esp - 36 := by bv_omega
  rw [esp_atCall, haddr, ← readRegs_pushAll d c]
  apply readRegs_congr
  intro x hx
  have hcount : ¬InWord d.countEnter x := fun h => hstack x h (below_mono (by decide) hx)
  rw [mem_atCall, store32_of_not_inWord, store32_of_not_inWord hcount]
  unfold InWord
  unfold Below at hx
  bv_omega

theorem countEnter_atCall :
    load32 (atCall d c).mem d.countEnter = load32 c.mem d.countEnter + 1 := by
  have hpush : load32 (pushAll c.mem c.esp (savedWords d c)) d.countEnter =
      load32 c.mem d.countEnter :=
    load32_congr fun x hx => pushAll_savedWords_of_not_below (hstack x hx)
  rw [mem_atCall, load32_store32_ne, load32_store32, hpush]
  intro x hx hword
  apply hstack x hx
  unfold InWord at hword
  unfold Below
  bv_omega

end AtCall

/-! ## Flags -/

/-- Instructions that change flags of the program leave those of the kernel alone. -/
theorem kernelFlags_of_mask {x f mask : Word} (hmask : ~~~mask &&& ~~~Cpu.userFlags = ~~~Cpu.userFlags)
    (hf : f &&& ~~~Cpu.userFlags = 0#32) :
    ((x &&& ~~~mask) ||| f) &&& ~~~Cpu.userFlags = x &&& ~~~Cpu.userFlags := by
  rw [BitVec.and_comm, BitVec.and_or_distrib_left, BitVec.and_comm _ f, hf, BitVec.or_zero,
    BitVec.and_comm, BitVec.and_assoc, hmask]

theorem flag_and_eq_zero (b : Bool) {i : Nat} (h : (1 <<< i : Word) &&& ~~~Cpu.userFlags = 0#32) :
    Cpu.flag b i &&& ~~~Cpu.userFlags = 0#32 := by
  cases b with
  | false => exact BitVec.zero_and
  | true => exact h

theorem or_and_eq_zero {f g m : Word} (hf : f &&& m = 0#32) (hg : g &&& m = 0#32) :
    (f ||| g) &&& m = 0#32 := by
  rw [BitVec.and_comm, BitVec.and_or_distrib_left, BitVec.and_comm m f, BitVec.and_comm m g, hf, hg,
    BitVec.or_zero]

theorem resultFlags_and (r : Word) : Cpu.resultFlags r &&& ~~~Cpu.userFlags = 0#32 :=
  or_and_eq_zero (or_and_eq_zero (flag_and_eq_zero _ (by decide)) (flag_and_eq_zero _ (by decide)))
    (flag_and_eq_zero _ (by decide))

theorem kernelFlags_lockInc (c : Cpu) (a : Word) :
    (c.lockInc a).eflags &&& ~~~Cpu.userFlags = c.eflags &&& ~~~Cpu.userFlags :=
  kernelFlags_of_mask (by decide)
    (or_and_eq_zero (or_and_eq_zero (resultFlags_and _) (flag_and_eq_zero _ (by decide)))
      (flag_and_eq_zero _ (by decide)))

theorem kernelFlags_addEsp (c : Cpu) (v : Word) :
    (c.addEsp v).eflags &&& ~~~Cpu.userFlags = c.eflags &&& ~~~Cpu.userFlags :=
  kernelFlags_of_mask (by decide)
    (or_and_eq_zero (or_and_eq_zero (or_and_eq_zero (resultFlags_and _)
      (flag_and_eq_zero _ (by decide))) (flag_and_eq_zero _ (by decide)))
      (flag_and_eq_zero _ (by decide)))

theorem kernelFlags_atCall (d : Detour) (c : Cpu) :
    (atCall d c).eflags &&& ~~~Cpu.userFlags = c.eflags &&& ~~~Cpu.userFlags := by
  simp only [atCall, Cpu.eflags_push, kernelFlags_lockInc, Cpu.eflags_pushfd, Cpu.eflags_pushad]

/-! ## The way back -/

/-- The memory after the second increment, from which the registers are popped. -/
def poppedMem (d : Detour) (c : Cpu) : Mem :=
  store32 c.mem d.countExit (load32 c.mem d.countExit + 1)

section AfterCall

variable {d : Detour} {c : Cpu} {q : Word} (hq : c.esp = q - 40)

include hq

theorem esp_afterCall : (afterCall d c).esp = q := by
  simp only [afterCall, Cpu.push, Cpu.popad, Cpu.esp_popfd, Cpu.esp_addEsp, Cpu.esp_lockInc, hq]
  bv_omega

theorem mem_afterCall : (afterCall d c).mem =
    store32 (poppedMem d c) (q - 4) (d.srcAddress + BitVec.ofNat 32 d.codeLength) := by
  have haddr : q - 40 + 4 + 4 + 32 - 4 = q - 4 := by bv_omega
  simp only [afterCall, Cpu.push, Cpu.popad, Cpu.mem_popfd, Cpu.mem_addEsp, Cpu.mem_lockInc,
    Cpu.esp_popfd, Cpu.esp_addEsp, Cpu.esp_lockInc, hq, haddr, poppedMem]

theorem eflags_afterCall : (afterCall d c).eflags =
    (c.eflags &&& ~~~Cpu.userFlags) |||
      ((readRegs (poppedMem d c) (q - 36)).eflags &&& Cpu.userFlags) := by
  have haddr : q - 40 + 4 = q - 36 := by bv_omega
  simp only [afterCall, Cpu.push, Cpu.popad, Cpu.popfd, kernelFlags_addEsp, kernelFlags_lockInc,
    Cpu.mem_addEsp, Cpu.mem_lockInc, Cpu.esp_addEsp, Cpu.esp_lockInc, hq, haddr, poppedMem, readRegs]

/-- `popad` takes the registers out of the slot of the argument, but for the stack pointer. -/
theorem regs_afterCall :
    (afterCall d c).edi = (readRegs (poppedMem d c) (q - 36)).edi ∧
    (afterCall d c).esi = (readRegs (poppedMem d c) (q - 36)).esi ∧
    (afterCall d c).ebp = (readRegs (poppedMem d c) (q - 36)).ebp ∧
    (afterCall d c).ebx = (readRegs (poppedMem d c) (q - 36)).ebx ∧
    (afterCall d c).edx = (readRegs (poppedMem d c) (q - 36)).edx ∧
    (afterCall d c).ecx = (readRegs (poppedMem d c) (q - 36)).ecx ∧
    (afterCall d c).eax = (readRegs (poppedMem d c) (q - 36)).eax := by
  have hload : ∀ a b : Word, a = b → load32 (poppedMem d c) a = load32 (poppedMem d c) b :=
    fun a b h => by rw [h]
  simp only [afterCall, Cpu.push, Cpu.popad, Cpu.mem_popfd, Cpu.mem_addEsp, Cpu.mem_lockInc,
    Cpu.esp_popfd, Cpu.esp_addEsp, Cpu.esp_lockInc, hq, readRegs]
  refine ⟨?_, ?_, ?_, ?_, ?_, ?_, ?_⟩ <;> apply hload <;> bv_omega

end AfterCall

theorem readRegs_poppedMem {d : Detour} {c : Cpu} {q : Word}
    (hstack : ∀ x, InWord d.countExit x → ¬Below q 44 x) :
    readRegs (poppedMem d c) (q - 36) = readRegs c.mem (q - 36) := by
  apply readRegs_congr
  intro x hx
  exact store32_of_not_inWord fun h => hstack x h (below_mono (by decide) hx)

/-! ## Transparency -/

/-- The displaced instructions do not look at the word below the stack pointer, which the trampoline
overwrites before they run. -/
def IgnoresBelow (displaced : Cpu → Cpu) : Prop :=
  ∀ (c : Cpu) (v : Word),
    displaced { c with mem := store32 c.mem (c.esp - 4) v } =
      { displaced c with mem := (displaced { c with mem := store32 c.mem (c.esp - 4) v }).mem } ∧
    ∀ x, ¬InWord (c.esp - 4) x →
      (displaced { c with mem := store32 c.mem (c.esp - 4) v }).mem x = (displaced c).mem x

/-- The machine is back behind the displaced instructions: in the state `r` in which they alone would
leave it, but for the registers, flags and memory that the callbacks have changed to `R`, the stack
below and the two counters. -/
structure Resumed (d : Detour) (r : Cpu) (R : X86Regs × Mem) (depth : Nat) (f : Machine) : Prop where
  eip : f.eip = d.srcAddress + BitVec.ofNat 32 d.codeLength
  esp : f.cpu.esp = r.esp
  regs : f.cpu.edi = R.1.edi ∧ f.cpu.esi = R.1.esi ∧ f.cpu.ebp = R.1.ebp ∧ f.cpu.ebx = R.1.ebx ∧
    f.cpu.edx = R.1.edx ∧ f.cpu.ecx = R.1.ecx ∧ f.cpu.eax = R.1.eax
  eflags : f.cpu.eflags = (r.eflags &&& ~~~Cpu.userFlags) ||| (R.1.eflags &&& Cpu.userFlags)
  memory : ∀ x, ¬Below r.esp (44 + depth) x → ¬InWord d.countExit x → f.cpu.mem x = R.2 x
  countEnter : load32 f.cpu.mem d.countEnter = load32 r.mem d.countEnter + 1
  countExit : load32 f.cpu.mem d.countExit = load32 r.mem d.countExit + 1

section Transparency

variable {d : Detour} {hookCall : Machine → Machine}
  {callbacks : X86Regs → Mem → X86Regs × Mem} {depth : Nat}

/-- `Hook::call` and the way back, from a state `r` behind the displaced instructions. -/
theorem resumed_afterCall (hcdecl : Cdecl d hookCall callbacks depth) {r : Cpu}
    (hstack : ∀ x, InWord d.countEnter x ∨ InWord d.countExit x → ¬Below r.esp (44 + depth) x)
    (hcounters : ∀ x, InWord d.countEnter x → ¬InWord d.countExit x) :
    Resumed d r (callbacks (regsOf r) (atCall d r).mem) depth
      ⟨afterCall d (hookCall ⟨atCall d r, d.callHook⟩).cpu,
        d.srcAddress + BitVec.ofNat 32 d.codeLength⟩ := by
  have hstack44 : ∀ x, InWord d.countEnter x ∨ InWord d.countExit x → ¬Below r.esp 44 x :=
    fun x hx hb => hstack x hx (below_mono (Nat.le_add_right 44 depth) hb)
  have hentry : readRegs (atCall d r).mem ((atCall d r).esp + 8) = regsOf r :=
    readRegs_atCall fun x hx => hstack44 x (.inl hx)
  have hslot := hcdecl.argument ⟨atCall d r, d.callHook⟩
  have hmemory := hcdecl.memory ⟨atCall d r, d.callHook⟩
  have hesp := hcdecl.esp ⟨atCall d r, d.callHook⟩
  have hflags := hcdecl.flags ⟨atCall d r, d.callHook⟩
  rw [kernelFlags_atCall] at hflags
  simp only [hentry] at hslot hmemory
  rw [esp_atCall] at hslot hmemory hesp
  rw [show r.esp - 44 + 8 = r.esp - 36 by bv_omega] at hslot
  rw [show r.esp - 44 + 44 = r.esp by bv_omega] at hmemory
  rw [show r.esp - 44 + 4 = r.esp - 40 by bv_omega] at hesp
  generalize hookCall ⟨atCall d r, d.callHook⟩ = h at hslot hmemory hesp hflags
  have hpopped : readRegs (poppedMem d h.cpu) (r.esp - 36) =
      (callbacks (regsOf r) (atCall d r).mem).1 := by
    rw [readRegs_poppedMem fun x hx => hstack44 x (.inr hx), hslot]
  have hjump : ∀ x, ¬Below r.esp 44 x → ¬InWord (r.esp - 4) x := by
    intro x hx hword
    apply hx
    unfold InWord at hword
    unfold Below
    bv_omega
  -- the words of the counters, as `Hook::call` found and left them
  have hcount : ∀ a, (∀ x, InWord a x → InWord d.countEnter x ∨ InWord d.countExit x) →
      load32 h.cpu.mem a = load32 (atCall d r).mem a := by
    intro a ha
    apply load32_congr
    intro x hx
    rw [hmemory x (hstack x (ha x hx)), hcdecl.counters _ _ x (ha x hx)]
  have hregs := regs_afterCall (d := d) hesp
  rw [hpopped] at hregs
  refine ⟨rfl, esp_afterCall hesp, hregs, ?_, ?_, ?_, ?_⟩
  · rw [eflags_afterCall hesp, hpopped, hflags]
  · intro x hx hexit
    rw [mem_afterCall hesp, store32_of_not_inWord (hjump x fun hb =>
      hx (below_mono (Nat.le_add_right 44 depth) hb)), poppedMem, store32_of_not_inWord hexit,
      hmemory x hx]
  · rw [mem_afterCall hesp, load32_store32_ne fun x hx => hjump x (hstack44 x (.inl hx)), poppedMem,
      load32_store32_ne hcounters, hcount d.countEnter fun x hx => .inl hx,
      countEnter_atCall fun x hx => hstack44 x (.inl hx)]
  · have hexit : load32 (atCall d r).mem d.countExit = load32 r.mem d.countExit :=
      load32_congr fun x hx =>
        mem_atCall_of_not_below (hstack44 x (.inr hx)) fun h => hcounters x h hx
    rw [mem_afterCall hesp, load32_store32_ne fun x hx => hjump x (hstack44 x (.inr hx)), poppedMem,
      load32_store32, hcount d.countExit fun x hx => .inr hx, hexit]

end Transparency

/-- Code that is laid out from an address on. -/
def layout (a : Word) : List Instr → Word → Option Instr
  | [], _ => none
  | i :: is, x => if x = a then some i else layout (a + BitVec.ofNat 32 i.size) is x

/-- A hook of a function whose first eight bytes are displaced. -/
def sampleDetour (countEnter : Word) : Detour where
  srcAddress := 0x401000
  detourAddress := 0x10000
  codeLength := 8
  hook := 0x20000
  callHook := 0x30000
  countEnter := countEnter
  countExit := 0x20044
  six_le := by decide

def sampleCode (d : Detour) (displaced : Cpu → Cpu) (x : Word) : Option Instr :=
  match layout d.srcAddress (detourTrampoline d) x with
  | some i => some i
  | none => layout d.detourAddress (detourMain d displaced) x

section Sample

variable (a : Word) (displaced : Cpu → Cpu)

theorem codeAt_sampleTrampoline :
    CodeAt (sampleCode (sampleDetour a) displaced) (sampleDetour a).srcAddress
      (detourTrampoline (sampleDetour a)) := by
  simp [CodeAt, detourTrampoline, sampleCode, layout, sampleDetour, Instr.size]

theorem codeAt_sampleDetour :
    CodeAt (sampleCode (sampleDetour a) displaced) (sampleDetour a).detourAddress
      (detourMain (sampleDetour a) displaced) := by
  simp [CodeAt, detourMain, Detour.hookCode, detourTrampoline, sampleCode, layout, sampleDetour,
    Instr.size]

theorem sampleCode_callHook :
    sampleCode (sampleDetour a) displaced (sampleDetour a).callHook = none := by
  simp [detourMain, Detour.hookCode, detourTrampoline, sampleCode, layout, sampleDetour, Instr.size]

end Sample

/-- `Hook::call` with a callback that clears the register at the offset `i` of its `X86Regs`. -/
def callClear (i : Word) (m : Machine) : Machine where
  eip := load32 m.cpu.mem m.cpu.esp
  cpu := { m.cpu with esp := m.cpu.esp + 4, mem := store32 m.cpu.mem (m.cpu.esp + 8 + i) 0 }

/-- The callback that clears `ecx`. -/
def clearEcx (r : X86Regs) (m : Mem) : X86Regs × Mem := ({ r with ecx := 0 }, m)

theorem readRegs_clearEcx (m : Mem) (p : Word) :
    readRegs (store32 m (p + 28) 0) p = { readRegs m p with ecx := 0 } := by
  have hne : ∀ a : Word, (∀ x, InWord a x → ¬InWord (p + 28) x) →
      load32 (store32 m (p + 28) 0) a = load32 m a := fun a ha => load32_store32_ne ha
  have hecx := load32_store32 m (p + 28) 0
  unfold readRegs
  simp only [X86Regs.mk.injEq]
  refine ⟨hne _ ?_, hne _ ?_, hne _ ?_, hne _ ?_, hne _ ?_, hne _ ?_, hne _ ?_, hecx, hne _ ?_⟩
  all_goals
    intro x hx
    unfold InWord at *
    bv_omega

theorem cdecl_clearEcx (a : Word) : Cdecl (sampleDetour a) (callClear 28) clearEcx 0 where
  eip _ := rfl
  esp _ := rfl
  argument m := readRegs_clearEcx m.cpu.mem (m.cpu.esp + 8)
  memory m x hx := by
    refine store32_of_not_inWord fun hword => hx ?_
    unfold InWord at hword
    unfold Below
    bv_omega
  counters _ _ _ _ := rfl
  flags _ := rfl

/-- `mov eax, [esp + 4]`, the start of a function with an argument. -/
def loadArgument (c : Cpu) : Cpu := { c with eax := load32 c.mem (c.esp + 4) }

theorem ignoresBelow_loadArgument : IgnoresBelow loadArgument := by
  intro c v
  have hload : load32 (store32 c.mem (c.esp - 4) v) (c.esp + 4) = load32 c.mem (c.esp + 4) := by
    apply load32_store32_ne
    intro x hx
    unfold InWord at *
    bv_omega
  unfold loadArgument
  exact ⟨by simp only [hload], fun x hx => store32_of_not_inWord hx⟩

def sampleCpu : Cpu where
  eax := 1
  ecx := 2
  edx := 3
  ebx := 4
  esp := 0x8000
  ebp := 5
  esi := 6
  edi := 7
  eflags := 0x202
  mem := fun _ => 0

theorem apart_sampleDetour : Apart (sampleDetour 0x20040) 0x8000 0x8000 0 where
  entry x hx := by
    unfold InWord sampleDetour at *
    bv_omega
  stack x hx := by
    unfold InWord sampleDetour at hx
    unfold Below
    bv_omega
  counters x hx := by
    unfold InWord sampleDetour at *
    bv_omega

/-- `mov eax, [esp - 4]`. -/
def loadBelow (c : Cpu) : Cpu := { c with eax := load32 c.mem (c.esp - 4) }

/-- Displaced instructions that read below the stack pointer find the address that the trampoline has
jumped through. -/
theorem eax_loadBelow_hooked :
    ∃ f, steps (sampleDetour 0x20040) (sampleCode (sampleDetour 0x20040) loadBelow)
        (callClear 28) 16 ⟨sampleCpu, 0x401000⟩ = some f ∧
      f.eip = 0x401008 ∧ f.cpu.eax ≠ (loadBelow sampleCpu).eax := by
  have hsteps := steps_hook (codeAt_sampleTrampoline 0x20040 loadBelow)
    (codeAt_sampleDetour 0x20040 loadBelow) (sampleCode_callHook 0x20040 loadBelow)
    (cdecl_clearEcx 0x20040).eip sampleCpu
  have hresumed := resumed_afterCall (cdecl_clearEcx 0x20040)
    (r := loadBelow { sampleCpu with mem := store32 sampleCpu.mem (sampleCpu.esp - 4) 0x10000 })
    apart_sampleDetour.stack apart_sampleDetour.counters
  refine ⟨_, hsteps, rfl, fun hclaim => ?_⟩
  have hzero : load32 sampleCpu.mem (sampleCpu.esp - 4) = 0 := rfl
  have heax : (0x10000 : Word) = 0 := by
    have h := hresumed.regs.2.2.2.2.2.2.symm.trans hclaim
    simpa only [clearEcx, regsOf, loadBelow, load32_store32, hzero] using h
  exact absurd heax (by decide)

/-- A counter in the word below the stack pointer holds the address of the jump back. -/
theorem countEnter_below_hooked :
    ∃ f, steps (sampleDetour 0x7ffc) (sampleCode (sampleDetour 0x7ffc) loadArgument)
        (callClear 28) 16 ⟨sampleCpu, 0x401000⟩ = some f ∧
      f.eip = 0x401008 ∧
      load32 f.cpu.mem 0x7ffc ≠ load32 (loadArgument sampleCpu).mem 0x7ffc + 1 := by
  have hsteps := steps_hook (codeAt_sampleTrampoline 0x7ffc loadArgument)
    (codeAt_sampleDetour 0x7ffc loadArgument) (sampleCode_callHook 0x7ffc loadArgument)
    (cdecl_clearEcx 0x7ffc).eip sampleCpu
  refine ⟨_, hsteps, rfl, ?_⟩
  have hzero : load32 (loadArgument sampleCpu).mem 0x7ffc = 0 := rfl
  have haddr : (0x8000 : Word) - 4 = 0x7ffc := by decide
  rw [mem_afterCall (q := 0x8000) rfl, hzero, haddr, load32_store32]
  decide

/-- A callback that clears all flags does not clear those of the kernel. -/
theorem eflags_cleared_hooked :
    ∃ f, steps (sampleDetour 0x20040) (sampleCode (sampleDetour 0x20040) loadArgument)
        (callClear 0) 16 ⟨sampleCpu, 0x401000⟩ = some f ∧
      f.eip = 0x401008 ∧ f.cpu.eflags ≠ 0 := by
  have hsteps := steps_hook (codeAt_sampleTrampoline 0x20040 loadArgument)
    (codeAt_sampleDetour 0x20040 loadArgument) (sampleCode_callHook 0x20040 loadArgument)
    (show ∀ m, (callClear 0 m).eip = load32 m.cpu.mem m.cpu.esp from fun _ => rfl) sampleCpu
  refine ⟨_, hsteps, rfl, fun hzero => ?_⟩
  rw [eflags_afterCall (q := 0x8000) rfl] at hzero
  -- the kernel's flags of the sum are those from before the call, `IF` among them
  have hkernel := congrArg (· &&& ~~~Cpu.userFlags) hzero
  have hnone (X : Word) : (X &&& Cpu.userFlags) &&& ~~~Cpu.userFlags = 0#32 := by
    rw [BitVec.and_assoc, show Cpu.userFlags &&& ~~~Cpu.userFlags = 0#32 by decide, BitVec.and_zero]
  have hcall (m : Machine) : (callClear 0 m).cpu.eflags = m.cpu.eflags := rfl
  rw [kernelFlags_of_mask (by decide) (hnone _), hcall, kernelFlags_atCall] at hkernel
  have hbefore : (0x202 : Word) &&& ~~~Cpu.userFlags = 0 &&& ~~~Cpu.userFlags := hkernel
  exact absurd hbefore (by decide)

end Ra2yrcpp.Hook
