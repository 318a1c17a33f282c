import Ra2yrcpp.Reasoning.X86.Conventions

/-!
# Calls of game functions

`ThisCall` and `VirtualCall` of `abi.hpp`: code that is called like a C function with the object as
its first argument, and calls a member function, which takes the object in `ecx` and removes the other
arguments from the stack itself.
-/

namespace Ra2yrcpp.Abi

open Reasoning.X86

/-! ## The code -/

/-- One round of the loop that copies the arguments. -/
def copyArg (stackSize i : Nat) : List Instr :=
  [.movEaxEsp (BitVec.ofNat 32 (4 + (stackSize - i * 4))),
    .movEspEax (-BitVec.ofNat 32 ((i + 1) * 4))]

/-- The arguments behind `this` are copied below the stack pointer, the last one first. -/
def copyArgs (stackSize : Nat) : List Instr :=
  (List.range ((stackSize + 3) / 4)).flatMap (copyArg stackSize)

def virtualCall (vtableIndex : Word) (stackSize : Nat) : List Instr :=
  [Instr.movEcxEsp 4] ++ copyArgs stackSize ++ [Instr.subEspImm (BitVec.ofNat 32 stackSize)] ++
  [Instr.movEaxEcx, Instr.movEaxEax (vtableIndex * 4)] ++ [Instr.callEax] ++ [Instr.ret]

def thisCall (pFn : Word) (stackSize : Nat) : List Instr :=
  [Instr.movEcxEsp 4] ++ copyArgs stackSize ++ [Instr.subEspImm (BitVec.ofNat 32 stackSize)] ++
  [Instr.movEax pFn] ++ [Instr.callEax] ++ [Instr.ret]

/-- The generator throws where the code is larger than its buffer. -/
def generate (maxCodeSize : Nat) (is : List Instr) : Option (List Instr) :=
  if codeSize is ≤ maxCodeSize then some is else none

/-- What a thunk calls. -/
inductive Target
  | direct (pFn : Word)
  | virtual (index : Word)
  deriving DecidableEq, Repr

namespace Target

def thunk : Target → Nat → List Instr
  | .direct pFn, stackSize => thisCall pFn stackSize
  | .virtual index, stackSize => virtualCall index stackSize

/-- The function, or the entry of the vtable of the object. -/
def address : Target → Mem → Word → Word
  | .direct pFn, _, _ => pFn
  | .virtual index, m, object => load32 m (load32 m object + index * 4)

end Target

/-! ## What a call has to do -/

/-- At the call: the target, with the first argument in `ecx` and the `k` others on the stack. -/
structure Passes (t : Target) (k : Nat) (entry m : Machine) : Prop where
  target : m.cpu.eax = t.address m.cpu.mem (entry.argument 0)
  this : (exec .callEax m).cpu.ecx = entry.argument 0
  args : ∀ i < k, (exec .callEax m).argument i = entry.argument (i + 1)
  memory : ∀ x, ¬Below entry.cpu.esp (4 * k) x → m.cpu.mem x = entry.cpu.mem x

/-- Back at the caller, as a C function with `k + 1` arguments returns. -/
structure Returned (k : Nat) (entry final : Machine) : Prop where
  eip : final.eip = load32 entry.cpu.mem entry.cpu.esp
  esp : final.cpu.esp = entry.cpu.esp + 4
  ebx : final.cpu.ebx = entry.cpu.ebx
  ebp : final.cpu.ebp = entry.cpu.ebp
  esi : final.cpu.esi = entry.cpu.esi
  edi : final.cpu.edi = entry.cpu.edi
  slots : ∀ i ≤ k,
    load32 final.cpu.mem (entry.cpu.esp + BitVec.ofNat 32 (4 * (i + 1))) = entry.argument i

/-! ## The copy of the arguments -/

/-- The arguments behind `this`, first to last. -/
def stackArgs (c : Cpu) (k : Nat) : List Word :=
  (List.range k).map fun i => load32 c.mem (c.esp + BitVec.ofNat 32 (4 * (i + 2)))

theorem length_stackArgs (c : Cpu) (k : Nat) : (stackArgs c k).length = k := by
  rw [stackArgs, List.length_map, List.length_range]

theorem getElem_reverse_stackArgs (c : Cpu) {k j : Nat} (hj : j < (stackArgs c k).reverse.length) :
    (stackArgs c k).reverse[j] =
      load32 c.mem (c.esp + BitVec.ofNat 32 (4 + (4 * k - j * 4))) := by
  have hlen := length_stackArgs c k
  rw [List.length_reverse, hlen] at hj
  have hidx : 4 * (k - 1 - j + 2) = 4 + (4 * k - j * 4) := by omega
  simp only [List.getElem_reverse, stackArgs, List.getElem_map, List.getElem_range,
    List.length_map, List.length_range, hidx]

-- induction on the rounds; each one reads above the stack pointer and writes below it
theorem applyAll_copyArg (c : Cpu) {k : Nat} (hk : 8 * k + 8 ≤ 4294967296) {j : Nat} (hj : j ≤ k) :
    ∃ v, applyAll ((List.range j).flatMap (copyArg (4 * k))) c =
      { c with eax := v, mem := pushAll c.mem c.esp ((stackArgs c k).reverse.take j) } := by
  induction j with
  | zero => exact ⟨c.eax, rfl⟩
  | succ j ih =>
    obtain ⟨v, hv⟩ := ih (by omega)
    have hlt : j < (stackArgs c k).reverse.length := by
      rw [List.length_reverse, length_stackArgs]
      omega
    have hcount : ((stackArgs c k).reverse.take j).length = j := by
      rw [List.length_take]
      omega
    -- the argument is where it was
    have hload : load32 (pushAll c.mem c.esp ((stackArgs c k).reverse.take j))
        (c.esp + BitVec.ofNat 32 (4 + (4 * k - j * 4))) = (stackArgs c k).reverse[j] := by
      rw [getElem_reverse_stackArgs]
      apply load32_congr
      intro x hx
      unfold InWord at hx
      apply pushAll_of_not_below
      · rw [hcount]
        omega
      · rw [hcount]
        unfold Below
        bv_omega
    have haddr : c.esp + -BitVec.ofNat 32 ((j + 1) * 4) =
        c.esp - BitVec.ofNat 32 (4 * j) - 4 := by bv_omega
    refine ⟨(stackArgs c k).reverse[j], ?_⟩
    rw [List.range_succ, List.flatMap_append, applyAll_append, hv, List.flatMap_singleton,
      List.take_succ_eq_append_getElem hlt, pushAll_append, hcount]
    simp only [copyArg, applyAll_cons, applyAll_nil, Instr.movEaxEsp, Instr.movEspEax, Instr.apply,
      hload, haddr, pushAll]

/-- The machine before the target is loaded: the arguments are on the stack, `this` is in `ecx`. -/
structure Copied (k : Nat) (c d : Cpu) : Prop where
  pushed : Pushed d c.mem c.esp (stackArgs c k).reverse
  ecx : d.ecx = load32 c.mem (c.esp + 4)
  ebx : d.ebx = c.ebx
  ebp : d.ebp = c.ebp
  esi : d.esi = c.esi
  edi : d.edi = c.edi

def enter (stackSize : Nat) : List Instr :=
  [Instr.movEcxEsp 4] ++ copyArgs stackSize ++ [Instr.subEspImm (BitVec.ofNat 32 stackSize)]

theorem copied_enter (c : Cpu) {k : Nat} (hk : 8 * k + 8 ≤ 4294967296) :
    Copied k c (applyAll (enter (4 * k)) c) := by
  have hrounds : (4 * k + 3) / 4 = k := by omega
  have hall : (stackArgs c k).reverse.take k = (stackArgs c k).reverse := by
    apply List.take_of_length_le
    apply Nat.le_of_eq
    rw [List.length_reverse, length_stackArgs]
  obtain ⟨v, hv⟩ := applyAll_copyArg { c with ecx := load32 c.mem (c.esp + 4) } hk (Nat.le_refl k)
  have henter : applyAll (enter (4 * k)) c =
      Cpu.subEsp { c with
        eax := v
        ecx := load32 c.mem (c.esp + 4)
        mem := pushAll c.mem c.esp ((stackArgs c k).reverse.take k) } (BitVec.ofNat 32 (4 * k)) := by
    rw [enter, applyAll_append, applyAll_append, copyArgs, hrounds]
    show Cpu.subEsp (applyAll ((List.range k).flatMap (copyArg (4 * k)))
      { c with ecx := load32 c.mem (c.esp + 4) }) _ = _
    rw [hv]
    rfl
  rw [henter, hall]
  constructor
  · constructor
    · show c.esp - BitVec.ofNat 32 (4 * k) = _
      rw [List.length_reverse, length_stackArgs]
    · rfl
  · rfl
  · rfl
  · rfl
  · rfl
  · rfl

/-! ## The target -/

/-- What is left of a thunk up to the call. -/
def Target.load : Target → List Instr
  | .direct pFn => [.movEax pFn]
  | .virtual index => [.movEaxEcx, .movEaxEax (index * 4)]

theorem Target.thunk_eq (t : Target) (stackSize : Nat) :
    t.thunk stackSize = (enter stackSize ++ t.load ++ [Instr.callEax]) ++ ([] ++ [Instr.ret]) := by
  cases t with
  | direct pFn => simp only [thunk, thisCall, enter, load, List.append_assoc, List.nil_append]
  | virtual index => simp only [thunk, virtualCall, enter, load, List.append_assoc, List.nil_append]

theorem Target.applyAll_load (t : Target) (d : Cpu) :
    applyAll t.load d = { d with eax := t.address d.mem d.ecx } := by
  cases t with
  | direct pFn => rfl
  | virtual index => rfl

theorem straight_enter (t : Target) (stackSize : Nat) :
    ∀ i ∈ enter stackSize ++ t.load, i.Straight := by
  have hcopy : ∀ i ∈ copyArgs stackSize, i.Straight := by
    intro i hi
    obtain ⟨j, -, hi⟩ := List.mem_flatMap.mp hi
    rcases List.mem_pair.mp hi with rfl | rfl
    · trivial
    · trivial
  have hload : ∀ i ∈ t.load, i.Straight := by
    cases t with
    | direct pFn => exact List.forall_mem_cons.mpr ⟨trivial, nofun⟩
    | virtual index =>
      exact List.forall_mem_cons.mpr ⟨trivial, List.forall_mem_cons.mpr ⟨trivial, nofun⟩⟩
  simp only [enter, List.forall_mem_append, List.forall_mem_cons]
  exact ⟨⟨⟨⟨trivial, nofun⟩, hcopy⟩, trivial, nofun⟩, hload⟩

/-- The code is longer than the arguments that it copies. -/
theorem stackSize_le_codeSize (t : Target) (k : Nat) : 8 * k ≤ codeSize (t.thunk (4 * k)) := by
  have hcopy : ∀ j, 8 * j ≤ codeSize ((List.range j).flatMap (copyArg (4 * k))) := by
    intro j
    induction j with
    | zero => exact Nat.zero_le _
    | succ j ih =>
      have hpair : 8 ≤ codeSize (copyArg (4 * k) j) := by
        simp only [copyArg, codeSize_cons, codeSize_nil, Instr.movEaxEsp, Instr.movEspEax,
          Instr.size, Instr.espSize]
        split <;> split <;> omega
      rw [List.range_succ, List.flatMap_append, codeSize_append, List.flatMap_singleton]
      omega
  have hrounds : (4 * k + 3) / 4 = k := by omega
  have hk := hcopy k
  rw [t.thunk_eq, enter, copyArgs, hrounds]
  simp only [codeSize_append]
  omega

/-! ## The run -/

section Run

variable (t : Target) {k : Nat} (entry : Machine) {f : Machine → Machine}

/-- The machine at the `call` of the thunk. -/
def atCall (t : Target) (k : Nat) (entry : Machine) : Machine :=
  ⟨applyAll (enter (4 * k) ++ t.load) entry.cpu,
    entry.eip + BitVec.ofNat 32 (codeSize (enter (4 * k) ++ t.load))⟩

/-- The machine when the function is entered: the arguments and the return address are pushed. -/
theorem pushed_atCall (hk : 8 * k + 8 ≤ 4294967296) :
    ∃ ret, Pushed (exec .callEax (atCall t k entry)).cpu entry.cpu.mem entry.cpu.esp
      ((stackArgs entry.cpu k).reverse ++ [ret]) := by
  have hcopied := copied_enter entry.cpu hk
  refine ⟨(atCall t k entry).eip + 2, ?_⟩
  apply Pushed.push
  rw [atCall, applyAll_append, t.applyAll_load]
  exact ⟨hcopied.pushed.esp, hcopied.pushed.mem⟩

theorem passes_atCall (hk : 8 * k + 8 ≤ 4294967296) : Passes t k entry (atCall t k entry) := by
  have hcopied := copied_enter entry.cpu hk
  have hcpu : (atCall t k entry).cpu =
      { applyAll (enter (4 * k)) entry.cpu with
        eax := t.address (applyAll (enter (4 * k)) entry.cpu).mem
          (applyAll (enter (4 * k)) entry.cpu).ecx } := by
    rw [atCall, applyAll_append, t.applyAll_load]
  constructor
  · rw [hcpu]
    show t.address _ (applyAll (enter (4 * k)) entry.cpu).ecx = _
    rw [hcopied.ecx]
    rfl
  · show (atCall t k entry).cpu.ecx = _
    rw [hcpu]
    exact hcopied.ecx
  · intro i hi
    obtain ⟨ret, hpushed⟩ := pushed_atCall t entry hk
    have hpushed' : Pushed (exec .callEax (atCall t k entry)).cpu entry.cpu.mem entry.cpu.esp
        ([] ++ (stackArgs entry.cpu k).reverse ++ [ret]) := hpushed
    have hlen := length_stackArgs entry.cpu k
    have hi' : i < (stackArgs entry.cpu k).length := by
      rw [hlen]
      exact hi
    rw [argument_pushed hpushed' (by rw [hlen, List.length_nil]; omega) hi']
    simp only [stackArgs, List.getElem_map, List.getElem_range]
    rfl
  · intro x hx
    rw [hcpu]
    show (applyAll (enter (4 * k)) entry.cpu).mem x = _
    rw [hcopied.pushed.mem]
    apply pushAll_of_not_below
    · rw [List.length_reverse, length_stackArgs]
      omega
    · rw [List.length_reverse, length_stackArgs]
      exact hx

/-- The machine behind the `ret` of the thunk. -/
def afterRet (t : Target) (k : Nat) (entry : Machine) (f : Machine → Machine) : Machine :=
  exec .ret (f (exec .callEax (atCall t k entry)))

/-- The thunk copies `k` arguments and the function removes `n`. -/
theorem esp_afterRet {n : Nat} {top : Word} (hf : Compiled f (4 * n) (4 * n) top)
    (hk : 8 * k + 8 ≤ 4294967296) :
    (afterRet t k entry f).cpu.esp =
      entry.cpu.esp - BitVec.ofNat 32 (4 * k) + BitVec.ofNat 32 (4 * n) + 4 := by
  obtain ⟨ret, hpushed⟩ := pushed_atCall t entry hk
  have hesp := hpushed.esp
  rw [List.length_append, List.length_reverse, length_stackArgs, List.length_singleton] at hesp
  -- the return address is pushed by the call and removed by the function
  have hret : ∀ a b : Word, entry.cpu.esp - (a + 4) + (4 + b) = entry.cpu.esp - a + b := by
    intro a b
    bv_omega
  show (f (exec .callEax (atCall t k entry))).cpu.esp + 4 = _
  rw [hf.esp, hesp, Nat.mul_succ, BitVec.ofNat_add, BitVec.ofNat_add]
  exact congrArg (· + 4) (hret _ _)

/-- What is above the stack pointer at the entry is still there. -/
theorem mem_afterRet (hf : Compiled f (4 * k) (4 * k) (entry.cpu.esp + BitVec.ofNat 32 (4 * (k + 2))))
    (hk : 8 * k + 12 ≤ 4294967296) {x : Word}
    (hx : Below (entry.cpu.esp + BitVec.ofNat 32 (4 * (k + 2))) (4 * (k + 2)) x) :
    (afterRet t k entry f).cpu.mem x = entry.cpu.mem x := by
  obtain ⟨ret, hpushed⟩ := pushed_atCall t (k := k) entry (by omega)
  have hcount : ((stackArgs entry.cpu k).reverse ++ [ret]).length = k + 1 := by
    rw [List.length_append, List.length_reverse, length_stackArgs, List.length_singleton]
  have hesp := hpushed.esp
  rw [hcount] at hesp
  show (f (exec .callEax (atCall t k entry))).cpu.mem x = _
  rw [hf.memory, hpushed.mem, pushAll_of_not_below]
  · rw [hcount]
    omega
  · rw [hcount]
    unfold Below at *
    bv_omega
  · rw [hesp]
    apply below_mono _ hx
    bv_omega

theorem returned_afterRet
    (hf : Compiled f (4 * k) (4 * k) (entry.cpu.esp + BitVec.ofNat 32 (4 * (k + 2))))
    (hk : 8 * k + 12 ≤ 4294967296) : Returned k entry (afterRet t k entry f) := by
  have hcopied := copied_enter entry.cpu (k := k) (by omega)
  have hesp := esp_afterRet t (k := k) entry hf (by omega)
  have hload : ∀ i ≤ k + 1, load32 (afterRet t k entry f).cpu.mem
      (entry.cpu.esp + BitVec.ofNat 32 (4 * i)) =
        load32 entry.cpu.mem (entry.cpu.esp + BitVec.ofNat 32 (4 * i)) := by
    intro i hi
    apply load32_congr
    intro x hx
    apply mem_afterRet t entry hf hk
    unfold InWord at hx
    unfold Below
    bv_omega
  -- a register that the code keeps, and the function as well
  have hkeep : ∀ {r : Cpu → Word}, (∀ d v, r { d with eax := v } = r d) →
      r (applyAll (enter (4 * k)) entry.cpu) = r entry.cpu →
        r (atCall t k entry).cpu = r entry.cpu := by
    intro r heax henter
    rw [atCall, applyAll_append, t.applyAll_load]
    exact (heax _ _).trans henter
  constructor
  · have hret := hload 0 (Nat.zero_le _)
    have hback : (f (exec .callEax (atCall t k entry))).cpu.esp = entry.cpu.esp := by
      have hafter : (f (exec .callEax (atCall t k entry))).cpu.esp + 4 = _ := hesp
      bv_omega
    show load32 (f (exec .callEax (atCall t k entry))).cpu.mem
      (f (exec .callEax (atCall t k entry))).cpu.esp = _
    rw [hback]
    rw [show entry.cpu.esp + BitVec.ofNat 32 (4 * 0) = entry.cpu.esp by simp] at hret
    exact hret
  · rw [hesp]
    bv_omega
  · exact (hf.ebx _).trans (hkeep (fun _ _ => rfl) hcopied.ebx)
  · exact (hf.ebp _).trans (hkeep (fun _ _ => rfl) hcopied.ebp)
  · exact (hf.esi _).trans (hkeep (fun _ _ => rfl) hcopied.esi)
  · exact (hf.edi _).trans (hkeep (fun _ _ => rfl) hcopied.edi)
  · intro i hi
    exact hload (i + 1) (by omega)

theorem steps_thunk {code : Word → Option Instr} (hcode : CodeAt code entry.eip (t.thunk (4 * k)))
    (hf : ∀ m, (f m).eip = load32 m.cpu.mem m.cpu.esp) :
    Run.steps code (t.thunk (4 * k)).length ⟨entry, [f], []⟩ =
      some ⟨afterRet t k entry f, [], [atCall t k entry]⟩ := by
  rw [t.thunk_eq] at hcode ⊢
  exact steps_wrapper hf hcode (straight_enter t (4 * k)) nofun rfl rfl

end Run

/-- A thunk with room for the arguments passes all of them, and returns like a C function. -/
theorem thunk_passes_arguments {maxCodeSize : Nat} (hmax : maxCodeSize ≤ 1073741824) {t : Target}
    {k : Nat} {is : List Instr} (hemit : generate maxCodeSize (t.thunk (4 * k)) = some is)
    {code : Word → Option Instr} {entry : Machine} (hcode : CodeAt code entry.eip is)
    {f : Machine → Machine}
    (hf : Compiled f (4 * k) (4 * k) (entry.cpu.esp + BitVec.ofNat 32 (4 * (k + 2)))) :
    ∃ m final, Run.steps code is.length ⟨entry, [f], []⟩ = some ⟨final, [], [m]⟩ ∧
      Passes t k entry m ∧ Returned k entry final := by
  obtain ⟨hfits, his⟩ := Option.ite_none_right_eq_some.mp hemit
  have hk := stackSize_le_codeSize t k
  rw [← Option.some.inj his] at hcode ⊢
  exact ⟨_, _, steps_thunk t entry hcode hf.eip, passes_atCall t entry (by omega),
    returned_afterRet t entry hf (by omega)⟩

/-! ## A call of the third virtual function -/

/-- The object at `0x5000` has its vtable at `0x6000`; two arguments are on the stack behind it. -/
def virtualEntry : Machine where
  cpu :=
    { eax := 0
      ecx := 0
      edx := 0
      ebx := 1
      esp := 0x8000
      ebp := 2
      esi := 3
      edi := 4
      eflags := 0x202
      mem := pushAll (store32 (store32 (fun _ => 0) 0x5000 0x6000) 0x6008 0x700100) 0x8010
        [22, 11, 0x5000, 0x401234] }
  eip := 0x900000

theorem virtualEntry_passes :
    generate 4096 (virtualCall 2 8) = some (virtualCall 2 8) ∧
      ∃ m final, Run.steps (place 0x900000 (virtualCall 2 8)) (virtualCall 2 8).length
          ⟨virtualEntry, [returnsValue 7 8], []⟩ = some ⟨final, [], [m]⟩ ∧
        Passes (.virtual 2) 2 virtualEntry m ∧ Returned 2 virtualEntry final := by
  have hemit : generate 4096 (Target.thunk (.virtual 2) (4 * 2)) = some (virtualCall 2 8) :=
    if_pos (by decide)
  have hcode : CodeAt (place 0x900000 (virtualCall 2 8)) virtualEntry.eip (virtualCall 2 8) :=
    codeAt_place (by decide) (by decide)
  exact ⟨hemit, thunk_passes_arguments (by decide) hemit hcode (compiled_returnsValue 7 8 8 _)⟩

end Ra2yrcpp.Abi
