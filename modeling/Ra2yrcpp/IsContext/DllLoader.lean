import Mathlib.Algebra.Order.BigOperators.Group.List
import Ra2yrcpp.Reasoning.X86.Calls

/-!
# The loader of the library

`DLLLoader` generates the code that a process runs to load the library: it puts the name of the file
and the name of the init function on the stack and calls `LoadLibrary`, `GetProcAddress` and the
function.
-/

namespace Ra2yrcpp.IsContext

open Reasoning.X86

abbrev Byte := BitVec 8

/-! ## `x86.cpp` -/

/-- Up to four bytes copied to the start of a zero `dw`. -/
def dword (bytes : List Byte) : Word :=
  bytes.getD 3 0 ++ bytes.getD 2 0 ++ bytes.getD 1 0 ++ bytes.getD 0 0

/-- The `dw` of every `i`, a multiple of four less than the size. -/
def chunks (bytes : List Byte) : List Word :=
  (List.range ((bytes.length + 3) / 4)).map fun k => dword ((bytes.drop (4 * k)).take 4)

/-- The pushes, and the size that is returned. -/
def bytesToStack (bytes : List Byte) : List Instr × Nat :=
  ((chunks bytes).reverse.map Instr.pushImm, 4 * (chunks bytes).length)

def saveRegs : List Instr := [.pushad, .pushfd]

def restoreRegs : List Instr := [.popfd, .popad]

/-! ## `DLLLoader` -/

structure ProcAddrs where
  pLoadLibrary : Word
  pGetProcAddress : Word

/-- `DLLLoader::Options`. -/
structure Options where
  PA : ProcAddrs
  pathDll : List Byte
  nameInit : List Byte
  maxClients : Word
  port : Word
  indirect : Bool
  noInitHooks : Bool

namespace Options

/-- A procedure is given by its address, or by the address of a variable that holds it. -/
def movEaxProc (o : Options) (p : Word) : Instr := if o.indirect then .movEaxMem p else .movEax p

def procedure (o : Options) (m : Mem) (p : Word) : Word := if o.indirect then load32 m p else p

end Options

def dllLoaderCode (o : Options) : List Instr :=
  let (pushPath, szPath) := bytesToStack (o.pathDll ++ [0])
  let (pushName, szName) := bytesToStack (o.nameInit ++ [0])
  saveRegs ++
  -- Call LoadLibrary
  [.pushEbp, .movEbpEsp] ++ pushPath ++
  [.leaEaxEbp (-BitVec.ofNat 32 szPath), .pushEax, o.movEaxProc o.PA.pLoadLibrary, .callEax] ++
  [.movEspEbp, .pushEax] ++ pushName ++
  [.leaEaxEbp (-BitVec.ofNat 32 szName - 4), .pushEax, .movEaxEbp (-4), .pushEax,
    o.movEaxProc o.PA.pGetProcAddress, .callEax] ++
  -- Call init routine
  [.pushImm (if o.noInitHooks then 1 else 0), .pushImm o.port, .pushImm o.maxClients, .callEax] ++
  -- Restore registers
  [.movEspEbp, .popEbp] ++ restoreRegs

/-- The generator throws where the code is larger than its buffer. -/
def dllLoader (maxCodeSize : Nat) (o : Options) : Option (List Instr) :=
  if codeSize (dllLoaderCode o) ≤ maxCodeSize then some (dllLoaderCode o) else none

/-! ## Bytes on the stack -/

/-- The bytes stand at the new top of the stack in their order, filled up with zeros to a multiple of
four, which is the size that is returned; the stack above and the registers are as they were. -/
structure Placed (bytes : List Byte) (c : Cpu) : Prop where
  size : (bytesToStack bytes).2 = 4 * ((bytes.length + 3) / 4)
  regs : applyAll (bytesToStack bytes).1 c =
    { c with
      esp := c.esp - BitVec.ofNat 32 (bytesToStack bytes).2
      mem := (applyAll (bytesToStack bytes).1 c).mem }
  placed : ∀ j < (bytesToStack bytes).2,
    (applyAll (bytesToStack bytes).1 c).mem
      ((applyAll (bytesToStack bytes).1 c).esp + BitVec.ofNat 32 j) = bytes.getD j 0
  rest : ∀ x, ¬Below c.esp (bytesToStack bytes).2 x →
    (applyAll (bytesToStack bytes).1 c).mem x = c.mem x

theorem length_chunks (bytes : List Byte) : (chunks bytes).length = (bytes.length + 3) / 4 := by
  rw [chunks, List.length_map, List.length_range]

theorem extractLsb_dword (bytes : List Byte) {j : Nat} (hj : j < 4) :
    (dword bytes).extractLsb' (8 * j) 8 = bytes.getD j 0 := by
  unfold dword
  apply BitVec.eq_of_getLsbD_eq
  intro i hi
  simp only [BitVec.getLsbD_append, BitVec.getLsbD_extractLsb']
  match j with
  | 0 => grind
  | 1 => grind
  | 2 => grind
  | 3 => grind

theorem extractLsb_chunks {bytes : List Byte} {k j : Nat} (hk : k < (chunks bytes).length)
    (hj : j < 4) : (chunks bytes)[k].extractLsb' (8 * j) 8 = bytes.getD (4 * k + j) 0 := by
  have hword : (chunks bytes)[k] = dword ((bytes.drop (4 * k)).take 4) := by
    simp only [chunks, List.getElem_map, List.getElem_range]
  rw [hword, extractLsb_dword _ hj, List.getD_eq_getElem?_getD, List.getElem?_take_of_lt hj,
    List.getElem?_drop, ← List.getD_eq_getElem?_getD]

theorem pushAll_chunks {bytes : List Byte} (hlen : 4 * (chunks bytes).length < 4294967296)
    (m : Mem) (q : Word) {j : Nat} (hj : j < 4 * (chunks bytes).length) :
    pushAll m q (chunks bytes).reverse
        (q - BitVec.ofNat 32 (4 * (chunks bytes).length) + BitVec.ofNat 32 j) = bytes.getD j 0 := by
  have hsplit : 4 * (j / 4) + j % 4 = j := Nat.div_add_mod j 4
  have hk : j / 4 < (chunks bytes).length := by omega
  have hmod : j % 4 < 4 := Nat.mod_lt j (by decide)
  -- byte `j` is byte `j % 4` of word `j / 4`
  have hbyte := pushAll_reverse (m := m) (q := q) hlen hk hmod
  rw [extractLsb_chunks hk hmod, hsplit] at hbyte
  exact hbyte

theorem bytesToStack_placed {bytes : List Byte} (hlen : bytes.length + 3 < 4294967296) (c : Cpu) :
    Placed bytes c := by
  have hcount := length_chunks bytes
  have hpush : applyAll (bytesToStack bytes).1 c =
      { c with
        esp := c.esp - BitVec.ofNat 32 (4 * (chunks bytes).length)
        mem := pushAll c.mem c.esp (chunks bytes).reverse } := by
    rw [bytesToStack, applyAll_pushImm, List.length_reverse]
  constructor
  · show 4 * (chunks bytes).length = _
    rw [hcount]
  · rw [hpush]
    rfl
  · intro j hj
    rw [hpush]
    exact pushAll_chunks (by omega) c.mem c.esp hj
  · intro x hx
    rw [hpush]
    refine pushAll_of_not_below ?_ ?_
    · rw [List.length_reverse]
      omega
    · rw [List.length_reverse]
      exact hx

/-- The string a C function finds among what was pushed. -/
theorem cstring_pushAll {s : List Byte} (hs : 0 ∉ s) (m : Mem) (q : Word) {rest : List Word}
    (hlen : 4 * ((chunks (s ++ [0])).length + rest.length) < 4294967296) :
    CString (pushAll m q ((chunks (s ++ [0])).reverse ++ rest))
      (q - BitVec.ofNat 32 (4 * (chunks (s ++ [0])).length)) s := by
  have hcount := length_chunks (s ++ [0])
  rw [List.length_append, List.length_singleton] at hcount
  -- what was pushed later is below the string
  have hbyte : ∀ j < 4 * (chunks (s ++ [0])).length,
      pushAll m q ((chunks (s ++ [0])).reverse ++ rest)
        (q - BitVec.ofNat 32 (4 * (chunks (s ++ [0])).length) + BitVec.ofNat 32 j) =
          (s ++ [0]).getD j 0 := by
    intro j hj
    rw [pushAll_append, List.length_reverse, pushAll_of_not_below (by omega)]
    · exact pushAll_chunks (by omega) m q hj
    · unfold Below
      bv_omega
  constructor
  · intro i hi
    rw [hbyte i (by omega), List.getD_eq_getElem?_getD, List.getElem?_append_left hi,
      List.getElem?_eq_getElem hi, Option.getD_some]
  · rw [hbyte s.length (by omega), List.getD_eq_getElem?_getD, List.getElem?_append_right (by omega)]
    simp
  · exact hs

/-! ## The frame -/

/-- The registers as the loader saves them. -/
def savedWords (c : Cpu) : List Word :=
  [c.eax, c.ecx, c.edx, c.ebx, c.esp, c.ebp, c.esi, c.edi, c.eflags &&& 0x00fcffff, c.ebp]

def frameMem (c : Cpu) : Mem := pushAll c.mem c.esp (savedWords c)

/-- The loader, entered with `c`, between its calls. -/
structure Framed (c d : Cpu) : Prop where
  ebp : d.ebp = c.esp - 40
  frame : ∀ x, Below c.esp 40 x → d.mem x = frameMem c x
  flags : d.eflags &&& ~~~Cpu.userFlags = c.eflags &&& ~~~Cpu.userFlags

def enter : List Instr := saveRegs ++ [.pushEbp, .movEbpEsp]

def leave : List Instr := [.movEspEbp, .popEbp] ++ restoreRegs

theorem applyAll_enter (c : Cpu) :
    applyAll enter c = { c with ebp := c.esp - 40, esp := c.esp - 40, mem := frameMem c } := by
  have hesp : c.esp - 4 - 4 - 4 - 4 - 4 - 4 - 4 - 4 - 4 - 4 = c.esp - 40 := by bv_omega
  simp only [enter, saveRegs, List.cons_append, List.nil_append, applyAll_cons, applyAll_nil,
    Instr.apply_pushad, Instr.apply_pushfd, Instr.apply_pushEbp, Instr.apply_movEbpEsp, Cpu.pushad,
    Cpu.pushfd, Cpu.push, hesp, frameMem, savedWords, pushAll]

/-- What is pushed below the frame leaves it alone. -/
theorem Framed.pushed {c d d' : Cpu} (h : Framed c d) {q : Word} {k : Nat} {ws : List Word}
    (hpushed : Pushed d' d.mem q ws) (hebp : d'.ebp = c.esp - 40) (hflags : d'.eflags = d.eflags)
    (hq : q = c.esp - BitVec.ofNat 32 k) (hk : 40 ≤ k) (hlen : k + 4 * ws.length < 4294967296) :
    Framed c d' where
  ebp := hebp
  frame := by
    intro x hx
    rw [hpushed.mem, pushAll_of_not_below (by omega)]
    · exact h.frame x hx
    · unfold Below at *
      bv_omega
  flags := by
    rw [hflags]
    exact h.flags

theorem Framed.call {c : Cpu} {m : Machine} (h : Framed c m.cpu) {f : Machine → Machine}
    {n popped k : Nat} (hf : Callee f n popped c.esp) (hesp : m.cpu.esp = c.esp - BitVec.ofNat 32 k)
    (hk : 40 + 4 * (n + 1) ≤ k) (hlen : k < 4294967296) : Framed c (f m).cpu where
  ebp := by rw [hf.ebp, h.ebp]
  frame := by
    intro x hx
    rw [hf.memory m x (below_mono _ hx), h.frame x hx]
    rw [hesp]
    bv_omega
  flags := by rw [hf.flags, h.flags]

theorem eflags_restored {x y : Word} (h : y &&& ~~~Cpu.userFlags = x &&& ~~~Cpu.userFlags) :
    (y &&& ~~~Cpu.userFlags) ||| ((x &&& 0x00fcffff) &&& Cpu.userFlags) = x := by
  have hmask : (0x00fcffff : Word) &&& Cpu.userFlags = Cpu.userFlags := by decide
  have hall : ~~~Cpu.userFlags ||| Cpu.userFlags = BitVec.allOnes 32 := by decide
  rw [h, BitVec.and_assoc, hmask, ← BitVec.and_or_distrib_left, hall, BitVec.and_allOnes]

/-- The way out of the frame gives back all registers and the flags. -/
theorem Framed.leave {c d : Cpu} (h : Framed c d) :
    applyAll leave d = { c with mem := d.mem } := by
  have hload : ∀ k (hk : k < (savedWords c).length) (a : Word),
      a = c.esp - BitVec.ofNat 32 (4 * (k + 1)) → load32 d.mem a = (savedWords c)[k] := by
    intro k hk a ha
    have hcount : (savedWords c).length = 10 := rfl
    -- the word is in the frame, so it is as it was pushed
    have hframe : load32 d.mem a = load32 (frameMem c) a := by
      apply load32_congr
      intro x hx
      apply h.frame x
      unfold InWord at hx
      unfold Below
      bv_omega
    rw [hframe, ha]
    exact load32_pushAll (by rw [hcount]; decide) hk
  have hflags : (d.eflags &&& ~~~Cpu.userFlags) |||
      (load32 d.mem (c.esp - 40 + 4) &&& Cpu.userFlags) = c.eflags := by
    rw [hload 8 (by simp [savedWords]) (c.esp - 40 + 4) (by bv_omega)]
    exact eflags_restored h.flags
  have hesp : c.esp - 40 + 4 + 4 + 32 = c.esp := by bv_omega
  simp only [IsContext.leave, restoreRegs, List.cons_append, List.nil_append, applyAll_cons,
    applyAll_nil, Instr.apply_movEspEbp, Instr.apply_popEbp, Instr.apply_popfd, Instr.apply_popad,
    Cpu.popfd, Cpu.popad, h.ebp, hflags, hesp]
  rw [hload 7 (by simp [savedWords]) (c.esp - 40 + 4 + 4) (by bv_omega),
    hload 6 (by simp [savedWords]) (c.esp - 40 + 4 + 4 + 4) (by bv_omega),
    hload 5 (by simp [savedWords]) (c.esp - 40 + 4 + 4 + 8) (by bv_omega),
    hload 3 (by simp [savedWords]) (c.esp - 40 + 4 + 4 + 16) (by bv_omega),
    hload 2 (by simp [savedWords]) (c.esp - 40 + 4 + 4 + 20) (by bv_omega),
    hload 1 (by simp [savedWords]) (c.esp - 40 + 4 + 4 + 24) (by bv_omega),
    hload 0 (by simp [savedWords]) (c.esp - 40 + 4 + 4 + 28) (by bv_omega)]
  rfl

/-! ## The calls -/

/-- The three calls, by the machine at each `call` instruction; the functions find their arguments
behind the return address. -/
structure MakesCalls (o : Options) (loadLibrary getProcAddress : Machine → Machine)
    (m₁ m₂ m₃ : Machine) : Prop where
  callsLoadLibrary : m₁.cpu.eax = o.procedure m₁.cpu.mem o.PA.pLoadLibrary
  path : CString (exec .callEax m₁).cpu.mem ((exec .callEax m₁).argument 0) o.pathDll
  callsGetProcAddress : m₂.cpu.eax = o.procedure m₂.cpu.mem o.PA.pGetProcAddress
  hModule : (exec .callEax m₂).argument 0 = (loadLibrary (exec .callEax m₁)).cpu.eax
  procName : CString (exec .callEax m₂).cpu.mem ((exec .callEax m₂).argument 1) o.nameInit
  callsInit : m₃.cpu.eax = (getProcAddress (exec .callEax m₂)).cpu.eax
  maxClients : (exec .callEax m₃).argument 0 = o.maxClients
  port : (exec .callEax m₃).argument 1 = o.port
  noInitHooks : (exec .callEax m₃).argument 2 = if o.noInitHooks then 1 else 0

section Calls

variable (o : Options)

/-- The words of a string with its zero. -/
def stringWords (s : List Byte) : List Word := (chunks (s ++ [0])).reverse

def toLoadLibrary : List Instr :=
  enter ++ (stringWords o.pathDll).map Instr.pushImm ++
  [.leaEaxEbp (-BitVec.ofNat 32 (4 * (stringWords o.pathDll).length)), .pushEax] ++
  [o.movEaxProc o.PA.pLoadLibrary]

def toGetProcAddress : List Instr :=
  [.movEspEbp, .pushEax] ++ (stringWords o.nameInit).map Instr.pushImm ++
  [.leaEaxEbp (-BitVec.ofNat 32 (4 * (stringWords o.nameInit).length) - 4), .pushEax] ++
  [.movEaxEbp (-4), .pushEax] ++ [o.movEaxProc o.PA.pGetProcAddress]

def toInit : List Instr :=
  [.pushImm (if o.noInitHooks then 1 else 0), .pushImm o.port, .pushImm o.maxClients]

theorem dllLoaderCode_eq :
    dllLoaderCode o = (toLoadLibrary o ++ [.callEax]) ++ ((toGetProcAddress o ++ [.callEax]) ++
      ((toInit o ++ [.callEax]) ++ leave)) := by
  simp only [dllLoaderCode, bytesToStack, toLoadLibrary, toGetProcAddress, toInit, enter, leave,
    stringWords, List.length_reverse, List.append_assoc, List.cons_append, List.nil_append]

theorem apply_movEaxProc (p : Word) (c : Cpu) :
    (o.movEaxProc p).apply c = { c with eax := o.procedure c.mem p } := by
  unfold Options.movEaxProc Options.procedure
  cases o.indirect with
  | true => rfl
  | false => rfl

/-! ### Straight code -/

theorem straight_movEaxProc (p : Word) : (o.movEaxProc p).Straight := by
  unfold Options.movEaxProc
  cases o.indirect with
  | true => trivial
  | false => trivial

theorem straight_pushImm (ws : List Word) : ∀ i ∈ ws.map Instr.pushImm, i.Straight := by
  intro i hi
  obtain ⟨w, -, rfl⟩ := List.mem_map.mp hi
  trivial

theorem straight_toLoadLibrary : ∀ i ∈ toLoadLibrary o, i.Straight := by
  have hproc := straight_movEaxProc o o.PA.pLoadLibrary
  have hpush := straight_pushImm (stringWords o.pathDll)
  simp only [toLoadLibrary, enter, saveRegs, List.forall_mem_append, List.forall_mem_cons]
  exact ⟨⟨⟨⟨⟨trivial, trivial, nofun⟩, trivial, trivial, nofun⟩, hpush⟩, trivial, trivial, nofun⟩,
    hproc, nofun⟩

theorem straight_toGetProcAddress : ∀ i ∈ toGetProcAddress o, i.Straight := by
  have hproc := straight_movEaxProc o o.PA.pGetProcAddress
  have hpush := straight_pushImm (stringWords o.nameInit)
  simp only [toGetProcAddress, List.forall_mem_append, List.forall_mem_cons]
  exact ⟨⟨⟨⟨⟨trivial, trivial, nofun⟩, hpush⟩, trivial, trivial, nofun⟩, trivial, trivial, nofun⟩,
    hproc, nofun⟩

theorem straight_toInit : ∀ i ∈ toInit o, i.Straight := by
  simp only [toInit, List.forall_mem_cons]
  exact ⟨trivial, trivial, trivial, nofun⟩

theorem straight_leave : ∀ i ∈ leave, i.Straight := by
  simp only [leave, restoreRegs, List.forall_mem_append, List.forall_mem_cons]
  exact ⟨⟨trivial, trivial, nofun⟩, trivial, trivial, nofun⟩

/-! ### Up to a call -/

end Calls

section Stack

variable {o : Options} {c x d : Cpu} {ws : List Word}

/-- From `x` on words have been pushed below the frame. -/
structure OnStack (c x : Cpu) (ws : List Word) (d : Cpu) : Prop where
  ebp : d.ebp = c.esp - 40
  eflags : d.eflags = x.eflags
  pushed : Pushed d x.mem (c.esp - 40) ws

theorem OnStack.push (h : OnStack c x ws d) (v : Word) : OnStack c x (ws ++ [v]) (d.push v) :=
  ⟨h.ebp, h.eflags, h.pushed.push v⟩

theorem OnStack.withEax (h : OnStack c x ws d) (v : Word) : OnStack c x ws { d with eax := v } :=
  ⟨h.ebp, h.eflags, h.pushed.esp, h.pushed.mem⟩

theorem OnStack.pushImm (h : OnStack c x ws d) (vs : List Word) :
    OnStack c x (ws ++ vs) (applyAll (vs.map Instr.pushImm) d) := by
  refine ⟨?_, ?_, h.pushed.pushImm vs⟩
  · rw [applyAll_pushImm]
    exact h.ebp
  · rw [applyAll_pushImm]
    exact h.eflags

theorem OnStack.pushPointer (h : OnStack c x ws d) (delta : Word) :
    OnStack c x (ws ++ [c.esp - 40 + delta]) (applyAll [.leaEaxEbp delta, .pushEax] d) := by
  rw [← h.ebp]
  exact (h.withEax (d.ebp + delta)).push (d.ebp + delta)

/-- The first word that was pushed is read back. -/
theorem OnStack.pushFirst {v : Word} (h : OnStack c x (v :: ws) d)
    (hlen : 4 * (ws.length + 1) < 4294967296) :
    OnStack c x (v :: ws ++ [v]) (applyAll [.movEaxEbp (-4), .pushEax] d) := by
  have haddr : c.esp - 40 + -4 = c.esp - 40 - BitVec.ofNat 32 (4 * (0 + 1)) := by bv_omega
  have hv : load32 d.mem (d.ebp + -4) = v := by
    rw [h.ebp, haddr]
    exact h.pushed.load32 hlen (Nat.zero_lt_succ ws.length)
  rw [applyAll_cons, applyAll_cons, applyAll_nil, Instr.apply_movEaxEbp, Instr.apply_pushEax, hv]
  exact (h.withEax v).push v

theorem OnStack.movEaxProc (h : OnStack c x ws d) (o : Options) (p : Word) :
    OnStack c x ws (applyAll [o.movEaxProc p] d) ∧
      (applyAll [o.movEaxProc p] d).eax = o.procedure (applyAll [o.movEaxProc p] d).mem p := by
  rw [applyAll_cons, applyAll_nil, apply_movEaxProc]
  exact ⟨h.withEax _, rfl⟩

/-- What is pushed leaves the frame alone. -/
theorem OnStack.framed (h : OnStack c x ws d) (hx : Framed c x)
    (hlen : 40 + 4 * ws.length < 4294967296) : Framed c d :=
  hx.pushed h.pushed h.ebp h.eflags rfl (Nat.le_refl 40) hlen

/-- Where the strings are, for a loader entered with `c`. -/
def pathPointer (o : Options) (c : Cpu) : Word :=
  c.esp - 40 + -BitVec.ofNat 32 (4 * (stringWords o.pathDll).length)

def namePointer (o : Options) (c : Cpu) : Word :=
  c.esp - 40 + (-BitVec.ofNat 32 (4 * (stringWords o.nameInit).length) - 4)

theorem onStack_toLoadLibrary (o : Options) (c : Cpu) :
    OnStack c (applyAll enter c)
        (stringWords o.pathDll ++ [pathPointer o c]) (applyAll (toLoadLibrary o) c) ∧
      (applyAll (toLoadLibrary o) c).eax =
        o.procedure (applyAll (toLoadLibrary o) c).mem o.PA.pLoadLibrary := by
  have hstart : OnStack c (applyAll enter c) [] (applyAll enter c) := by
    rw [applyAll_enter]
    exact ⟨rfl, rfl, (BitVec.sub_zero _).symm, rfl⟩
  have hstring := hstart.pushImm (stringWords o.pathDll)
  rw [toLoadLibrary, applyAll_append, applyAll_append, applyAll_append]
  exact (hstring.pushPointer _).movEaxProc o _

theorem onStack_toGetProcAddress (o : Options) (hebp : d.ebp = c.esp - 40)
    (hlen : 4 * ((stringWords o.nameInit).length + 2) < 4294967296) :
    OnStack c d
        (d.eax :: stringWords o.nameInit ++ [namePointer o c, d.eax]) (applyAll (toGetProcAddress o) d) ∧
      (applyAll (toGetProcAddress o) d).eax =
        o.procedure (applyAll (toGetProcAddress o) d).mem o.PA.pGetProcAddress := by
  have hstart : OnStack c d [] { d with esp := d.ebp } := by
    refine ⟨hebp, rfl, ?_, rfl⟩
    show d.ebp = c.esp - 40 - 0#32
    rw [hebp, BitVec.sub_zero]
  have hstring := (hstart.push d.eax).pushImm (stringWords o.nameInit)
  have hptr := hstring.pushPointer (-BitVec.ofNat 32 (4 * (stringWords o.nameInit).length) - 4)
  have hcount : 4 * ((stringWords o.nameInit ++ [namePointer o c]).length + 1) < 4294967296 := by
    rw [List.length_append, List.length_singleton]
    exact hlen
  -- `[ebp - 4]` is the handle
  have hhandle := OnStack.pushFirst hptr hcount
  have hlist : d.eax :: stringWords o.nameInit ++ [namePointer o c, d.eax] =
      d.eax :: (stringWords o.nameInit ++ [namePointer o c]) ++ [d.eax] := by
    rw [List.cons_append, List.cons_append, List.append_assoc]
    rfl
  rw [toGetProcAddress, applyAll_append, applyAll_append, applyAll_append, applyAll_append, hlist]
  exact hhandle.movEaxProc o _

/-- The function that is called leaves the frame alone as well. -/
theorem OnStack.call (h : OnStack c x ws d) (hx : Framed c x) {f : Machine → Machine}
    {n popped : Nat} (hf : Callee f n popped c.esp) (hn : n ≤ ws.length)
    (hlen : 40 + 4 * (ws.length + 1) < 4294967296) (a : Word) :
    Framed c (f (exec .callEax ⟨d, a⟩)).cpu := by
  have hentry : OnStack c x (ws ++ [a + 2]) (exec .callEax ⟨d, a⟩).cpu := h.push (a + 2)
  have hcount : (ws ++ [a + 2]).length = ws.length + 1 := List.length_append
  have hesp : (exec .callEax ⟨d, a⟩).cpu.esp =
      c.esp - BitVec.ofNat 32 (40 + 4 * (ws.length + 1)) := by
    rw [hentry.pushed.esp, hcount]
    bv_omega
  have hframed := hentry.framed hx (by rw [hcount]; exact hlen)
  exact hframed.call hf hesp (by omega) hlen

end Stack

theorem framed_enter (c : Cpu) : Framed c (applyAll enter c) := by
  rw [applyAll_enter]
  exact ⟨rfl, fun _ _ => rfl, rfl⟩

section Entry

variable {o : Options} {c d : Cpu} (a : Word)

theorem path_argument (hpath : 0 ∉ o.pathDll)
    (hlen : 4 * ((stringWords o.pathDll).length + 2) < 4294967296) :
    CString (exec .callEax ⟨applyAll (toLoadLibrary o) c, a⟩).cpu.mem
      ((exec .callEax ⟨applyAll (toLoadLibrary o) c, a⟩).argument 0) o.pathDll := by
  have hentry : Pushed (exec .callEax ⟨applyAll (toLoadLibrary o) c, a⟩).cpu (applyAll enter c).mem
      (c.esp - 40) (stringWords o.pathDll ++ [pathPointer o c].reverse ++ [a + 2]) :=
    (onStack_toLoadLibrary o c).1.pushed.push (a + 2)
  have hptr : (exec .callEax ⟨applyAll (toLoadLibrary o) c, a⟩).argument 0 = pathPointer o c :=
    argument_pushed hentry hlen Nat.zero_lt_one
  have haddr : pathPointer o c =
      c.esp - 40 - BitVec.ofNat 32 (4 * (chunks (o.pathDll ++ [0])).length) := by
    rw [pathPointer, stringWords, List.length_reverse, BitVec.sub_eq_add_neg (c.esp - 40)]
  rw [hptr, haddr, hentry.mem, List.append_assoc]
  apply cstring_pushAll hpath
  rw [stringWords, List.length_reverse] at hlen
  exact hlen

/-- The string is above the arguments, and the handle above the string. -/
theorem name_arguments (hebp : d.ebp = c.esp - 40) (hname : 0 ∉ o.nameInit)
    (hlen : 4 * ((stringWords o.nameInit).length + 4) < 4294967296) :
    (exec .callEax ⟨applyAll (toGetProcAddress o) d, a⟩).argument 0 = d.eax ∧
      CString (exec .callEax ⟨applyAll (toGetProcAddress o) d, a⟩).cpu.mem
        ((exec .callEax ⟨applyAll (toGetProcAddress o) d, a⟩).argument 1) o.nameInit := by
  have hentry : Pushed (exec .callEax ⟨applyAll (toGetProcAddress o) d, a⟩).cpu d.mem
      (c.esp - 40) (d.eax :: stringWords o.nameInit ++ [d.eax, namePointer o c].reverse ++ [a + 2]) :=
    (onStack_toGetProcAddress o hebp (by omega)).1.pushed.push (a + 2)
  have hargs : 4 * ((d.eax :: stringWords o.nameInit).length + 2 + 1) < 4294967296 := by
    rw [List.length_cons]
    omega
  have hhandle : (exec .callEax ⟨applyAll (toGetProcAddress o) d, a⟩).argument 0 = d.eax :=
    argument_pushed hentry hargs Nat.zero_lt_two
  have hptr : (exec .callEax ⟨applyAll (toGetProcAddress o) d, a⟩).argument 1 = namePointer o c :=
    argument_pushed hentry hargs Nat.one_lt_two
  have haddr : namePointer o c =
      c.esp - 40 - 4 - BitVec.ofNat 32 (4 * (chunks (o.nameInit ++ [0])).length) := by
    rw [namePointer, stringWords, List.length_reverse]
    bv_omega
  refine ⟨hhandle, ?_⟩
  -- the handle goes first, then the string
  rw [hptr, haddr, hentry.mem, List.append_assoc, List.cons_append, pushAll]
  apply cstring_pushAll hname
  rw [stringWords, List.length_reverse] at hlen
  show 4 * ((chunks (o.nameInit ++ [0])).length + 3) < 4294967296
  omega

end Entry

section Init

variable {o : Options} {c d : Cpu}

def initWords (o : Options) : List Word := [if o.noInitHooks then 1 else 0, o.port, o.maxClients]

theorem pushed_toInit (o : Options) (d : Cpu) :
    Pushed (applyAll (toInit o) d) d.mem d.esp (initWords o) := by
  have hstart : Pushed d d.mem d.esp [] := ⟨(BitVec.sub_zero _).symm, rfl⟩
  exact hstart.pushImm (initWords o)

theorem init_arguments (a : Word) :
    (exec .callEax ⟨applyAll (toInit o) d, a⟩).argument 0 = o.maxClients ∧
      (exec .callEax ⟨applyAll (toInit o) d, a⟩).argument 1 = o.port ∧
      (exec .callEax ⟨applyAll (toInit o) d, a⟩).argument 2 = if o.noInitHooks then 1 else 0 := by
  have hentry : Pushed (exec .callEax ⟨applyAll (toInit o) d, a⟩).cpu d.mem d.esp
      ([] ++ [o.maxClients, o.port, if o.noInitHooks then 1 else 0].reverse ++ [a + 2]) :=
    (pushed_toInit o d).push (a + 2)
  have hlen : 4 * (0 + 3 + 1) < 4294967296 := by decide
  refine ⟨?_, ?_, ?_⟩
  · exact argument_pushed hentry hlen (show 0 < 3 by decide)
  · exact argument_pushed hentry hlen (show 1 < 3 by decide)
  · exact argument_pushed hentry hlen (show 2 < 3 by decide)

/-- The arguments stay below the frame, if the stack pointer is below it. -/
theorem Framed.init (h : Framed c d) {k : Nat} (hesp : d.esp = c.esp - BitVec.ofNat 32 k)
    (hk : 40 ≤ k) (hlen : k + 16 < 4294967296) {f : Machine → Machine} (hf : Callee f 3 0 c.esp)
    (a : Word) : Framed c (f (exec .callEax ⟨applyAll (toInit o) d, a⟩)).cpu := by
  have hentry : Pushed (exec .callEax ⟨applyAll (toInit o) d, a⟩).cpu d.mem d.esp
      (initWords o ++ [a + 2]) := (pushed_toInit o d).push (a + 2)
  have hframed := h.pushed hentry h.ebp rfl hesp hk hlen
  have hbelow : (exec .callEax ⟨applyAll (toInit o) d, a⟩).cpu.esp =
      c.esp - BitVec.ofNat 32 (k + 16) := by
    rw [hentry.esp, hesp]
    show c.esp - BitVec.ofNat 32 k - BitVec.ofNat 32 16 = _
    bv_omega
  exact hframed.call hf hbelow (by omega) hlen

end Init

/-! ## The run -/

theorem two_mul_length_le (ws : List Word) : 2 * ws.length ≤ codeSize (ws.map Instr.pushImm) := by
  induction ws with
  | nil => exact Nat.le_refl 0
  | cons w ws ih =>
    have hsize : 2 ≤ (Instr.pushImm w).size := by
      show 2 ≤ if IsInDisp8 w then 2 else 5
      split <;> omega
    rw [List.map_cons, codeSize_cons, List.length_cons]
    omega

/-- The code is at least half as long as the strings. -/
theorem length_stringWords_le (o : Options) :
    2 * (stringWords o.pathDll).length + 2 * (stringWords o.nameInit).length ≤
      codeSize (dllLoaderCode o) := by
  have hpath := two_mul_length_le (stringWords o.pathDll)
  have hname := two_mul_length_le (stringWords o.nameInit)
  simp only [dllLoaderCode_eq, toLoadLibrary, toGetProcAddress, codeSize_append]
  omega

section Run

variable {o : Options} {c d : Cpu} {a : Word} {f loadLibrary getProcAddress init : Machine → Machine}

/-- The machine at the `call` behind the instructions. -/
def atCall (is : List Instr) (c : Cpu) (a : Word) : Machine :=
  ⟨applyAll is c, a + BitVec.ofNat 32 (codeSize is)⟩

/-- Where the instructions and a `call` end. -/
def afterCall (is : List Instr) (a : Word) : Word :=
  a + BitVec.ofNat 32 (codeSize (is ++ [Instr.callEax]))

theorem steps_dllLoader {code : Word → Option Instr} (hcode : CodeAt code a (dllLoaderCode o))
    (hload : Callee loadLibrary 1 1 c.esp) (hproc : Callee getProcAddress 2 2 c.esp)
    (hinit : Callee init 3 0 c.esp) {m₁ m₂ m₃ : Machine} (hm₁ : m₁ = atCall (toLoadLibrary o) c a)
    (hm₂ : m₂ = atCall (toGetProcAddress o) (loadLibrary (exec .callEax m₁)).cpu
      (afterCall (toLoadLibrary o) a))
    (hm₃ : m₃ = atCall (toInit o) (getProcAddress (exec .callEax m₂)).cpu
      (afterCall (toGetProcAddress o) (afterCall (toLoadLibrary o) a))) :
    Run.steps code (dllLoaderCode o).length ⟨⟨c, a⟩, [loadLibrary, getProcAddress, init], []⟩ =
      some ⟨⟨applyAll leave (init (exec .callEax m₃)).cpu,
        a + BitVec.ofNat 32 (codeSize (dllLoaderCode o))⟩, [], [m₁, m₂, m₃]⟩ := by
  rw [dllLoaderCode_eq] at hcode ⊢
  obtain ⟨hcode₁, hcode⟩ := codeAt_append.mp hcode
  obtain ⟨hcode₂, hcode⟩ := codeAt_append.mp hcode
  obtain ⟨hcode₃, hcode₄⟩ := codeAt_append.mp hcode
  apply steps_append (steps_call hload.eip hcode₁ (straight_toLoadLibrary o) hm₁)
  apply steps_append (steps_call hproc.eip hcode₂ (straight_toGetProcAddress o) hm₂)
  apply steps_append (steps_call hinit.eip hcode₃ (straight_toInit o) hm₃)
  rw [steps_straight hcode₄ straight_leave]
  simp only [codeSize_append, BitVec.ofNat_add, BitVec.add_assoc]
  rfl

/-- `LoadLibrary` leaves the frame as it was. -/
theorem framed_loadLibrary (hload : Callee loadLibrary 1 1 c.esp)
    (hlen : 40 + 4 * ((stringWords o.pathDll).length + 2) < 4294967296) :
    Framed c (loadLibrary (exec .callEax (atCall (toLoadLibrary o) c a))).cpu := by
  have hcount : (stringWords o.pathDll ++ [pathPointer o c]).length =
      (stringWords o.pathDll).length + 1 := List.length_append
  apply (onStack_toLoadLibrary o c).1.call (framed_enter c) hload
  · rw [hcount]
    exact Nat.succ_pos _
  · rw [hcount]
    exact hlen

/-- `GetProcAddress` as well; it has removed its arguments, but not its string. -/
theorem framed_getProcAddress (h : Framed c d) (hproc : Callee getProcAddress 2 2 c.esp)
    (hlen : 40 + 4 * ((stringWords o.nameInit).length + 4) < 4294967296) :
    Framed c (getProcAddress (exec .callEax (atCall (toGetProcAddress o) d a))).cpu ∧
      (getProcAddress (exec .callEax (atCall (toGetProcAddress o) d a))).cpu.esp =
        c.esp - BitVec.ofNat 32 (40 + 4 * ((stringWords o.nameInit).length + 1)) := by
  have hstack := (onStack_toGetProcAddress o h.ebp (by omega)).1
  have hcount : (d.eax :: stringWords o.nameInit ++ [namePointer o c, d.eax]).length =
      (stringWords o.nameInit).length + 3 := by
    rw [List.length_append, List.length_cons]
    rfl
  constructor
  · apply hstack.call h hproc
    · rw [hcount]
      omega
    · rw [hcount]
      exact hlen
  · have hesp := hstack.pushed.esp
    rw [hcount] at hesp
    -- the return address and the two arguments are gone
    rw [hproc.esp]
    show (applyAll (toGetProcAddress o) d).esp - 4 + BitVec.ofNat 32 (4 * (2 + 1)) = _
    rw [hesp]
    bv_omega

/-- Each function leaves the frame to the next piece of code. -/
theorem framed_calls (hpathLen : 40 + 4 * ((stringWords o.pathDll).length + 2) < 4294967296)
    (hnameLen : 56 + 4 * ((stringWords o.nameInit).length + 4) < 4294967296)
    (hload : Callee loadLibrary 1 1 c.esp) (hproc : Callee getProcAddress 2 2 c.esp)
    (hinit : Callee init 3 0 c.esp) {m₁ m₂ m₃ : Machine} (hm₁ : m₁ = atCall (toLoadLibrary o) c a)
    (hm₂ : m₂ = atCall (toGetProcAddress o) (loadLibrary (exec .callEax m₁)).cpu
      (afterCall (toLoadLibrary o) a))
    (hm₃ : m₃ = atCall (toInit o) (getProcAddress (exec .callEax m₂)).cpu
      (afterCall (toGetProcAddress o) (afterCall (toLoadLibrary o) a))) :
    Framed c (loadLibrary (exec .callEax m₁)).cpu ∧
      (getProcAddress (exec .callEax m₂)).cpu.esp =
        c.esp - BitVec.ofNat 32 (40 + 4 * ((stringWords o.nameInit).length + 1)) ∧
      Framed c (init (exec .callEax m₃)).cpu := by
  have hframed₁ : Framed c (loadLibrary (exec .callEax m₁)).cpu := by
    rw [hm₁]
    exact framed_loadLibrary hload hpathLen
  obtain ⟨hframed₂, hesp₂⟩ : Framed c (getProcAddress (exec .callEax m₂)).cpu ∧
      (getProcAddress (exec .callEax m₂)).cpu.esp =
        c.esp - BitVec.ofNat 32 (40 + 4 * ((stringWords o.nameInit).length + 1)) := by
    rw [hm₂]
    exact framed_getProcAddress hframed₁ hproc (by omega)
  refine ⟨hframed₁, hesp₂, ?_⟩
  rw [hm₃]
  exact hframed₂.init hesp₂ (by omega) (by omega) hinit _

end Run

/-- In any state, the code makes the three calls and returns the registers, the flags and the stack
pointer as they were. -/
theorem dllLoader_makes_calls {maxCodeSize : Nat} (hmax : maxCodeSize ≤ 1073741824) {o : Options}
    (hpath : 0 ∉ o.pathDll) (hname : 0 ∉ o.nameInit) {is : List Instr}
    (hemit : dllLoader maxCodeSize o = some is) {code : Word → Option Instr} {a : Word}
    (hcode : CodeAt code a is) (c : Cpu) {loadLibrary getProcAddress init : Machine → Machine}
    (hload : Callee loadLibrary 1 1 c.esp) (hproc : Callee getProcAddress 2 2 c.esp)
    (hinit : Callee init 3 0 c.esp) :
    (∀ bytes d, bytes.length + 3 < 4294967296 → Placed bytes d) ∧
      ∃ m₁ m₂ m₃ mem,
        Run.steps code is.length ⟨⟨c, a⟩, [loadLibrary, getProcAddress, init], []⟩ =
          some ⟨⟨{ c with mem := mem }, a + BitVec.ofNat 32 (codeSize is)⟩, [], [m₁, m₂, m₃]⟩ ∧
        MakesCalls o loadLibrary getProcAddress m₁ m₂ m₃ := by
  obtain ⟨hfits, his⟩ := Option.ite_none_right_eq_some.mp hemit
  have hwords := length_stringWords_le o
  rw [← Option.some.inj his] at hcode ⊢
  obtain ⟨m₁, hm₁⟩ : ∃ m, m = atCall (toLoadLibrary o) c a := ⟨_, rfl⟩
  obtain ⟨m₂, hm₂⟩ : ∃ m, m = atCall (toGetProcAddress o) (loadLibrary (exec .callEax m₁)).cpu
    (afterCall (toLoadLibrary o) a) := ⟨_, rfl⟩
  obtain ⟨m₃, hm₃⟩ : ∃ m, m = atCall (toInit o) (getProcAddress (exec .callEax m₂)).cpu
    (afterCall (toGetProcAddress o) (afterCall (toLoadLibrary o) a)) := ⟨_, rfl⟩
  obtain ⟨hframed₁, -, hframed₃⟩ :=
    framed_calls (by omega) (by omega) hload hproc hinit hm₁ hm₂ hm₃
  have hsteps := steps_dllLoader hcode hload hproc hinit hm₁ hm₂ hm₃
  rw [hframed₃.leave] at hsteps
  refine ⟨fun bytes d hlen => bytesToStack_placed hlen d, m₁, m₂, m₃, _, hsteps, ?_⟩
  obtain ⟨hhandle, hstring⟩ := name_arguments (o := o)
    (afterCall (toLoadLibrary o) a + BitVec.ofNat 32 (codeSize (toGetProcAddress o)))
    hframed₁.ebp hname (by omega)
  obtain ⟨hclients, hport, hhooks⟩ := init_arguments (o := o)
    (d := (getProcAddress (exec .callEax m₂)).cpu)
    (afterCall (toGetProcAddress o) (afterCall (toLoadLibrary o) a) +
      BitVec.ofNat 32 (codeSize (toInit o)))
  constructor
  · rw [hm₁]
    exact (onStack_toLoadLibrary o c).2
  · rw [hm₁]
    exact path_argument _ hpath (by omega)
  · rw [hm₂]
    exact (onStack_toGetProcAddress o hframed₁.ebp (by omega)).2
  · rw [hm₂]
    exact hhandle
  · rw [hm₂]
    exact hstring
  · rw [hm₃]
    rfl
  · rw [hm₃]
    exact hclients
  · rw [hm₃]
    exact hport
  · rw [hm₃]
    exact hhooks

/-! ## A loader for `init_iservice` of `libra2yrcpp.dll` -/

def initIservice : Options where
  PA := ⟨0x1000, 0x1004⟩
  pathDll := [0x6c, 0x69, 0x62, 0x72, 0x61, 0x32, 0x79, 0x72, 0x63, 0x70, 0x70, 0x2e, 0x64, 0x6c,
    0x6c]
  nameInit := [0x69, 0x6e, 0x69, 0x74, 0x5f, 0x69, 0x73, 0x65, 0x72, 0x76, 0x69, 0x63, 0x65]
  maxClients := 16
  port := 14521
  indirect := true
  noInitHooks := false

/-- A function that returns a value and removes its arguments. -/
def returning (v : Word) (popped : Nat) (m : Machine) : Machine where
  cpu := { m.cpu with eax := v, esp := m.cpu.esp + BitVec.ofNat 32 (4 * (popped + 1)) }
  eip := load32 m.cpu.mem m.cpu.esp

theorem callee_returning (v : Word) (n popped : Nat) (top : Word) :
    Callee (returning v popped) n popped top :=
  ⟨fun _ => rfl, fun _ => rfl, fun _ => rfl, fun _ _ _ => rfl, fun _ => rfl⟩

/-- The addresses of the procedures are in their variables. -/
def loaderCpu : Cpu where
  eax := 1
  ecx := 2
  edx := 3
  ebx := 4
  esp := 0x8000
  ebp := 5
  esi := 6
  edi := 7
  eflags := 0x202
  mem := store32 (store32 (fun _ => 0) 0x1000 0x75000000) 0x1004 0x75000100

theorem initIservice_makes_calls :
    ∃ m₁ m₂ m₃ mem,
      Run.steps (place 0x401000 (dllLoaderCode initIservice)) (dllLoaderCode initIservice).length
          ⟨⟨loaderCpu, 0x401000⟩,
            [returning 0x10000000 1, returning 0x10001234 2, returning 0 0], []⟩ =
        some ⟨⟨{ loaderCpu with mem := mem },
          0x401000 + BitVec.ofNat 32 (codeSize (dllLoaderCode initIservice))⟩, [], [m₁, m₂, m₃]⟩ ∧
      MakesCalls initIservice (returning 0x10000000 1) (returning 0x10001234 2) m₁ m₂ m₃ := by
  have hemit : dllLoader 4096 initIservice = some (dllLoaderCode initIservice) :=
    if_pos (by decide)
  have hcode : CodeAt (place 0x401000 (dllLoaderCode initIservice)) 0x401000
      (dllLoaderCode initIservice) := codeAt_place (by decide) (by decide)
  exact (dllLoader_makes_calls (by decide) (by decide) (by decide) hemit hcode loaderCpu
    (callee_returning _ 1 1 _) (callee_returning _ 2 2 _) (callee_returning 0 3 0 _)).2

end Ra2yrcpp.IsContext
