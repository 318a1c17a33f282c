import Mathlib.Algebra.BigOperators.Group.List.Basic
import Mathlib.Algebra.GroupWithZero.Nat
import Ra2yrcpp.Reasoning.X86

/-!
# Calls of x86 code

Instructions on `eax`, `ebp` and the stack, runs of code that calls functions from outside, and what
a C function finds on the stack.
-/

namespace Ra2yrcpp.Reasoning.X86

/-! ## Instructions -/

/-- The value has an encoding of one byte, which is sign extended. -/
def IsInDisp8 (v : Word) : Prop := 0xffffff80 ≤ v ∨ v ≤ 0x7f

instance (v : Word) : Decidable (IsInDisp8 v) := inferInstanceAs (Decidable (_ ∨ _))

namespace Instr

def pushImm (v : Word) : Instr := .block (fun c => c.push v) (if IsInDisp8 v then 2 else 5)

def pushEax : Instr := .block (fun c => c.push c.eax) 1

def pushEbp : Instr := .block (fun c => c.push c.ebp) 1

def popEbp : Instr :=
  .block (fun c => { c with ebp := load32 c.mem c.esp, esp := c.esp + 4 }) 1

def movEbpEsp : Instr := .block (fun c => { c with ebp := c.esp }) 2

def movEspEbp : Instr := .block (fun c => { c with esp := c.ebp }) 2

/-- `lea eax, [ebp + d]`. -/
def leaEaxEbp (d : Word) : Instr :=
  .block (fun c => { c with eax := c.ebp + d }) (if IsInDisp8 d then 3 else 6)

/-- `mov eax, [ebp + d]`. -/
def movEaxEbp (d : Word) : Instr :=
  .block (fun c => { c with eax := load32 c.mem (c.ebp + d) }) (if IsInDisp8 d then 3 else 6)

/-- `mov eax, [p]`. -/
def movEaxMem (p : Word) : Instr := .block (fun c => { c with eax := load32 c.mem p }) 5

/-- What the instruction does where it goes on to the next one. -/
def apply : Instr → Cpu → Cpu
  | .nop, c => c
  | .push v, c => c.push v
  | .movEax v, c => { c with eax := v }
  | .pushad, c => c.pushad
  | .pushfd, c => c.pushfd
  | .lockInc address, c => c.lockInc address
  | .callEax, c => c
  | .addEsp v, c => c.addEsp v
  | .popfd, c => c.popfd
  | .popad, c => c.popad
  | .ret, c => c
  | .block f _, c => f c

section Apply

variable (c : Cpu)

@[simp] theorem apply_pushEax : pushEax.apply c = c.push c.eax := rfl

@[simp] theorem apply_pushEbp : pushEbp.apply c = c.push c.ebp := rfl

@[simp] theorem apply_popEbp :
    popEbp.apply c = { c with ebp := load32 c.mem c.esp, esp := c.esp + 4 } := rfl

@[simp] theorem apply_movEbpEsp : movEbpEsp.apply c = { c with ebp := c.esp } := rfl

@[simp] theorem apply_movEspEbp : movEspEbp.apply c = { c with esp := c.ebp } := rfl

@[simp] theorem apply_movEaxEbp (d : Word) :
    (movEaxEbp d).apply c = { c with eax := load32 c.mem (c.ebp + d) } := rfl

@[simp] theorem apply_pushad : Instr.pushad.apply c = c.pushad := rfl

@[simp] theorem apply_pushfd : Instr.pushfd.apply c = c.pushfd := rfl

@[simp] theorem apply_popfd : Instr.popfd.apply c = c.popfd := rfl

@[simp] theorem apply_popad : Instr.popad.apply c = c.popad := rfl

end Apply

def Straight : Instr → Prop
  | .callEax | .ret => False
  | _ => True

end Instr

theorem exec_straight {i : Instr} (h : i.Straight) (m : Machine) :
    exec i m = ⟨i.apply m.cpu, m.eip + BitVec.ofNat 32 i.size⟩ := by
  cases i with
  | callEax => exact h.elim
  | ret => exact h.elim
  | nop => rfl
  | push v => rfl
  | movEax v => rfl
  | pushad => rfl
  | pushfd => rfl
  | lockInc address => rfl
  | addEsp v => rfl
  | popfd => rfl
  | popad => rfl
  | block f length => rfl

/-! ## Code -/

def codeSize (is : List Instr) : Nat := (is.map Instr.size).sum

def applyAll (is : List Instr) (c : Cpu) : Cpu := is.foldl (fun c i => i.apply c) c

@[simp] theorem codeSize_nil : codeSize [] = 0 := rfl

@[simp] theorem codeSize_cons (i : Instr) (is : List Instr) :
    codeSize (i :: is) = i.size + codeSize is := List.sum_cons

@[simp] theorem codeSize_append (is js : List Instr) :
    codeSize (is ++ js) = codeSize is + codeSize js := by
  rw [codeSize, List.map_append, List.sum_append]
  rfl

@[simp] theorem applyAll_nil (c : Cpu) : applyAll [] c = c := rfl

@[simp] theorem applyAll_cons (i : Instr) (is : List Instr) (c : Cpu) :
    applyAll (i :: is) c = applyAll is (i.apply c) := rfl

@[simp] theorem applyAll_append (is js : List Instr) (c : Cpu) :
    applyAll (is ++ js) c = applyAll js (applyAll is c) := List.foldl_append

theorem codeAt_append {code : Word → Option Instr} {a : Word} {is js : List Instr} :
    CodeAt code a (is ++ js) ↔
      CodeAt code a is ∧ CodeAt code (a + BitVec.ofNat 32 (codeSize is)) js := by
  induction is generalizing a with
  | nil =>
    rw [List.nil_append, codeSize_nil, show a + BitVec.ofNat 32 0 = a by simp]
    exact ⟨fun h => ⟨trivial, h⟩, fun h => h.2⟩
  | cons i is ih =>
    have haddr : a + BitVec.ofNat 32 i.size + BitVec.ofNat 32 (codeSize is) =
        a + BitVec.ofNat 32 (codeSize (i :: is)) := by
      rw [codeSize_cons, BitVec.ofNat_add, BitVec.add_assoc]
    show (code a = some i ∧ CodeAt code _ (is ++ js)) ↔ (code a = some i ∧ CodeAt code _ is) ∧ _
    rw [ih, haddr, and_assoc]

theorem codeAt_congr {code code' : Word → Option Instr} {a : Word} {is : List Instr}
    (hpos : ∀ i ∈ is, 0 < i.size)
    (h : ∀ k < codeSize is, code (a + BitVec.ofNat 32 k) = code' (a + BitVec.ofNat 32 k))
    (hcode : CodeAt code a is) : CodeAt code' a is := by
  induction is generalizing a with
  | nil => trivial
  | cons i is ih =>
    have hi := hpos i List.mem_cons_self
    rw [codeSize_cons] at h
    have hfirst := h 0 (by omega)
    rw [BitVec.add_zero a] at hfirst
    refine ⟨hfirst.symm.trans hcode.1, ?_⟩
    apply ih (fun j hj => hpos j (List.mem_cons_of_mem i hj)) _ hcode.2
    intro k hk
    have hrest := h (i.size + k) (by omega)
    rw [BitVec.ofNat_add, ← BitVec.add_assoc] at hrest
    exact hrest

/-- The instructions, loaded from `a` on. -/
def place (a : Word) : List Instr → Word → Option Instr
  | [], _ => none
  | i :: is, x => if x = a then some i else place (a + BitVec.ofNat 32 i.size) is x

theorem codeAt_place {a : Word} {is : List Instr} (hpos : ∀ i ∈ is, 0 < i.size)
    (hsize : codeSize is < 4294967296) : CodeAt (place a is) a is := by
  induction is generalizing a with
  | nil => trivial
  | cons i is ih =>
    have hi := hpos i List.mem_cons_self
    have hrest : ∀ j ∈ is, 0 < j.size := fun j hj => hpos j (List.mem_cons_of_mem i hj)
    rw [codeSize_cons] at hsize
    refine ⟨if_pos rfl, ?_⟩
    apply codeAt_congr hrest _ (ih hrest (by omega))
    intro k hk
    -- the code does not reach around the address space to its start
    have hne : a + BitVec.ofNat 32 i.size + BitVec.ofNat 32 k ≠ a := by bv_omega
    exact (if_neg hne).symm

/-! ## Runs with calls -/

/-- A run that has functions to call, in the order in which it will call them. -/
structure Run where
  machine : Machine
  callees : List (Machine → Machine)
  /-- The machine at each `call` so far. -/
  calls : List Machine

/-- One instruction, or a function from its call to its return. -/
def Run.step (code : Word → Option Instr) (s : Run) : Option Run :=
  match code s.machine.eip with
  | some .callEax =>
    match s.callees with
    | f :: fs => some ⟨f (exec .callEax s.machine), fs, s.calls ++ [s.machine]⟩
    | [] => none
  | some i => some { s with machine := exec i s.machine }
  | none => none

def Run.steps (code : Word → Option Instr) : Nat → Run → Option Run
  | 0, s => some s
  | n + 1, s => (s.step code).bind (Run.steps code n)

/-- The conventions of a function with `n` arguments, `popped` of which it removes itself: it returns
to its caller and keeps `ebp`, the flags of the kernel and what the stack holds between its arguments
and `top`. -/
structure Callee (f : Machine → Machine) (n popped : Nat) (top : Word) : Prop where
  eip : ∀ m, (f m).eip = load32 m.cpu.mem m.cpu.esp
  esp : ∀ m, (f m).cpu.esp = m.cpu.esp + BitVec.ofNat 32 (4 * (popped + 1))
  ebp : ∀ m, (f m).cpu.ebp = m.cpu.ebp
  memory : ∀ m x,
    Below top (top - (m.cpu.esp + BitVec.ofNat 32 (4 * (n + 1)))).toNat x →
      (f m).cpu.mem x = m.cpu.mem x
  flags : ∀ m, (f m).cpu.eflags &&& ~~~Cpu.userFlags = m.cpu.eflags &&& ~~~Cpu.userFlags

section Runs

variable {code : Word → Option Instr} {s t : Run}

theorem steps_add (n k : Nat) :
    Run.steps code (n + k) s = (Run.steps code n s).bind (Run.steps code k) := by
  induction n generalizing s with
  | zero =>
    rw [Nat.zero_add]
    rfl
  | succ n ih =>
    rw [Nat.succ_add, Run.steps, Run.steps, Option.bind_assoc]
    exact congrArg (s.step code).bind (funext fun _ => ih)

theorem steps_trans {n k : Nat} {u : Run} (h : Run.steps code n s = some t)
    (h' : Run.steps code k t = some u) : Run.steps code (n + k) s = some u := by
  rw [steps_add, h]
  exact h'

theorem steps_append {is js : List Instr} {u : Run} (h : Run.steps code is.length s = some t)
    (h' : Run.steps code js.length t = some u) : Run.steps code (is ++ js).length s = some u := by
  rw [List.length_append]
  exact steps_trans h h'

theorem step_straight {i : Instr} (hi : i.Straight) (h : code s.machine.eip = some i) :
    s.step code = some { s with machine := exec i s.machine } := by
  unfold Run.step
  rw [h]
  cases i with
  | callEax => exact hi.elim
  | _ => rfl

variable {a : Word} {is : List Instr} {c : Cpu} {f : Machine → Machine}
  {fs : List (Machine → Machine)} {ms : List Machine}

theorem steps_straight (hcode : CodeAt code a is) (his : ∀ i ∈ is, i.Straight) :
    Run.steps code is.length ⟨⟨c, a⟩, fs, ms⟩ =
      some ⟨⟨applyAll is c, a + BitVec.ofNat 32 (codeSize is)⟩, fs, ms⟩ := by
  induction is generalizing a c with
  | nil => simp [Run.steps]
  | cons i is ih =>
    have hi := his i List.mem_cons_self
    have hrest : ∀ j ∈ is, j.Straight := fun j hj => his j (List.mem_cons_of_mem i hj)
    rw [List.length_cons, Run.steps, step_straight hi hcode.1, Option.bind_some, exec_straight hi]
    rw [ih hcode.2 hrest, applyAll_cons, codeSize_cons, BitVec.ofNat_add, BitVec.add_assoc]

/-- Straight code up to a call, and the function that it calls. -/
theorem steps_call (hf : ∀ m, (f m).eip = load32 m.cpu.mem m.cpu.esp)
    (hcode : CodeAt code a (is ++ [.callEax])) (his : ∀ i ∈ is, i.Straight) {m : Machine}
    (hm : m = ⟨applyAll is c, a + BitVec.ofNat 32 (codeSize is)⟩) :
    Run.steps code (is ++ [Instr.callEax]).length ⟨⟨c, a⟩, f :: fs, ms⟩ =
      some ⟨⟨(f (exec .callEax m)).cpu,
        a + BitVec.ofNat 32 (codeSize (is ++ [Instr.callEax]))⟩, fs, ms ++ [m]⟩ := by
  obtain ⟨hbefore, hcall⟩ := codeAt_append.mp hcode
  rw [List.length_append]
  apply steps_trans (steps_straight hbefore his)
  rw [← hm]
  have heip : m.eip = a + BitVec.ofNat 32 (codeSize is) := by rw [hm]
  -- the function returns to the address that the call has pushed
  have hreturn : (f (exec .callEax m)).eip =
      a + BitVec.ofNat 32 (codeSize (is ++ [Instr.callEax])) := by
    rw [hf]
    show load32 (store32 m.cpu.mem (m.cpu.esp - 4) (m.eip + 2)) (m.cpu.esp - 4) = _
    rw [load32_store32, heip, codeSize_append, BitVec.ofNat_add, ← BitVec.add_assoc]
    rfl
  have hstep : Run.step code ⟨m, f :: fs, ms⟩ = some ⟨f (exec .callEax m), fs, ms ++ [m]⟩ := by
    have hfetch : code (Run.machine ⟨m, f :: fs, ms⟩).eip = some .callEax := by
      show code m.eip = some .callEax
      rw [heip]
      exact hcall.1
    unfold Run.step
    rw [hfetch]
  show (Run.step code ⟨m, f :: fs, ms⟩).bind _ = _
  rw [hstep, ← hreturn]
  rfl

end Runs

/-! ## The stack -/

theorem pushAll_append (m : Mem) (q : Word) (ws vs : List Word) :
    pushAll m q (ws ++ vs) =
      pushAll (pushAll m q ws) (q - BitVec.ofNat 32 (4 * ws.length)) vs := by
  induction ws generalizing m q with
  | nil => simp [pushAll]
  | cons w ws ih =>
    have haddr : q - 4 - BitVec.ofNat 32 (4 * ws.length) =
        q - BitVec.ofNat 32 (4 * (ws.length + 1)) := by bv_omega
    rw [List.cons_append, pushAll, ih, haddr, pushAll, List.length_cons]

theorem applyAll_pushImm (ws : List Word) (c : Cpu) :
    applyAll (ws.map Instr.pushImm) c =
      { c with
        esp := c.esp - BitVec.ofNat 32 (4 * ws.length)
        mem := pushAll c.mem c.esp ws } := by
  induction ws generalizing c with
  | nil => simp [pushAll]
  | cons w ws ih =>
    have haddr : c.esp - 4 - BitVec.ofNat 32 (4 * ws.length) =
        c.esp - BitVec.ofNat 32 (4 * (ws.length + 1)) := by bv_omega
    rw [List.map_cons, applyAll_cons, ih]
    simp only [Instr.pushImm, Instr.apply, Cpu.push, haddr, pushAll, List.length_cons]

/-- Words that are pushed in reverse stand in their order, each with its lowest byte first. -/
theorem pushAll_reverse {ws : List Word} {m : Mem} {q : Word}
    (hlen : 4 * ws.length < 4294967296) {k j : Nat} (hk : k < ws.length) (hj : j < 4) :
    pushAll m q ws.reverse (q - BitVec.ofNat 32 (4 * ws.length) + BitVec.ofNat 32 (4 * k + j)) =
      ws[k].extractLsb' (8 * j) 8 := by
  induction ws generalizing k with
  | nil => exact absurd hk (Nat.not_lt_zero k)
  | cons w ws ih =>
    have hlast : pushAll m q (w :: ws).reverse =
        store32 (pushAll m q ws.reverse) (q - BitVec.ofNat 32 (4 * (ws.length + 1))) w := by
      have haddr : q - BitVec.ofNat 32 (4 * ws.length) - 4 =
          q - BitVec.ofNat 32 (4 * (ws.length + 1)) := by bv_omega
      rw [List.reverse_cons, pushAll_append, List.length_reverse, pushAll, pushAll, haddr]
    rw [List.length_cons] at hlen hk ⊢
    rw [hlast]
    -- the word that is pushed last is the first in memory
    cases k with
    | zero =>
      rw [show 4 * 0 + j = j by omega]
      exact store32_add _ _ w j hj
    | succ k =>
      have haddr : q - BitVec.ofNat 32 (4 * (ws.length + 1)) + BitVec.ofNat 32 (4 * (k + 1) + j) =
          q - BitVec.ofNat 32 (4 * ws.length) + BitVec.ofNat 32 (4 * k + j) := by bv_omega
      rw [store32_of_not_inWord, haddr, List.getElem_cons_succ]
      · exact ih (by omega) (by omega)
      · unfold InWord
        bv_omega

/-- The words have been pushed onto the memory `m`, from `q` on. -/
structure Pushed (c : Cpu) (m : Mem) (q : Word) (ws : List Word) : Prop where
  esp : c.esp = q - BitVec.ofNat 32 (4 * ws.length)
  mem : c.mem = pushAll m q ws

theorem Pushed.push {c : Cpu} {m : Mem} {q : Word} {ws : List Word} (h : Pushed c m q ws)
    (v : Word) : Pushed (c.push v) m q (ws ++ [v]) where
  esp := by
    show c.esp - 4 = _
    rw [h.esp, List.length_append, List.length_singleton]
    bv_omega
  mem := by
    rw [pushAll_append, ← h.mem, ← h.esp]
    rfl

theorem Pushed.pushImm {c : Cpu} {m : Mem} {q : Word} {ws : List Word} (h : Pushed c m q ws)
    (vs : List Word) : Pushed (applyAll (vs.map Instr.pushImm) c) m q (ws ++ vs) := by
  rw [applyAll_pushImm]
  constructor
  · show c.esp - BitVec.ofNat 32 (4 * vs.length) = _
    rw [h.esp, List.length_append]
    bv_omega
  · show pushAll c.mem c.esp vs = _
    rw [pushAll_append, ← h.mem, ← h.esp]

theorem Pushed.load32 {c : Cpu} {m : Mem} {q : Word} {ws : List Word} (h : Pushed c m q ws)
    (hlen : 4 * ws.length < 4294967296) {k : Nat} (hk : k < ws.length) :
    X86.load32 c.mem (q - BitVec.ofNat 32 (4 * (k + 1))) = ws[k] := by
  rw [h.mem]
  exact load32_pushAll hlen hk

/-- An argument of a function, at its entry. -/
def Machine.argument (m : Machine) (i : Nat) : Word :=
  load32 m.cpu.mem (m.cpu.esp + BitVec.ofNat 32 (4 * (i + 1)))

/-- The arguments are the words before the return address, last pushed first. -/
theorem argument_pushed {m : Machine} {mem : Mem} {q ret : Word} {ws args : List Word}
    (h : Pushed m.cpu mem q (ws ++ args.reverse ++ [ret]))
    (hlen : 4 * (ws.length + args.length + 1) < 4294967296) {i : Nat} (hi : i < args.length) :
    m.argument i = args[i] := by
  have hlength : (ws ++ args.reverse ++ [ret]).length = ws.length + args.length + 1 := by
    simp only [List.length_append, List.length_reverse, List.length_singleton]
  have hk : ws.length + (args.length - 1 - i) < (ws ++ args.reverse ++ [ret]).length := by omega
  have haddr : q - BitVec.ofNat 32 (4 * (ws.length + args.length + 1)) +
      BitVec.ofNat 32 (4 * (i + 1)) =
      q - BitVec.ofNat 32 (4 * (ws.length + (args.length - 1 - i) + 1)) := by bv_omega
  unfold Machine.argument
  rw [h.esp, hlength, haddr, h.load32 (by omega) hk]
  grind

/-- The bytes up to the first zero are these. -/
structure CString (m : Mem) (p : Word) (s : List (BitVec 8)) : Prop where
  bytes : ∀ i (hi : i < s.length), m (p + BitVec.ofNat 32 i) = s[i]
  nul : m (p + BitVec.ofNat 32 s.length) = 0
  noNul : 0 ∉ s

end Ra2yrcpp.Reasoning.X86
