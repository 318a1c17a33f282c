import Mathlib.Data.List.Basic

/-!
# A fragment of the 32-bit x86

Registers, flags and byte memory, with the stack instructions that a detour is made of.  Code is a
map from addresses to instructions, apart from the data memory.
-/

namespace Ra2yrcpp.Reasoning.X86

abbrev Word := BitVec 32
abbrev Mem := Word → BitVec 8

/-! ## Words in memory -/

/-- The byte `x` belongs to the word at `a`. -/
def InWord (a x : Word) : Prop := (x - a).toNat < 4

instance (a x : Word) : Decidable (InWord a x) := inferInstanceAs (Decidable (_ < _))

/-- `x` is one of the `n` bytes below `q`. -/
def Below (q : Word) (n : Nat) (x : Word) : Prop := 1 ≤ (q - x).toNat ∧ (q - x).toNat ≤ n

instance (q : Word) (n : Nat) (x : Word) : Decidable (Below q n x) :=
  inferInstanceAs (Decidable (_ ∧ _))

theorem below_mono {q x : Word} {m n : Nat} (h : m ≤ n) (hx : Below q m x) : Below q n x :=
  ⟨hx.1, Nat.le_trans hx.2 h⟩

/-- Little endian. -/
def load32 (m : Mem) (a : Word) : Word := m (a + 3) ++ m (a + 2) ++ m (a + 1) ++ m a

def store32 (m : Mem) (a v : Word) : Mem :=
  fun x => if InWord a x then v.extractLsb' (8 * (x - a).toNat) 8 else m x

theorem store32_of_not_inWord {m : Mem} {a v x : Word} (h : ¬InWord a x) :
    store32 m a v x = m x := if_neg h

theorem load32_congr {m m' : Mem} {a : Word} (h : ∀ x, InWord a x → m x = m' x) :
    load32 m a = load32 m' a := by
  unfold load32
  rw [h (a + 3) (by unfold InWord; bv_omega), h (a + 2) (by unfold InWord; bv_omega),
    h (a + 1) (by unfold InWord; bv_omega), h a (by unfold InWord; bv_omega)]

theorem store32_add (m : Mem) (a v : Word) (i : Nat) (hi : i < 4) :
    store32 m a v (a + BitVec.ofNat 32 i) = v.extractLsb' (8 * i) 8 := by
  have hsub : (a + BitVec.ofNat 32 i - a).toNat = i := by bv_omega
  have hin : InWord a (a + BitVec.ofNat 32 i) := by
    unfold InWord
    omega
  unfold store32
  rw [if_pos hin, hsub]

@[simp] theorem load32_store32 (m : Mem) (a v : Word) : load32 (store32 m a v) a = v := by
  unfold load32
  have h0 := store32_add m a v 0 (by decide)
  rw [show a + BitVec.ofNat 32 0 = a by simp] at h0
  rw [h0, show a + 1 = a + BitVec.ofNat 32 1 from rfl, store32_add m a v 1 (by decide),
    show a + 2 = a + BitVec.ofNat 32 2 from rfl, store32_add m a v 2 (by decide),
    show a + 3 = a + BitVec.ofNat 32 3 from rfl, store32_add m a v 3 (by decide)]
  apply BitVec.eq_of_getLsbD_eq
  intro i hi
  simp only [BitVec.getLsbD_append, BitVec.getLsbD_extractLsb']
  grind

/-- Words apart from each other. -/
theorem load32_store32_ne {m : Mem} {a b v : Word} (h : ∀ x, InWord b x → ¬InWord a x) :
    load32 (store32 m a v) b = load32 m b :=
  load32_congr fun x hx => store32_of_not_inWord (h x hx)

/-! ## The stack -/

/-- Push the words, first to last, with `q` as the stack pointer. -/
def pushAll (m : Mem) (q : Word) : List Word → Mem
  | [] => m
  | w :: ws => pushAll (store32 m (q - 4) w) (q - 4) ws

theorem pushAll_of_not_below {ws : List Word} {m : Mem} {q x : Word} (hlen : 4 * ws.length < 4294967296)
    (h : ¬Below q (4 * ws.length) x) : pushAll m q ws x = m x := by
  induction ws generalizing m q with
  | nil => rfl
  | cons w ws ih =>
    rw [List.length_cons] at hlen h
    unfold Below at h
    rw [pushAll, ih (by omega) (by unfold Below; bv_omega),
      store32_of_not_inWord (by unfold InWord; bv_omega)]

theorem load32_pushAll {ws : List Word} {m : Mem} {q : Word} (hlen : 4 * ws.length < 4294967296)
    {k : Nat} (hk : k < ws.length) :
    load32 (pushAll m q ws) (q - BitVec.ofNat 32 (4 * (k + 1))) = ws[k] := by
  induction ws generalizing m q k with
  | nil => exact absurd hk (Nat.not_lt_zero k)
  | cons w ws ih =>
    rw [List.length_cons] at hlen hk
    cases k with
    | zero =>
      have htop : load32 (pushAll (store32 m (q - 4) w) (q - 4) ws) (q - 4) =
          load32 (store32 m (q - 4) w) (q - 4) := by
        apply load32_congr
        intro x hx
        unfold InWord at hx
        exact pushAll_of_not_below (by omega) (by unfold Below; bv_omega)
      exact htop.trans (load32_store32 m (q - 4) w)
    | succ k =>
      have haddr : q - BitVec.ofNat 32 (4 * (k + 1 + 1)) =
          q - 4 - BitVec.ofNat 32 (4 * (k + 1)) := by bv_omega
      rw [pushAll, haddr, ih (by omega) (by omega), List.getElem_cons_succ]

/-! ## Registers, flags and instructions -/

structure Cpu where
  eax : Word
  ecx : Word
  edx : Word
  ebx : Word
  esp : Word
  ebp : Word
  esi : Word
  edi : Word
  eflags : Word
  mem : Mem

namespace Cpu

def push (c : Cpu) (v : Word) : Cpu :=
  { c with esp := c.esp - 4, mem := store32 c.mem (c.esp - 4) v }

/-- The eight registers, with the stack pointer as it was before. -/
def pushad (c : Cpu) : Cpu :=
  (((((((c.push c.eax).push c.ecx).push c.edx).push c.ebx).push c.esp).push c.ebp).push
    c.esi).push c.edi

@[simp] theorem eflags_push (c : Cpu) (v : Word) : (c.push v).eflags = c.eflags := rfl

@[simp] theorem eflags_pushad (c : Cpu) : c.pushad.eflags = c.eflags := by
  simp only [pushad, eflags_push]

/-- `VM` and `RF` are cleared in the image. -/
def pushfd (c : Cpu) : Cpu := c.push (c.eflags &&& 0x00fcffff)

@[simp] theorem eflags_pushfd (c : Cpu) : c.pushfd.eflags = c.eflags := rfl

/-- The flags that `popfd` writes outside of the kernel: `CF PF AF ZF SF TF DF OF NT AC ID`. -/
def userFlags : Word := 0x00244dd5

def popfd (c : Cpu) : Cpu :=
  { c with
    eflags := (c.eflags &&& ~~~userFlags) ||| (load32 c.mem c.esp &&& userFlags)
    esp := c.esp + 4 }

@[simp] theorem mem_popfd (c : Cpu) : c.popfd.mem = c.mem := rfl

@[simp] theorem esp_popfd (c : Cpu) : c.popfd.esp = c.esp + 4 := rfl

/-- The word of the stack pointer is skipped. -/
def popad (c : Cpu) : Cpu :=
  { c with
    edi := load32 c.mem c.esp
    esi := load32 c.mem (c.esp + 4)
    ebp := load32 c.mem (c.esp + 8)
    ebx := load32 c.mem (c.esp + 16)
    edx := load32 c.mem (c.esp + 20)
    ecx := load32 c.mem (c.esp + 24)
    eax := load32 c.mem (c.esp + 28)
    esp := c.esp + 32 }

def flag (b : Bool) (i : Nat) : Word := if b then 1 <<< i else 0

/-- `PF`, `ZF` and `SF` of a result. -/
def resultFlags (r : Word) : Word :=
  flag ((List.range 8).countP (fun i => r.getLsbD i) % 2 == 0) 2 ||| flag (r == 0) 6 |||
    flag r.msb 7

/-- `inc` leaves `CF` alone. -/
def lockInc (c : Cpu) (address : Word) : Cpu :=
  let r := load32 c.mem address + 1
  { c with
    mem := store32 c.mem address r
    eflags := (c.eflags &&& ~~~0x8d4) |||
      (resultFlags r ||| flag (r &&& 0xf == 0) 4 ||| flag (r == 0x80000000) 11) }

@[simp] theorem mem_lockInc (c : Cpu) (a : Word) :
    (c.lockInc a).mem = store32 c.mem a (load32 c.mem a + 1) := rfl

@[simp] theorem esp_lockInc (c : Cpu) (a : Word) : (c.lockInc a).esp = c.esp := rfl

def addEsp (c : Cpu) (v : Word) : Cpu :=
  let r := c.esp + v
  { c with
    esp := r
    eflags := (c.eflags &&& ~~~0x8d5) |||
      (resultFlags r ||| flag (r.ult v) 0 ||| flag ((c.esp ^^^ v ^^^ r) &&& 0x10 != 0) 4 |||
        flag ((c.esp.msb == v.msb) && (r.msb != v.msb)) 11) }

@[simp] theorem mem_addEsp (c : Cpu) (v : Word) : (c.addEsp v).mem = c.mem := rfl

@[simp] theorem esp_addEsp (c : Cpu) (v : Word) : (c.addEsp v).esp = c.esp + v := rfl

end Cpu

inductive Instr
  | nop
  | push (v : Word)
  | movEax (v : Word)
  | pushad
  | pushfd
  | lockInc (address : Word)
  | callEax
  | addEsp (v : Word)
  | popfd
  | popad
  | ret
  /-- A sequence of instructions that falls through, as a whole. -/
  | block (f : Cpu → Cpu) (length : Nat)

/-- The length of the encoding. -/
def Instr.size : Instr → Nat
  | .nop | .pushad | .pushfd | .popfd | .popad | .ret => 1
  | .push _ | .movEax _ => 5
  | .lockInc _ => 7
  | .callEax => 2
  | .addEsp _ => 3
  | .block _ length => length

structure Machine where
  cpu : Cpu
  eip : Word

def exec (i : Instr) (m : Machine) : Machine :=
  let next := m.eip + BitVec.ofNat 32 i.size
  match i with
  | .nop => ⟨m.cpu, next⟩
  | .push v => ⟨m.cpu.push v, next⟩
  | .movEax v => ⟨{ m.cpu with eax := v }, next⟩
  | .pushad => ⟨m.cpu.pushad, next⟩
  | .pushfd => ⟨m.cpu.pushfd, next⟩
  | .lockInc address => ⟨m.cpu.lockInc address, next⟩
  | .callEax => ⟨m.cpu.push next, m.cpu.eax⟩
  | .addEsp v => ⟨m.cpu.addEsp v, next⟩
  | .popfd => ⟨m.cpu.popfd, next⟩
  | .popad => ⟨m.cpu.popad, next⟩
  | .ret => ⟨{ m.cpu with esp := m.cpu.esp + 4 }, load32 m.cpu.mem m.cpu.esp⟩
  | .block f _ => ⟨f m.cpu, next⟩

/-- The instructions are loaded from the address on, one after the other. -/
def CodeAt (code : Word → Option Instr) : Word → List Instr → Prop
  | _, [] => True
  | a, i :: is => code a = some i ∧ CodeAt code (a + BitVec.ofNat 32 i.size) is

end Ra2yrcpp.Reasoning.X86
