import Mathlib.Logic.Function.Iterate
import Ra2yrcpp.Reasoning.X86.Calls

/-!
# Generated functions

Instructions that address the stack by its pointer, the copy of a string, the calling conventions of
a compiled function, and functions that are straight code around one call.
-/

namespace Ra2yrcpp.Reasoning.X86

/-! ## Instructions -/

namespace Cpu

/-- `sub esp, v`. -/
def subEsp (c : Cpu) (v : Word) : Cpu :=
  let r := c.esp - v
  { c with
    esp := r
    eflags := (c.eflags &&& ~~~0x8d5) |||
      (resultFlags r ||| flag (c.esp.ult v) 0 ||| flag ((c.esp ^^^ v ^^^ r) &&& 0x10 != 0) 4 |||
        flag ((c.esp.msb != v.msb) && (r.msb != c.esp.msb)) 11) }

/-- The direction flag. -/
def df (c : Cpu) : Bool := c.eflags.getLsbD 10

def movsb (c : Cpu) : Cpu :=
  let d : Word := if c.df then -1 else 1
  { c with
    mem := fun x => if x = c.edi then c.mem c.esi else c.mem x
    esi := c.esi + d
    edi := c.edi + d }

/-- One round of `rep movsb`. -/
def movsbRound (c : Cpu) : Cpu := { c.movsb with ecx := c.ecx - 1 }

def repMovsb (c : Cpu) : Cpu := movsbRound^[c.ecx.toNat] c

theorem getLsbD_flag (b : Bool) {i : Nat} (hi : i < 32) (hne : i ≠ 10) :
    (flag b i).getLsbD 10 = false := by
  have hbit : ∀ i < 32, i ≠ 10 → (1 <<< i : Word).getLsbD 10 = false := by decide
  unfold flag
  split
  · exact hbit i hi hne
  · rfl

/-- The flags of a result do not include the direction. -/
theorem df_subEsp (c : Cpu) (v : Word) : (c.subEsp v).df = c.df := by
  have hmask : (~~~0x8d5 : Word).getLsbD 10 = true := by decide
  simp only [df, subEsp, resultFlags, BitVec.getLsbD_or, BitVec.getLsbD_and, hmask, getLsbD_flag,
    Nat.reduceLT, Nat.reduceEqDiff, ne_eq, not_false_eq_true, Bool.and_true, Bool.or_false]

end Cpu

namespace Instr

/-- The length of an instruction that addresses a word by the stack pointer. -/
def espSize (d : Word) : Nat := if IsInDisp8 d then 4 else 7

/-- `mov eax, [esp + d]`. -/
def movEaxEsp (d : Word) : Instr :=
  .block (fun c => { c with eax := load32 c.mem (c.esp + d) }) (espSize d)

/-- `mov ecx, [esp + d]`. -/
def movEcxEsp (d : Word) : Instr :=
  .block (fun c => { c with ecx := load32 c.mem (c.esp + d) }) (espSize d)

/-- `mov esi, [esp + d]`. -/
def movEsiEsp (d : Word) : Instr :=
  .block (fun c => { c with esi := load32 c.mem (c.esp + d) }) (espSize d)

/-- `mov [esp + d], eax`. -/
def movEspEax (d : Word) : Instr :=
  .block (fun c => { c with mem := store32 c.mem (c.esp + d) c.eax }) (espSize d)

/-- `mov eax, [ecx]`. -/
def movEaxEcx : Instr := .block (fun c => { c with eax := load32 c.mem c.ecx }) 2

/-- `mov eax, [eax + d]`. -/
def movEaxEax (d : Word) : Instr :=
  .block (fun c => { c with eax := load32 c.mem (c.eax + d) })
    (if d = 0 then 2 else if IsInDisp8 d then 3 else 6)

def movEdiEsp : Instr := .block (fun c => { c with edi := c.esp }) 2

def subEspImm (v : Word) : Instr := .block (fun c => c.subEsp v) (if IsInDisp8 v then 3 else 6)

def subEspEcx : Instr := .block (fun c => c.subEsp c.ecx) 2

def repMovsb : Instr := .block Cpu.repMovsb 2

end Instr

/-! ## The copy of a string -/

section Copy

variable (c : Cpu)

/-- Byte `i` of the copy: where the copy runs into the source, it repeats what lies before it. -/
def copiedByte (m : Mem) (src dst : Word) (i : Nat) : BitVec 8 :=
  m (src + BitVec.ofNat 32 (i % (dst - src).toNat))

/-- The memory after `n` bytes. -/
def copied (m : Mem) (src dst : Word) (n : Nat) : Mem :=
  fun x => if (x - dst).toNat < n then copiedByte m src dst (x - dst).toNat else m x

/-- The next byte is read where it was, or where an earlier one has been written. -/
theorem copied_next (m : Mem) (src dst : Word) {n : Nat} (hn : n < 4294967296) :
    copied m src dst n (src + BitVec.ofNat 32 n) = copiedByte m src dst n := by
  unfold copied copiedByte
  by_cases hle : (dst - src).toNat ≤ n
  · by_cases hzero : (dst - src).toNat = 0
    · have hidx : (src + BitVec.ofNat 32 n - dst).toNat = n := by bv_omega
      rw [hidx, if_neg (Nat.lt_irrefl n), hzero, Nat.mod_zero]
    · have hidx : (src + BitVec.ofNat 32 n - dst).toNat = n - (dst - src).toNat := by bv_omega
      rw [hidx, if_pos (by omega), ← Nat.mod_eq_sub_mod hle]
  · have hidx : n ≤ (src + BitVec.ofNat 32 n - dst).toNat := by bv_omega
    rw [if_neg (by omega), Nat.mod_eq_of_lt (by omega)]

theorem copied_succ (m : Mem) (src dst : Word) {n : Nat} (hn : n < 4294967296) :
    copied m src dst (n + 1) = fun x => if x = dst + BitVec.ofNat 32 n then
      copied m src dst n (src + BitVec.ofNat 32 n) else copied m src dst n x := by
  funext x
  rw [copied_next m src dst hn]
  by_cases hx : x = dst + BitVec.ofNat 32 n
  · have hidx : (x - dst).toNat = n := by bv_omega
    rw [if_pos hx, copied, hidx, if_pos (Nat.lt_succ_self n)]
  · have hidx : (x - dst).toNat ≠ n := by bv_omega
    rw [if_neg hx]
    unfold copied
    by_cases hlt : (x - dst).toNat < n
    · rw [if_pos hlt, if_pos (Nat.lt_succ_of_lt hlt)]
    · rw [if_neg hlt, if_neg (by omega)]

-- the rounds, by induction on their number; the flags stay as they are
theorem movsbRound_iterate (hdf : c.df = false) {n : Nat} (hn : n ≤ 4294967296) :
    Cpu.movsbRound^[n] c =
      { c with
        ecx := c.ecx - BitVec.ofNat 32 n
        esi := c.esi + BitVec.ofNat 32 n
        edi := c.edi + BitVec.ofNat 32 n
        mem := copied c.mem c.esi c.edi n } := by
  induction n with
  | zero =>
    have hmem : copied c.mem c.esi c.edi 0 = c.mem := funext fun x => if_neg (Nat.not_lt_zero _)
    simp [hmem]
  | succ n ih =>
    have hsub : c.ecx - BitVec.ofNat 32 n - 1 = c.ecx - BitVec.ofNat 32 (n + 1) := by bv_omega
    have hadd : ∀ v : Word, v + BitVec.ofNat 32 n + 1 = v + BitVec.ofNat 32 (n + 1) := by
      intro v
      bv_omega
    rw [Function.iterate_succ_apply', ih (by omega), copied_succ _ _ _ (by omega)]
    simp only [Cpu.movsbRound, Cpu.movsb, Cpu.df] at hdf ⊢
    simp only [hdf, Bool.false_eq_true, if_false, hsub, hadd]

/-- The count is used up, whichever way the copy goes. -/
theorem ecx_repMovsb : c.repMovsb.ecx = 0 := by
  have hrounds : ∀ n : Nat, (Cpu.movsbRound^[n] c).ecx = c.ecx - BitVec.ofNat 32 n := by
    intro n
    induction n with
    | zero => exact (BitVec.sub_zero _).symm
    | succ n ih =>
      rw [Function.iterate_succ_apply']
      show (Cpu.movsbRound^[n] c).ecx - 1 = _
      rw [ih]
      bv_omega
  rw [Cpu.repMovsb, hrounds]
  simp only [BitVec.ofNat_toNat, BitVec.setWidth_eq, BitVec.sub_self]
  rfl

theorem repMovsb_eq (hdf : c.df = false) :
    c.repMovsb =
      { c with
        ecx := 0
        esi := c.esi + c.ecx
        edi := c.edi + c.ecx
        mem := copied c.mem c.esi c.edi c.ecx.toNat } := by
  rw [Cpu.repMovsb, movsbRound_iterate c hdf (by omega)]
  simp only [BitVec.ofNat_toNat, BitVec.setWidth_eq, BitVec.sub_self]
  rfl

end Copy

/-! ## Compiled functions -/

/-- The conventions of a compiled function with `args` bytes of arguments, of which it removes
`popped`: it returns to its caller, and keeps the registers `ebx`, `ebp`, `esi` and `edi` and what the
stack holds between its arguments and `top`. -/
structure Compiled (f : Machine → Machine) (args popped : Nat) (top : Word) : Prop where
  eip : ∀ m, (f m).eip = load32 m.cpu.mem m.cpu.esp
  esp : ∀ m, (f m).cpu.esp = m.cpu.esp + BitVec.ofNat 32 (4 + popped)
  ebx : ∀ m, (f m).cpu.ebx = m.cpu.ebx
  ebp : ∀ m, (f m).cpu.ebp = m.cpu.ebp
  esi : ∀ m, (f m).cpu.esi = m.cpu.esi
  edi : ∀ m, (f m).cpu.edi = m.cpu.edi
  memory : ∀ m x, Below top (top - (m.cpu.esp + BitVec.ofNat 32 (4 + args))).toNat x →
    (f m).cpu.mem x = m.cpu.mem x

/-- A function that returns a value and removes `popped` bytes of arguments. -/
def returnsValue (v : Word) (popped : Nat) (m : Machine) : Machine where
  cpu := { m.cpu with eax := v, esp := m.cpu.esp + BitVec.ofNat 32 (4 + popped) }
  eip := load32 m.cpu.mem m.cpu.esp

theorem compiled_returnsValue (v : Word) (args popped : Nat) (top : Word) :
    Compiled (returnsValue v popped) args popped top :=
  ⟨fun _ => rfl, fun _ => rfl, fun _ => rfl, fun _ => rfl, fun _ => rfl, fun _ => rfl,
    fun _ _ _ => rfl⟩

/-! ## Functions around one call -/

section Wrapper

variable {code : Word → Option Instr} {a : Word} {before after : List Instr} {c : Cpu}
  {f : Machine → Machine}

theorem step_ret {s : Run} (h : code s.machine.eip = some .ret) :
    s.step code = some { s with machine := exec .ret s.machine } := by
  unfold Run.step
  rw [h]

theorem steps_ret {fs : List (Machine → Machine)} {ms : List Machine} (h : code a = some .ret) :
    Run.steps code [Instr.ret].length ⟨⟨c, a⟩, fs, ms⟩ =
      some ⟨⟨{ c with esp := c.esp + 4 }, load32 c.mem c.esp⟩, fs, ms⟩ := by
  show (Run.step code ⟨⟨c, a⟩, fs, ms⟩).bind _ = _
  rw [step_ret h]
  rfl

/-- Straight code, a call, straight code and the return. -/
theorem steps_wrapper (hf : ∀ m, (f m).eip = load32 m.cpu.mem m.cpu.esp)
    (hcode : CodeAt code a ((before ++ [.callEax]) ++ (after ++ [.ret])))
    (hbefore : ∀ i ∈ before, i.Straight) (hafter : ∀ i ∈ after, i.Straight) {m : Machine}
    (hm : m = ⟨applyAll before c, a + BitVec.ofNat 32 (codeSize before)⟩) {d : Cpu}
    (hd : d = applyAll after (f (exec .callEax m)).cpu) :
    Run.steps code ((before ++ [Instr.callEax]) ++ (after ++ [Instr.ret])).length
        ⟨⟨c, a⟩, [f], []⟩ =
      some ⟨⟨{ d with esp := d.esp + 4 }, load32 d.mem d.esp⟩, [], [m]⟩ := by
  obtain ⟨hcode, hrest⟩ := codeAt_append.mp hcode
  obtain ⟨hcodeAfter, hret⟩ := codeAt_append.mp hrest
  apply steps_append (steps_call hf hcode hbefore hm)
  apply steps_append (steps_straight hcodeAfter hafter)
  rw [hd]
  exact steps_ret hret.1

end Wrapper

end Ra2yrcpp.Reasoning.X86
