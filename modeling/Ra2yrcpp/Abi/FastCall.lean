import Ra2yrcpp.Reasoning.X86.Conventions

/-!
# Calls of functions with variable arguments

`FastCall` of `abi.hpp`: the bytes of an argument block are copied onto the stack for the function.
The copy goes through `esi` and `edi`, which the code does not save.
-/

namespace Ra2yrcpp.Abi

open Reasoning.X86

/-! ## The code -/

/-- `fn(args_begin, count)`. -/
def fastCall (pFn : Word) : List Instr :=
  -- args_begin, number of bytes to copy from args_begin
  [.movEsiEsp 4, .movEcxEsp 8,
   .pushEbp, .movEbpEsp, .subEspEcx, .movEdiEsp, .repMovsb, .movEax pFn,
   -- cdecl - calling function cleans the stack
   .callEax, .movEspEbp,
   -- restore stack
   .popEbp, .ret]

section FastCall

variable (pFn : Word) (entry : Machine)

/-- The argument block. -/
def argsBegin : Word := entry.argument 0

def count : Word := entry.argument 1

/-- Where the block is copied to. -/
def argumentArea : Word := entry.cpu.esp - 4 - count entry

/-- The memory with the frame pointer pushed. -/
def framed : Mem := store32 entry.cpu.mem (entry.cpu.esp - 4) entry.cpu.ebp

/-! ## What a call has to do -/

/-- At the call: the function, with the bytes of the block as its arguments. -/
structure CallsWithBlock (m : Machine) : Prop where
  target : m.cpu.eax = pFn
  block : ∀ i < (count entry).toNat,
    (exec .callEax m).cpu.mem ((exec .callEax m).cpu.esp + 4 + BitVec.ofNat 32 i) =
      entry.cpu.mem (argsBegin entry + BitVec.ofNat 32 i)

/-- Back at the caller, with its registers. -/
structure Kept (final : Machine) : Prop where
  eip : final.eip = load32 entry.cpu.mem entry.cpu.esp
  esp : final.cpu.esp = entry.cpu.esp + 4
  ebp : final.cpu.ebp = entry.cpu.ebp
  ebx : final.cpu.ebx = entry.cpu.ebx
  esi : final.cpu.esi = entry.cpu.esi
  edi : final.cpu.edi = entry.cpu.edi

/-! ## The code up to the call -/

def copyBlock : List Instr :=
  [.movEsiEsp 4, .movEcxEsp 8, .pushEbp, .movEbpEsp, .subEspEcx, .movEdiEsp, .repMovsb, .movEax pFn]

theorem fastCall_eq :
    fastCall pFn =
      (copyBlock pFn ++ [Instr.callEax]) ++ ([Instr.movEspEbp, Instr.popEbp] ++ [Instr.ret]) := rfl

theorem straight_copyBlock : ∀ i ∈ copyBlock pFn, i.Straight := by
  simp only [copyBlock, List.forall_mem_cons]
  exact ⟨trivial, trivial, trivial, trivial, trivial, trivial, trivial, trivial, nofun⟩

/-- The machine at the `call`. -/
def atFastCall : Machine :=
  ⟨applyAll (copyBlock pFn) entry.cpu,
    entry.eip + BitVec.ofNat 32 (codeSize (copyBlock pFn))⟩

/-- The registers and the memory at the `call`. -/
structure BlockCopied (d : Cpu) : Prop where
  eax : d.eax = pFn
  ecx : d.ecx = 0
  ebx : d.ebx = entry.cpu.ebx
  esp : d.esp = argumentArea entry
  ebp : d.ebp = entry.cpu.esp - 4
  esi : d.esi = argsBegin entry + count entry
  edi : d.edi = entry.cpu.esp - 4
  mem : d.mem = copied (framed entry) (argsBegin entry) (argumentArea entry) (count entry).toNat

/-- The machine that starts to copy. -/
def beforeCopy : Cpu :=
  applyAll [.movEsiEsp 4, .movEcxEsp 8, .pushEbp, .movEbpEsp, .subEspEcx, .movEdiEsp] entry.cpu

theorem df_beforeCopy (hdf : entry.cpu.df = false) : (beforeCopy entry).df = false := by
  show (Cpu.subEsp _ (count entry)).df = false
  rw [Cpu.df_subEsp]
  exact hdf

theorem blockCopied_atFastCall (hdf : entry.cpu.df = false) :
    BlockCopied pFn entry (atFastCall pFn entry).cpu := by
  have hcopy := repMovsb_eq (beforeCopy entry) (df_beforeCopy entry hdf)
  have hcpu : (atFastCall pFn entry).cpu = { (beforeCopy entry).repMovsb with eax := pFn } := rfl
  rw [hcpu, hcopy]
  constructor
  · rfl
  · rfl
  · rfl
  · rfl
  · rfl
  · rfl
  · show entry.cpu.esp - 4 - count entry + count entry = _
    exact BitVec.sub_add_cancel _ _
  · rfl

/-! ## The frame -/

variable {pFn entry} {d : Cpu}

/-- The frame pointer and the return address are above the copy. -/
theorem BlockCopied.frame (h : BlockCopied pFn entry d) (hroom : (count entry).toNat + 12 ≤ 4294967296)
    (ret : Word) {x : Word} (hx : Below (entry.cpu.esp + 4) 8 x) :
    (d.push ret).mem x = framed entry x := by
  have hwords : ∀ n : Word, n.toNat + 12 ≤ 4294967296 →
      ¬InWord (entry.cpu.esp - 4 - n - 4) x ∧ ¬(x - (entry.cpu.esp - 4 - n)).toNat < n.toNat := by
    intro n hn
    unfold Below at hx
    unfold InWord
    constructor
    · bv_omega
    · bv_omega
  obtain ⟨hret, hcopy⟩ := hwords (count entry) hroom
  show store32 d.mem (d.esp - 4) ret x = _
  rw [h.esp, h.mem, argumentArea, store32_of_not_inWord hret, copied]
  exact if_neg hcopy

/-- The arguments of the function are the bytes that were copied. -/
theorem BlockCopied.argument (h : BlockCopied pFn entry d)
    (hroom : (count entry).toNat + 12 ≤ 4294967296) (ret : Word) {i : Nat}
    (hi : i < (count entry).toNat) :
    (d.push ret).mem ((d.push ret).esp + 4 + BitVec.ofNat 32 i) =
      copiedByte (framed entry) (argsBegin entry) (argumentArea entry) i := by
  have haddr : d.esp - 4 + 4 + BitVec.ofNat 32 i = argumentArea entry + BitVec.ofNat 32 i := by
    rw [h.esp, BitVec.sub_add_cancel]
  have hret : ¬InWord (argumentArea entry - 4) (argumentArea entry + BitVec.ofNat 32 i) := by
    unfold InWord
    bv_omega
  have hidx : (argumentArea entry + BitVec.ofNat 32 i - argumentArea entry).toNat = i := by bv_omega
  show store32 d.mem (d.esp - 4) ret (d.esp - 4 + 4 + BitVec.ofNat 32 i) = _
  rw [haddr, h.esp, h.mem, store32_of_not_inWord hret, copied, hidx, if_pos hi]

end FastCall

/-- A block that lies outside the copy and the frame below it is copied as it is. -/
theorem copiedByte_of_apart {entry : Machine} (hroom : (count entry).toNat + 12 ≤ 4294967296)
    (hapart : ∀ i < (count entry).toNat,
      ¬Below entry.cpu.esp ((count entry).toNat + 4) (argsBegin entry + BitVec.ofNat 32 i)) :
    ∀ i < (count entry).toNat,
      copiedByte (framed entry) (argsBegin entry) (argumentArea entry) i =
        entry.cpu.mem (argsBegin entry + BitVec.ofNat 32 i) := by
  intro i hi
  -- the copy starts behind the block, so that no byte is read from the copy
  have hdist : (count entry).toNat ≤ (argumentArea entry - argsBegin entry).toNat := by
    by_contra hlt
    apply hapart (argumentArea entry - argsBegin entry).toNat (by omega)
    rw [BitVec.ofNat_toNat, BitVec.setWidth_eq, BitVec.add_comm, BitVec.sub_add_cancel]
    unfold argumentArea Below
    bv_omega
  have hidx : i % (argumentArea entry - argsBegin entry).toNat = i := Nat.mod_eq_of_lt (by omega)
  rw [copiedByte, hidx, framed]
  apply store32_of_not_inWord
  have hout := hapart i hi
  unfold Below at hout
  unfold InWord
  bv_omega

/-! ## The run -/

section Run

variable {pFn : Word} {entry : Machine} {f : Machine → Machine}

/-- The machine behind the function and the return of the code. -/
def afterFastCall (pFn : Word) (entry : Machine) (f : Machine → Machine) : Machine :=
  exec .ret ⟨applyAll [.movEspEbp, .popEbp] (f (exec .callEax (atFastCall pFn entry))).cpu, 0⟩

theorem steps_fastCall {code : Word → Option Instr} (hcode : CodeAt code entry.eip (fastCall pFn))
    (hf : ∀ m, (f m).eip = load32 m.cpu.mem m.cpu.esp) :
    Run.steps code (fastCall pFn).length ⟨entry, [f], []⟩ =
      some ⟨afterFastCall pFn entry f, [], [atFastCall pFn entry]⟩ := by
  have hafter : ∀ i ∈ [Instr.movEspEbp, Instr.popEbp], i.Straight := by
    simp only [List.forall_mem_cons]
    exact ⟨trivial, trivial, nofun⟩
  rw [fastCall_eq] at hcode ⊢
  exact steps_wrapper hf hcode (straight_copyBlock pFn) hafter rfl rfl

theorem callsWithBlock_iff (hroom : (count entry).toNat + 12 ≤ 4294967296)
    (hdf : entry.cpu.df = false) :
    CallsWithBlock pFn entry (atFastCall pFn entry) ↔
      ∀ i < (count entry).toNat,
        copiedByte (framed entry) (argsBegin entry) (argumentArea entry) i =
          entry.cpu.mem (argsBegin entry + BitVec.ofNat 32 i) := by
  have hcopied := blockCopied_atFastCall pFn entry hdf
  have harg : ∀ i < (count entry).toNat,
      (exec .callEax (atFastCall pFn entry)).cpu.mem
        ((exec .callEax (atFastCall pFn entry)).cpu.esp + 4 + BitVec.ofNat 32 i) =
      copiedByte (framed entry) (argsBegin entry) (argumentArea entry) i :=
    fun i hi => hcopied.argument hroom _ hi
  constructor
  · intro h i hi
    rw [← harg i hi]
    exact h.block i hi
  · intro h
    refine ⟨hcopied.eax, ?_⟩
    intro i hi
    rw [harg i hi]
    exact h i hi

/-- All but `esi` and `edi`, which are left where the copy has ended. -/
theorem kept_iff (hroom : (count entry).toNat + 12 ≤ 4294967296) (hdf : entry.cpu.df = false)
    (hf : Compiled f (count entry).toNat 0 (entry.cpu.esp + 4)) :
    Kept entry (afterFastCall pFn entry f) ↔
      entry.cpu.esi = argsBegin entry + count entry ∧ entry.cpu.edi = entry.cpu.esp - 4 := by
  have hcopied := blockCopied_atFastCall pFn entry hdf
  obtain ⟨d, hd⟩ : ∃ d, d = (f (exec .callEax (atFastCall pFn entry))).cpu := ⟨_, rfl⟩
  have hebp : d.ebp = entry.cpu.esp - 4 := by
    rw [hd, hf.ebp]
    exact hcopied.ebp
  -- the function leaves the frame alone
  have hmem : ∀ x, Below (entry.cpu.esp + 4) 8 x → d.mem x = framed entry x := by
    intro x hx
    rw [hd, hf.memory]
    · exact hcopied.frame hroom _ hx
    · apply below_mono _ hx
      show 8 ≤ (entry.cpu.esp + 4 - ((atFastCall pFn entry).cpu.esp - 4 +
        BitVec.ofNat 32 (4 + (count entry).toNat))).toNat
      rw [hcopied.esp, argumentArea]
      bv_omega
  have hload : ∀ a, (∀ x, InWord a x → Below (entry.cpu.esp + 4) 8 x) →
      load32 d.mem a = load32 (framed entry) a := by
    intro a ha
    apply load32_congr
    intro x hx
    exact hmem x (ha x hx)
  have hframe : load32 d.mem (entry.cpu.esp - 4) = entry.cpu.ebp := by
    rw [hload]
    · exact load32_store32 _ _ _
    · intro x hx
      unfold InWord at hx
      unfold Below
      bv_omega
  have hret : load32 d.mem entry.cpu.esp = load32 entry.cpu.mem entry.cpu.esp := by
    rw [hload]
    · apply load32_store32_ne
      intro x hx
      unfold InWord at *
      bv_omega
    · intro x hx
      unfold InWord at hx
      unfold Below
      bv_omega
  have hesp : d.ebp + 4 = entry.cpu.esp := by rw [hebp, BitVec.sub_add_cancel]
  have hafter : afterFastCall pFn entry f =
      ⟨{ d with ebp := load32 d.mem d.ebp, esp := d.ebp + 4 + 4 }, load32 d.mem (d.ebp + 4)⟩ := by
    rw [hd]
    rfl
  have hesi : d.esi = argsBegin entry + count entry := by
    rw [hd, hf.esi]
    exact hcopied.esi
  have hedi : d.edi = entry.cpu.esp - 4 := by
    rw [hd, hf.edi]
    exact hcopied.edi
  rw [hafter, hesp, hebp, hframe, hret]
  constructor
  · intro hkept
    exact ⟨hkept.esi.symm.trans hesi, hkept.edi.symm.trans hedi⟩
  · rintro ⟨hsi, hdi⟩
    refine ⟨rfl, rfl, rfl, ?_, ?_, ?_⟩
    · show d.ebx = _
      rw [hd, hf.ebx]
      exact hcopied.ebx
    · exact hesi.trans hsi.symm
    · exact hedi.trans hdi.symm

end Run

/-- The code keeps the conventions exactly where `esi` and `edi` happen to be what the copy leaves in
them, and the block is not changed by the frame pointer and by its own copy. -/
theorem fastCall_conventional_iff {pFn : Word} {code : Word → Option Instr} {entry : Machine}
    (hcode : CodeAt code entry.eip (fastCall pFn)) (hroom : (count entry).toNat + 12 ≤ 4294967296)
    (hdf : entry.cpu.df = false) {f : Machine → Machine}
    (hf : Compiled f (count entry).toNat 0 (entry.cpu.esp + 4)) :
    ∃ m final, Run.steps code (fastCall pFn).length ⟨entry, [f], []⟩ = some ⟨final, [], [m]⟩ ∧
      (CallsWithBlock pFn entry m ∧ Kept entry final ↔
        (entry.cpu.esi = argsBegin entry + count entry ∧ entry.cpu.edi = entry.cpu.esp - 4) ∧
          ∀ i < (count entry).toNat,
            copiedByte (framed entry) (argsBegin entry) (argumentArea entry) i =
              entry.cpu.mem (argsBegin entry + BitVec.ofNat 32 i)) := by
  refine ⟨_, _, steps_fastCall hcode hf.eip, ?_⟩
  rw [callsWithBlock_iff hroom hdf, kept_iff hroom hdf hf]
  exact And.comm

/-! ## A call with a block of three bytes -/

/-- The block `%d\0` at `0x9000`, and its address and size on the stack. -/
def blockMem : Mem :=
  pushAll (store32 (fun _ => 0) 0x9000 0x6425) 0x800c [3, 0x9000, 0x401234]

/-- `esi` and `edi` are what the caller has in them. -/
def blockEntry (esi edi : Word) : Machine where
  cpu :=
    { eax := 0
      ecx := 0
      edx := 0
      ebx := 1
      esp := 0x8000
      ebp := 2
      esi := esi
      edi := edi
      eflags := 0x202
      mem := blockMem }
  eip := 0x900000

theorem blockEntry_apart (esi edi : Word) : ∀ i < (count (blockEntry esi edi)).toNat,
    ¬Below (blockEntry esi edi).cpu.esp ((count (blockEntry esi edi)).toNat + 4)
      (argsBegin (blockEntry esi edi) + BitVec.ofNat 32 i) := by
  show ∀ i < (load32 blockMem 0x8008).toNat,
    ¬Below 0x8000 ((load32 blockMem 0x8008).toNat + 4) (load32 blockMem 0x8004 + BitVec.ofNat 32 i)
  decide

theorem codeAt_blockEntry (esi edi : Word) :
    CodeAt (place 0x900000 (fastCall 0x7c8e17)) (blockEntry esi edi).eip (fastCall 0x7c8e17) :=
  codeAt_place (by decide) (by decide)

theorem blockEntry_conventional :
    ∃ m final, Run.steps (place 0x900000 (fastCall 0x7c8e17)) (fastCall 0x7c8e17).length
        ⟨blockEntry 0x9003 0x7ffc, [returnsValue 2 0], []⟩ = some ⟨final, [], [m]⟩ ∧
      CallsWithBlock 0x7c8e17 (blockEntry 0x9003 0x7ffc) m ∧
      Kept (blockEntry 0x9003 0x7ffc) final := by
  have hcopy := copiedByte_of_apart (by decide) (blockEntry_apart 0x9003 0x7ffc)
  obtain ⟨m, final, hsteps, hiff⟩ := fastCall_conventional_iff (codeAt_blockEntry 0x9003 0x7ffc)
    (by decide) (by decide) (compiled_returnsValue 2 3 0 _)
  exact ⟨m, final, hsteps, hiff.mpr ⟨⟨rfl, rfl⟩, hcopy⟩⟩

/-- The registers of the caller are lost. -/
theorem blockEntry_not_kept :
    ∃ m final, Run.steps (place 0x900000 (fastCall 0x7c8e17)) (fastCall 0x7c8e17).length
        ⟨blockEntry 3 4, [returnsValue 2 0], []⟩ = some ⟨final, [], [m]⟩ ∧
      CallsWithBlock 0x7c8e17 (blockEntry 3 4) m ∧ ¬Kept (blockEntry 3 4) final ∧
      final.cpu.esi = 0x9003 ∧ final.cpu.edi = 0x7ffc := by
  have hcopy := copiedByte_of_apart (by decide) (blockEntry_apart 3 4)
  refine ⟨_, _, steps_fastCall (codeAt_blockEntry 3 4) (fun _ => rfl), ?_, ?_, ?_⟩
  · exact (callsWithBlock_iff (by decide) (by decide)).mpr hcopy
  · rw [kept_iff (by decide) (by decide) (compiled_returnsValue 2 3 0 _)]
    decide
  · decide

end Ra2yrcpp.Abi
