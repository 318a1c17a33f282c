import Ra2yrcpp.Abi.FastCall
import Ra2yrcpp.Abi.Thunks
import Ra2yrcpp.Reasoning.Memo

/-!
# The generated functions that are kept

`ABIGameMD` and `Caller` of `abi.hpp`: the code that calls a game function is generated at the first
call, and kept under the address of the function for the calls after it.
-/

namespace Ra2yrcpp.Abi

open Reasoning.X86

/-! ## The generators -/

/-- A generator, with the arguments of its constructor. -/
inductive CodeGenerator
  | virtualCall (vtableIndex : Word) (stackSize : Nat)
  | thisCall (pFn : Word) (stackSize : Nat)
  | fastCall (pFn : Word)
  deriving DecidableEq, Repr

def CodeGenerator.code : CodeGenerator → List Instr
  | virtualCall vtableIndex stackSize => Abi.virtualCall vtableIndex stackSize
  | thisCall pFn stackSize => Abi.thisCall pFn stackSize
  | fastCall pFn => Abi.fastCall pFn

/-- `make_unique`, where the constructor does not throw. -/
def CodeGenerator.make (maxCodeSize : Nat) (c : CodeGenerator) : Option CodeGenerator :=
  (generate maxCodeSize c.code).map fun _ => c

structure ABIGameMD where
  codeGenerators : Word → Option CodeGenerator

namespace ABIGameMD

def empty : ABIGameMD := ⟨fun _ => none⟩

def findCodegen (a : ABIGameMD) (address : Word) : Option CodeGenerator :=
  a.codeGenerators address

def addEntry (maxCodeSize : Nat) (a : ABIGameMD) (address : Word) (c : CodeGenerator) :
    Option (CodeGenerator × ABIGameMD) :=
  (c.make maxCodeSize).map fun c => (c, ⟨Function.update a.codeGenerators address (some c)⟩)

end ABIGameMD

/-! ## The callers -/

/-- The class of the generator. -/
inductive GenT
  | thisCall
  | virtualCall
  | fastCall
  deriving DecidableEq, Repr

/-- A function of the game: its address, or its index in a vtable, and the number of its arguments,
the first of which is the object. -/
structure Caller where
  address : Word
  numArgs : Nat
  gen : GenT
  isImport : Bool
  pos : 0 < numArgs
  /-- The arguments and the return address are in the address space. -/
  fits : 4 * (numArgs + 1) < 4294967296

namespace Caller

variable (c : Caller)

def stackSize : Nat := (c.numArgs - 1) * 4

def addr (m : Mem) : Word := if c.isImport then load32 m c.address else c.address

def vaddr (m : Mem) (object : Word) : Word := load32 m (load32 m object + 4 * c.addr m)

def getFunction (maxCodeSize : Nat) (a : ABIGameMD) (m : Mem) : Option (CodeGenerator × ABIGameMD) :=
  match a.findCodegen (c.addr m) with
  | some g => some (g, a)
  | none =>
    a.addEntry maxCodeSize (c.addr m) <|
      match c.gen with
      | .thisCall => .thisCall (c.addr m) c.stackSize
      | .virtualCall => .virtualCall (c.addr m) 0
      | .fastCall => .fastCall (c.addr m)

def callVirtual (maxCodeSize : Nat) (a : ABIGameMD) (m : Mem) (object : Word) :
    Option (CodeGenerator × ABIGameMD) :=
  match a.findCodegen (c.vaddr m object) with
  | some g => some (g, a)
  -- add_virtual gets no stack size
  | none => a.addEntry maxCodeSize (c.vaddr m object) (.virtualCall (c.addr m) 0)

/-- The code that a call runs, and the generators behind the call. -/
def call (maxCodeSize : Nat) (a : ABIGameMD) (m : Mem) (object : Word) :
    Option (CodeGenerator × ABIGameMD) :=
  if c.gen = .virtualCall then c.callVirtual maxCodeSize a m object
  else c.getFunction maxCodeSize a m

end Caller

/-! ## The calls -/

/-- A call, with the memory that it finds and the object. -/
structure Invocation where
  caller : Caller
  mem : Mem
  object : Word

namespace Invocation

variable (maxCodeSize : Nat) (i : Invocation)

/-- The address of the function. -/
def function : Word :=
  if i.caller.gen = .virtualCall then i.caller.vaddr i.mem i.object else i.caller.addr i.mem

/-- The generator for the function. -/
def generator : CodeGenerator :=
  match i.caller.gen with
  | .thisCall => .thisCall (i.caller.addr i.mem) i.caller.stackSize
  | .virtualCall => .virtualCall (i.caller.addr i.mem) 0
  | .fastCall => .fastCall (i.caller.addr i.mem)

def made : Option CodeGenerator := i.generator.make maxCodeSize

/-- The first call, `i` or one of the history, of the function of `i`; calls that throw are none. -/
def first (history : List Invocation) : Option Invocation :=
  (history ++ [i]).find? (Reasoning.Memo.Gives function (made maxCodeSize) i.function)

end Invocation

namespace ABIGameMD

variable (maxCodeSize : Nat) (a : ABIGameMD)

/-- The generators behind a call; one that throws leaves them as they are. -/
def step (i : Invocation) : ABIGameMD :=
  match i.caller.call maxCodeSize a i.mem i.object with
  | some (_, a') => a'
  | none => a

def after (history : List Invocation) : ABIGameMD := history.foldl (step maxCodeSize) a

/-- Each kind of call looks for the function, and adds its own generator where there is none. -/
theorem call_eq (i : Invocation) :
    i.caller.call maxCodeSize a i.mem i.object =
      match a.codeGenerators i.function with
      | some g => some (g, a)
      | none => a.addEntry maxCodeSize i.function i.generator := by
  obtain ⟨⟨address, numArgs, gen, isImport, pos, fits⟩, mem, object⟩ := i
  cases gen with
  | thisCall => rfl
  | virtualCall => rfl
  | fastCall => rfl

theorem codeGenerators_step (i : Invocation) :
    (a.step maxCodeSize i).codeGenerators =
      Reasoning.Memo.visit Invocation.function (Invocation.made maxCodeSize) a.codeGenerators i := by
  unfold step Reasoning.Memo.visit
  rw [call_eq]
  cases hfound : a.codeGenerators i.function with
  | some g => rfl
  | none =>
    unfold addEntry Invocation.made
    cases i.generator.make maxCodeSize with
    | some g => rfl
    | none =>
      exact (Function.update_eq_self_iff.mpr hfound.symm).symm

/-- A call runs the generator that it finds under its function, or has put there. -/
theorem call_step (i : Invocation) :
    i.caller.call maxCodeSize a i.mem i.object =
      ((a.step maxCodeSize i).codeGenerators i.function).map
        fun g => (g, a.step maxCodeSize i) := by
  unfold step
  rw [call_eq]
  cases hfound : a.codeGenerators i.function with
  | some g =>
    show _ = (a.codeGenerators i.function).map _
    rw [hfound]
    rfl
  | none =>
    unfold addEntry
    cases i.generator.make maxCodeSize with
    | some g =>
      show _ = ((Function.update a.codeGenerators i.function (some g)) i.function).map _
      rw [Function.update_self]
      rfl
    | none =>
      show _ = (a.codeGenerators i.function).map _
      rw [hfound]
      rfl

theorem codeGenerators_after (history : List Invocation) :
    (a.after maxCodeSize history).codeGenerators =
      history.foldl (Reasoning.Memo.visit Invocation.function (Invocation.made maxCodeSize))
        a.codeGenerators := by
  induction history generalizing a with
  | nil => rfl
  | cons i history ih =>
    show ((a.step maxCodeSize i).after maxCodeSize history).codeGenerators = _
    rw [ih, codeGenerators_step]
    rfl

/-- What a call runs after a history. -/
theorem call_after (history : List Invocation) (i : Invocation) :
    i.caller.call maxCodeSize (empty.after maxCodeSize history) i.mem i.object =
      ((i.first maxCodeSize history).bind (Invocation.made maxCodeSize)).map
        fun g => (g, (empty.after maxCodeSize history).step maxCodeSize i) := by
  have hafter : (empty.after maxCodeSize history).step maxCodeSize i =
      empty.after maxCodeSize (history ++ [i]) := by
    unfold after
    rw [List.foldl_append]
    rfl
  rw [call_step, hafter, codeGenerators_after, Reasoning.Memo.foldl_visit]
  rfl

end ABIGameMD

/-- A virtual call is itself a call of its function. -/
theorem Invocation.exists_first {maxCodeSize : Nat} (hmin : 18 ≤ maxCodeSize)
    (history : List Invocation) {i : Invocation} (hvirtual : i.caller.gen = .virtualCall) :
    ∃ j g, i.first maxCodeSize history = some j ∧ j.function = i.function ∧
      j.made maxCodeSize = some g := by
  have hsize : codeSize (Abi.virtualCall (i.caller.addr i.mem) 0) ≤ 18 := by
    have hload : ∀ d : Word, (Instr.movEaxEax d).size ≤ 6 := by
      intro d
      show (if d = 0 then 2 else if IsInDisp8 d then 3 else 6) ≤ 6
      split
      · decide
      · split <;> decide
    have hindex := hload (i.caller.addr i.mem * 4)
    show 4 + (3 + (2 + ((Instr.movEaxEax (i.caller.addr i.mem * 4)).size + (2 + (1 + 0))))) ≤ 18
    omega
  have hmade : i.made maxCodeSize = some i.generator := by
    unfold made generator
    rw [hvirtual]
    show (generate maxCodeSize (Abi.virtualCall (i.caller.addr i.mem) 0)).map _ = _
    rw [generate, if_pos (Nat.le_trans hsize hmin)]
    rfl
  have hgives : Reasoning.Memo.Gives function (made maxCodeSize) i.function i = true := by
    unfold Reasoning.Memo.Gives
    rw [hmade]
    simp
  obtain ⟨j, hj⟩ := Option.isSome_iff_exists.mp
    (List.find?_isSome.mpr ⟨i, List.mem_append_right history List.mem_cons_self, hgives⟩)
  have hfound := List.find?_some hj
  unfold Reasoning.Memo.Gives at hfound
  obtain ⟨hfunction, hsome⟩ := Bool.and_eq_true_iff.mp hfound
  obtain ⟨g, hg⟩ := Option.isSome_iff_exists.mp hsome
  exact ⟨j, g, hj, of_decide_eq_true hfunction, hg⟩

/-! ## What a call has to do -/

/-- At the call: the function `p`, with the first argument in `ecx` and the `k` others on the
stack. -/
structure Reaches (p : Word) (k : Nat) (entry m : Machine) : Prop where
  target : m.cpu.eax = p
  this : (exec .callEax m).cpu.ecx = entry.argument 0
  args : ∀ i < k, (exec .callEax m).argument i = entry.argument (i + 1)

/-- The code of `first` does what `i`, a virtual call of the same function, has to do. -/
def Invocation.Serves (first i : Invocation) : Prop :=
  match first.caller.gen with
  | .thisCall => first.caller.numArgs = i.caller.numArgs
  | .virtualCall =>
    i.caller.numArgs = 1 ∧
      load32 i.mem (load32 i.mem i.object + 4 * first.caller.addr first.mem) = i.function
  | .fastCall => False

section Run

variable {p : Word} {entry : Machine} {f : Machine → Machine} {k : Nat}

/-- A thunk that copies `n` arguments for a function that has `k`. -/
theorem thunk_reaches_iff (t : Target) {n : Nat} (hn : 8 * n + 12 ≤ 4294967296)
    (hk : 4 * (k + 2) < 4294967296)
    (hf : Compiled f (4 * k) (4 * k) (entry.cpu.esp + BitVec.ofNat 32 (4 * (k + 2)))) :
    Reaches p k entry (atCall t n entry) ∧ Returned k entry (afterRet t n entry f) ↔
      n = k ∧ t.address (atCall t n entry).cpu.mem (entry.argument 0) = p := by
  have hpasses := passes_atCall t (k := n) entry (by omega)
  constructor
  · rintro ⟨hreaches, hreturned⟩
    constructor
    · have hesp := esp_afterRet t (k := n) entry hf (by omega)
      rw [hreturned.esp] at hesp
      bv_omega
    · rw [← hpasses.target]
      exact hreaches.target
  · rintro ⟨rfl, htarget⟩
    refine ⟨⟨?_, hpasses.this, hpasses.args⟩, returned_afterRet t entry hf hn⟩
    rw [hpasses.target]
    exact htarget

/-- The copy of the argument block counts `ecx` down, so that the object is not in it. -/
theorem not_reaches_fastCall {pFn : Word} (hobject : entry.argument 0 ≠ 0) :
    ¬Reaches p k entry (atFastCall pFn entry) := by
  intro hreaches
  have hecx : (exec .callEax (atFastCall pFn entry)).cpu.ecx = 0 := ecx_repMovsb (beforeCopy entry)
  exact hobject (hreaches.this.symm.trans hecx)

variable {maxCodeSize : Nat} {code : Word → Option Instr}

-- the cases are the classes of the generators
theorem serves_iff (hmax : maxCodeSize ≤ 1073741824) {first i : Invocation}
    (hmem : i.mem = entry.cpu.mem) (hobject : i.object = entry.argument 0) (hne : i.object ≠ 0)
    (hfunction : first.function = i.function) {g : CodeGenerator}
    (hmade : first.made maxCodeSize = some g) (hcode : CodeAt code entry.eip g.code)
    (hf : Compiled f i.caller.stackSize i.caller.stackSize
      (entry.cpu.esp + BitVec.ofNat 32 (4 * (i.caller.numArgs + 1)))) :
    ∃ m final, Run.steps code g.code.length ⟨entry, [f], []⟩ = some ⟨final, [], [m]⟩ ∧
      (Reaches i.function (i.caller.numArgs - 1) entry m ∧
          Returned (i.caller.numArgs - 1) entry final ↔
        first.Serves i) := by
  obtain ⟨is, hgenerate, hg⟩ := Option.map_eq_some_iff.mp hmade
  obtain ⟨hfits, -⟩ := Option.ite_none_right_eq_some.mp hgenerate
  subst hg
  have hpos := i.caller.pos
  have hroom := i.caller.fits
  have hwords : i.caller.stackSize = 4 * (i.caller.numArgs - 1) := Nat.mul_comm _ _
  have htop : i.caller.numArgs + 1 = i.caller.numArgs - 1 + 2 := by omega
  rw [hwords, htop] at hf
  cases hgen : first.caller.gen with
  | thisCall =>
    have hfirst : first.generator = .thisCall first.function (4 * (first.caller.numArgs - 1)) := by
      unfold Invocation.generator Invocation.function Caller.stackSize
      simp only [hgen, reduceCtorEq, if_false, Nat.mul_comm]
    rw [hfirst] at hfits hcode ⊢
    have hsize := stackSize_le_codeSize (.direct first.function) (first.caller.numArgs - 1)
    have hfits' : codeSize ((Target.direct first.function).thunk (4 * (first.caller.numArgs - 1))) ≤
        maxCodeSize := hfits
    refine ⟨_, _, steps_thunk (.direct first.function) entry hcode hf.eip, ?_⟩
    have hposFirst := first.caller.pos
    rw [thunk_reaches_iff _ (by omega) (by omega) hf]
    unfold Invocation.Serves
    rw [hgen]
    constructor
    · rintro ⟨hargs, -⟩
      show first.caller.numArgs = i.caller.numArgs
      omega
    · intro hargs
      exact ⟨congrArg (· - 1) hargs, hfunction⟩
  | virtualCall =>
    have hfirst : first.generator = .virtualCall (first.caller.addr first.mem) (4 * 0) := by
      unfold Invocation.generator
      rw [hgen]
    rw [hfirst] at hcode ⊢
    refine ⟨_, _, steps_thunk (.virtual (first.caller.addr first.mem)) entry hcode hf.eip, ?_⟩
    -- without arguments to copy, the vtable is read as it was
    have hsame : (atCall (.virtual (first.caller.addr first.mem)) 0 entry).cpu.mem = i.mem := by
      funext x
      rw [hmem]
      apply (passes_atCall _ (k := 0) entry (by omega)).memory
      unfold Below
      omega
    rw [thunk_reaches_iff _ (by omega) (by omega) hf, hsame, ← hobject]
    unfold Invocation.Serves Target.address
    rw [hgen, BitVec.mul_comm]
    show _ ↔ i.caller.numArgs = 1 ∧ _
    constructor
    · rintro ⟨hargs, htarget⟩
      exact ⟨by omega, htarget⟩
    · rintro ⟨hargs, htarget⟩
      exact ⟨by omega, htarget⟩
  | fastCall =>
    have hfirst : first.generator = .fastCall (first.caller.addr first.mem) := by
      unfold Invocation.generator
      rw [hgen]
    rw [hfirst] at hcode ⊢
    refine ⟨_, _, steps_fastCall hcode hf.eip, ?_⟩
    unfold Invocation.Serves
    rw [hgen]
    exact iff_of_false (fun h => not_reaches_fastCall (hobject ▸ hne) h.1) id

end Run

/-- A virtual call reaches its function with all arguments, and returns, exactly where the first call
of this function has left a generator that serves it. -/
theorem call_reaches_iff {maxCodeSize : Nat} (hmin : 18 ≤ maxCodeSize)
    (hmax : maxCodeSize ≤ 1073741824) (history : List Invocation) {c : Caller}
    (hvirtual : c.gen = .virtualCall) {entry : Machine} (hobject : entry.argument 0 ≠ 0) :
    ∃ g a, c.call maxCodeSize (ABIGameMD.empty.after maxCodeSize history) entry.cpu.mem
        (entry.argument 0) = some (g, a) ∧
      ∀ {code : Word → Option Instr} {f : Machine → Machine}, CodeAt code entry.eip g.code →
        Compiled f c.stackSize c.stackSize
          (entry.cpu.esp + BitVec.ofNat 32 (4 * (c.numArgs + 1))) →
        ∃ m final, Run.steps code g.code.length ⟨entry, [f], []⟩ = some ⟨final, [], [m]⟩ ∧
          (Reaches (c.vaddr entry.cpu.mem (entry.argument 0)) (c.numArgs - 1) entry m ∧
              Returned (c.numArgs - 1) entry final ↔
            ∃ first, Invocation.first maxCodeSize ⟨c, entry.cpu.mem, entry.argument 0⟩ history =
                some first ∧
              first.Serves ⟨c, entry.cpu.mem, entry.argument 0⟩) := by
  obtain ⟨i, hi⟩ : ∃ i : Invocation, i = ⟨c, entry.cpu.mem, entry.argument 0⟩ := ⟨_, rfl⟩
  have hvirtual' : i.caller.gen = .virtualCall := by rw [hi]; exact hvirtual
  have hfunction : i.function = c.vaddr entry.cpu.mem (entry.argument 0) := by
    rw [hi]
    exact if_pos hvirtual
  obtain ⟨first, g, hfirst, hsame, hmade⟩ := Invocation.exists_first hmin history hvirtual'
  have hcall := ABIGameMD.call_after maxCodeSize history i
  rw [hfirst, Option.bind_some, hmade, Option.map_some] at hcall
  subst hi
  refine ⟨g, _, hcall, ?_⟩
  intro code f hcode hf
  obtain ⟨m, final, hsteps, hiff⟩ := serves_iff hmax rfl rfl hobject hsame hmade hcode hf
  refine ⟨m, final, hsteps, ?_⟩
  rw [← hfunction, hiff, hfirst]
  constructor
  · intro hserves
    exact ⟨first, rfl, hserves⟩
  · rintro ⟨first', hsome, hserves⟩
    rw [Option.some.inj hsome]
    exact hserves

/-! ## Two virtual functions -/

def abstractClassWhatAmI : Caller where
  address := 11
  numArgs := 1
  gen := .virtualCall
  isImport := false
  pos := by decide
  fits := by decide

def abstractClassGetDestination : Caller where
  address := 19
  numArgs := 3
  gen := .virtualCall
  isImport := false
  pos := by decide
  fits := by decide

/-- The object at `0x5000` has its vtable at `0x6000`; two arguments are on the stack behind it. -/
def objectEntry : Machine where
  cpu :=
    { eax := 0
      ecx := 0
      edx := 0
      ebx := 1
      esp := 0x8000
      ebp := 2
      esi := 3
      edi := 4
      eflags := 0x202
      mem := pushAll (store32 (store32 (store32 (fun _ => 0) 0x5000 0x6000) 0x602c 0x700100) 0x604c
        0x700200) 0x8010 [22, 11, 0x5000, 0x401234] }
  eip := 0x900000

/-- A second call, of another object with the same vtable. -/
theorem whatAmI_reaches :
    ∃ g a, abstractClassWhatAmI.call 4096
        (ABIGameMD.empty.after 4096 [⟨abstractClassWhatAmI, objectEntry.cpu.mem, 0x5000⟩])
        objectEntry.cpu.mem (objectEntry.argument 0) = some (g, a) ∧
      ∃ m final, Run.steps (place 0x900000 g.code) g.code.length
          ⟨objectEntry, [returnsValue 7 0], []⟩ = some ⟨final, [], [m]⟩ ∧
        Reaches 0x700100 0 objectEntry m ∧ Returned 0 objectEntry final := by
  have hfunction : abstractClassWhatAmI.vaddr objectEntry.cpu.mem (objectEntry.argument 0) =
      0x700100 := by decide
  have hfound : (abstractClassWhatAmI.call 4096
      (ABIGameMD.empty.after 4096 [⟨abstractClassWhatAmI, objectEntry.cpu.mem, 0x5000⟩])
      objectEntry.cpu.mem (objectEntry.argument 0)).map Prod.fst =
        some (.virtualCall 11 0) := by decide
  have hobject : objectEntry.argument 0 ≠ 0 := by decide
  obtain ⟨g, a, hcall, hrun⟩ := call_reaches_iff (by decide : 18 ≤ 4096) (by decide)
    [⟨abstractClassWhatAmI, objectEntry.cpu.mem, 0x5000⟩] (c := abstractClassWhatAmI) rfl hobject
  have hg : g = .virtualCall 11 0 := by
    rw [hcall] at hfound
    exact Option.some.inj hfound
  have hcode : CodeAt (place 0x900000 g.code) objectEntry.eip g.code := by
    rw [hg]
    exact codeAt_place (by decide) (by decide)
  obtain ⟨m, final, hsteps, hiff⟩ := hrun hcode (compiled_returnsValue 7 _ 0 _)
  rw [hfunction] at hiff
  refine ⟨g, a, hcall, m, final, hsteps, hiff.mpr ?_⟩
  exact ⟨⟨abstractClassWhatAmI, objectEntry.cpu.mem, 0x5000⟩, rfl, rfl, by decide⟩

/-- The arguments are not passed, and the first of them is taken for the return address. -/
theorem getDestination_not_reached :
    (abstractClassGetDestination.call 4096 .empty objectEntry.cpu.mem 0x5000).map Prod.fst =
        some (.virtualCall 19 0) ∧
      abstractClassGetDestination.vaddr objectEntry.cpu.mem 0x5000 = 0x700200 ∧
      ∃ m final, Run.steps (place 0x900000 (virtualCall 19 0)) (virtualCall 19 0).length
          ⟨objectEntry, [returnsValue 7 8], []⟩ = some ⟨final, [], [m]⟩ ∧
        ¬Reaches 0x700200 2 objectEntry m ∧ ¬Returned 2 objectEntry final ∧ final.eip = 11 := by
  have hcode : CodeAt (place 0x900000 (virtualCall 19 0)) objectEntry.eip (virtualCall 19 0) :=
    codeAt_place (by decide) (by decide)
  refine ⟨by decide, by decide, _, _, steps_thunk (.virtual 19) (k := 0) objectEntry hcode
    (fun _ => rfl), ?_, ?_, ?_⟩
  · intro hreaches
    exact absurd (hreaches.args 0 (by decide)) (by decide)
  · intro hreturned
    exact absurd hreturned.esp (by decide)
  · decide

end Ra2yrcpp.Abi
