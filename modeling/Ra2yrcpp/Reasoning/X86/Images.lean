import Mathlib.Logic.Relation
import Ra2yrcpp.Reasoning.X86

/-!
# Programs as bytes

Code in the form in which a loader puts it into memory, and an instruction set that says what the
bytes do.  Only the two instructions that a jump is made of are fixed.
-/

namespace Ra2yrcpp.Reasoning.X86

open Relation

/-! ## Bytes of a program -/

/-- The code that is loaded at each address, if any. -/
abbrev Image := Word → Option (BitVec 8)

def LoadedAt (image : Image) (a : Word) (bs : List (BitVec 8)) : Prop :=
  ∀ k (hk : k < bs.length), image (a + BitVec.ofNat 32 k) = some bs[k]

section LoadedAt

variable {image image' : Image} {a : Word} {bs cs : List (BitVec 8)}

theorem loadedAt_append :
    LoadedAt image a (bs ++ cs) ↔
      LoadedAt image a bs ∧ LoadedAt image (a + BitVec.ofNat 32 bs.length) cs := by
  have haddr : ∀ k, a + BitVec.ofNat 32 bs.length + BitVec.ofNat 32 k =
      a + BitVec.ofNat 32 (bs.length + k) := by
    intro k
    rw [BitVec.ofNat_add, BitVec.add_assoc]
  constructor
  · intro h
    constructor
    · intro k hk
      have hbyte := h k (by rw [List.length_append]; omega)
      rwa [List.getElem_append_left hk] at hbyte
    · intro k hk
      have hbyte := h (bs.length + k) (by rw [List.length_append]; omega)
      rw [List.getElem_append_right (Nat.le_add_right _ _)] at hbyte
      rw [haddr, hbyte]
      simp only [Nat.add_sub_cancel_left]
  · rintro ⟨hbs, hcs⟩ k hk
    rw [List.length_append] at hk
    by_cases hlt : k < bs.length
    · rw [List.getElem_append_left hlt]
      exact hbs k hlt
    · have hbyte := hcs (k - bs.length) (by omega)
      rw [haddr, Nat.add_sub_cancel' (Nat.le_of_not_lt hlt)] at hbyte
      rw [List.getElem_append_right (Nat.le_of_not_lt hlt)]
      exact hbyte

/-- An image that has the bytes of another one. -/
theorem LoadedAt.mono (h : ∀ x b, image x = some b → image' x = some b)
    (hbs : LoadedAt image a bs) : LoadedAt image' a bs :=
  fun k hk => h _ _ (hbs k hk)

/-- The shorter of two byte strings at one address is a part of the other. -/
theorem LoadedAt.isPart (hbs : LoadedAt image a bs) (hcs : LoadedAt image a cs)
    (hle : bs.length ≤ cs.length) : bs <+: cs := by
  rw [List.prefix_iff_getElem]
  refine ⟨hle, fun k hk => ?_⟩
  exact Option.some.inj ((hbs k hk).symm.trans (hcs k (Nat.lt_of_lt_of_le hk hle)))

end LoadedAt

/-! ## Instruction sets -/

def wordBytes (v : Word) : List (BitVec 8) :=
  [v.extractLsb' 0 8, v.extractLsb' 8 8, v.extractLsb' 16 8, v.extractLsb' 24 8]

/-- The machine, and whatever else an instruction works on. -/
abbrev State (ω : Type) := Machine × ω

/-- What encodings of single instructions do. -/
structure Isa (ω : Type) where
  decode : List (BitVec 8) → Option (State ω → State ω)
  unambiguous : ∀ bs cs f g, decode bs = some f → decode (bs ++ cs) = some g → cs = []
  decode_push : ∀ v, decode (0x68 :: wordBytes v) = some fun s => (exec (.push v) s.1, s.2)
  decode_ret : decode [0xc3] = some fun s => (exec .ret s.1, s.2)

variable {ω : Type}

/-- One instruction of the image. -/
def Isa.Step (isa : Isa ω) (image : Image) (s t : State ω) : Prop :=
  ∃ bs f, LoadedAt image s.1.eip bs ∧ isa.decode bs = some f ∧ t = f s

/-- A state that is about to execute `a`. -/
def stateAt (x : Cpu × ω) (a : Word) : State ω := (⟨x.1, a⟩, x.2)

/-- The word below the stack pointer is overwritten. -/
def Cpu.scratch (c : Cpu) (v : Word) : Cpu := { c with mem := store32 c.mem (c.esp - 4) v }

/-- The bytes do `f` and go on behind their end, wherever they are loaded. -/
def Relocatable (isa : Isa ω) (bs : List (BitVec 8)) (f : Cpu × ω → Cpu × ω) : Prop :=
  ∀ image a, LoadedAt image a bs → ∀ x,
    ReflTransGen (isa.Step image) (stateAt x a) (stateAt (f x) (a + BitVec.ofNat 32 bs.length))

section Isa

variable {isa : Isa ω} {image image' : Image} {s t u : State ω} {a v : Word}
  {bs cs : List (BitVec 8)} {f g : Cpu × ω → Cpu × ω}

theorem Isa.Step.mono (h : ∀ x b, image x = some b → image' x = some b)
    (hstep : isa.Step image s t) : isa.Step image' s t := by
  obtain ⟨bs, f, hloaded, hdecode, rfl⟩ := hstep
  exact ⟨bs, f, hloaded.mono h, hdecode, rfl⟩

theorem Isa.Step.deterministic (ht : isa.Step image s t) (hu : isa.Step image s u) : t = u := by
  obtain ⟨bs, f, hbs, hf, rfl⟩ := ht
  obtain ⟨cs, g, hcs, hg, rfl⟩ := hu
  have heq : bs = cs := by
    rcases Nat.le_total bs.length cs.length with hle | hle
    · obtain ⟨ds, rfl⟩ := hbs.isPart hcs hle
      rw [isa.unambiguous _ _ _ _ hf hg, List.append_nil]
    · obtain ⟨ds, rfl⟩ := hcs.isPart hbs hle
      rw [isa.unambiguous _ _ _ _ hg hf, List.append_nil]
  subst heq
  rw [Option.some.inj (hf.symm.trans hg)]

/-- A jump by `push` and `ret` changes the word below the stack pointer and nothing else. -/
theorem steps_pushRet (isa : Isa ω) (h : LoadedAt image a (0x68 :: wordBytes v ++ [0xc3]))
    (x : Cpu × ω) :
    TransGen (isa.Step image) (stateAt x a) (stateAt (x.1.scratch v, x.2) v) := by
  obtain ⟨hpush, hret⟩ := loadedAt_append.mp h
  have hesp : x.1.esp - 4 + 4 = x.1.esp := by bv_omega
  have hfirst : isa.Step image (stateAt x a) (exec (.push v) (stateAt x a).1, x.2) :=
    ⟨_, _, hpush, isa.decode_push v, rfl⟩
  refine .head hfirst (.single ⟨_, _, hret, isa.decode_ret, ?_⟩)
  unfold stateAt exec Cpu.scratch Cpu.push
  simp only [load32_store32, hesp]

theorem relocatable_nil (isa : Isa ω) : Relocatable isa [] id := by
  intro image a _ x
  have haddr : a + BitVec.ofNat 32 ([] : List (BitVec 8)).length = a := BitVec.add_zero a
  rw [haddr]
  exact .refl

theorem Relocatable.append (hf : Relocatable isa bs f) (hg : Relocatable isa cs g) :
    Relocatable isa (bs ++ cs) (g ∘ f) := by
  intro image a hloaded x
  obtain ⟨hbs, hcs⟩ := loadedAt_append.mp hloaded
  rw [List.length_append, BitVec.ofNat_add, ← BitVec.add_assoc]
  exact (hf image a hbs x).trans (hg image _ hcs (f x))

/-- One instruction that goes on to the next one. -/
theorem relocatable_decode
    (h : isa.decode bs = some fun s =>
      stateAt (f (s.1.cpu, s.2)) (s.1.eip + BitVec.ofNat 32 bs.length)) :
    Relocatable isa bs f :=
  fun _ _ hloaded _ => .single ⟨bs, _, hloaded, h, rfl⟩

end Isa

/-! ## Simulation -/

/-- A deterministic program that simulates one that does not get stuck does nothing else: whatever
it reaches is on the way to a state of the other one. -/
theorem reaches_of_simulates {σ : Type} {r q : σ → σ → Prop} (hr : ∀ s t u, r s t → r s u → t = u)
    (hsim : ∀ s t, q s t → TransGen r s t) {s u : σ}
    (hlive : ∀ t, ReflTransGen q s t → ∃ t', q t t') (h : ReflTransGen r s u) :
    ∃ t, ReflTransGen q s t ∧ ReflTransGen r u t := by
  induction h with
  | refl => exact ⟨s, .refl, .refl⟩
  | @tail u v _ hstep ih =>
    obtain ⟨t, hq, hut⟩ := ih
    rcases ReflTransGen.cases_head hut with rfl | ⟨w, huw, hwt⟩
    -- the last step of the other one is done
    · obtain ⟨t', hnext⟩ := hlive u hq
      obtain ⟨w, huw, hwt'⟩ := TransGen.head'_iff.mp (hsim u t' hnext)
      obtain rfl := hr u w v huw hstep
      exact ⟨t', hq.tail hnext, hwt'⟩
    · obtain rfl := hr u w v huw hstep
      exact ⟨t, hq, hwt⟩

end Ra2yrcpp.Reasoning.X86
