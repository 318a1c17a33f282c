import Mathlib.Data.List.Pairwise
import Ra2yrcpp.PatchGamemd.Detours
import Ra2yrcpp.Reasoning.X86.Images

/-!
# Running the patched executable

What a program does that `do_patching` has patched: at each patched place it does what it did there
before, and then what the code of the patch does.
-/

namespace Ra2yrcpp.PatchGamemd

open Reasoning Reasoning.X86 Relation

/-! ## Loading -/

/-- The address is in the section. -/
def Section.Has (s : Section) (v : Nat) : Prop := s.vaddr ≤ v ∧ v < s.vaddr + s.size

instance Section.decidableHas (s : Section) (v : Nat) : Decidable (s.Has v) :=
  inferInstanceAs (Decidable (_ ∧ _))

def sectionAt (sections : List Section) (v : Nat) : Option Section :=
  sections.find? fun s => decide (s.Has v)

/-- The sections of the binary at their addresses, and `others` elsewhere. -/
def load (sections : List Section) (others : Image) (binary : List Byte) : Image := fun a =>
  match sectionAt sections a.toNat with
  | some s => binary[s.offset a.toNat]?
  | none => others a

/-- The sections are in the address space, each patch has the file offset of its address, and the
detours do not leave their section. -/
structure Mapped (sections : List Section) (s : Section) (ps : List Patch) (addr : Nat) : Prop where
  wellPlaced : WellPlaced sections
  space : ∀ t ∈ sections, t.vaddr + t.size ≤ 4294967296
  targets : ∀ p ∈ ps, ∃ t ∈ sections, t.vaddr ≤ p.vaddr ∧ p.vaddr + p.len ≤ t.vaddr + t.size ∧
    p.paddr = t.offset p.vaddr
  mem : s ∈ sections
  start : s.vaddr ≤ addr
  stop : addr + detourOffset ps ps.length ≤ s.vaddr + s.size

/-- The address is in a patched place, or among the detours. -/
def Written (ps : List Patch) (addr v : Nat) : Prop :=
  (∃ p ∈ ps, p.vaddr ≤ v ∧ v < p.vaddr + p.len) ∨ addr ≤ v ∧ v < addr + detourOffset ps ps.length

instance decidableWritten (ps : List Patch) (addr v : Nat) : Decidable (Written ps addr v) :=
  inferInstanceAs (Decidable ((∃ p ∈ ps, _) ∨ _ ∧ _))

section Load

variable {sections : List Section} {others : Image} {binary patched : List Byte} {s t u : Section}
  {ps : List Patch} {p : Patch} {addr : Nat}

theorem eq_of_apart {f : Section → Nat}
    (h : sections.Pairwise fun s t => Apart (f s) s.size (f t) t.size) (ht : t ∈ sections)
    (hu : u ∈ sections) {x : Nat} (htx : f t ≤ x ∧ x < f t + t.size)
    (hux : f u ≤ x ∧ x < f u + u.size) : t = u := by
  have hsymm : Std.Symm fun s t : Section => Apart (f s) s.size (f t) t.size :=
    ⟨fun _ _ => Apart.symm⟩
  by_contra hne
  exact apart_iff.mp (h.forall ht hu hne) x htx.1 htx.2 hux.1 hux.2

theorem sectionAt_eq_some {v : Nat} (h : sectionAt sections v = some t) :
    t ∈ sections ∧ t.Has v := by
  unfold sectionAt at h
  have hhas := List.find?_some h
  exact ⟨List.mem_of_find?_eq_some h, of_decide_eq_true hhas⟩

theorem Section.has_of_offset {v : Nat} (h : t.Has v) :
    t.paddr ≤ t.offset v ∧ t.offset v < t.paddr + t.size := by
  unfold Section.Has at h
  unfold Section.offset
  omega

/-- Addresses of two sections have the same file offset only if they are the same. -/
theorem WellPlaced.eq_of_offset (h : WellPlaced sections) (ht : t ∈ sections) (hu : u ∈ sections)
    {v w : Nat} (htv : t.Has v) (huw : u.Has w) (hoffset : t.offset v = u.offset w) :
    t = u ∧ v = w := by
  have hux := Section.has_of_offset huw
  rw [← hoffset] at hux
  obtain rfl := eq_of_apart h.file ht hu (Section.has_of_offset htv) hux
  unfold Section.Has at htv huw
  unfold Section.offset at hoffset
  exact ⟨rfl, by omega⟩

theorem load_eq (h : WellPlaced sections) (ht : t ∈ sections) {a : Word} (ha : t.Has a.toNat) :
    load sections others binary a = binary[t.offset a.toNat]? := by
  unfold load
  cases hfind : sectionAt sections a.toNat with
  | none => exact absurd (decide_eq_true ha) (List.find?_eq_none.mp hfind t ht)
  | some u =>
    obtain ⟨hu, hua⟩ := sectionAt_eq_some hfind
    rw [eq_of_apart h.virtual hu ht hua ha]

/-- A part of the binary that is in one section. -/
theorem loadedAt_window (others : Image) (h : Mapped sections s ps addr) (ht : t ∈ sections)
    {v n : Nat} (hlo : t.vaddr ≤ v) (hhi : v + n ≤ t.vaddr + t.size)
    (hinside : t.offset v + n ≤ binary.length) :
    LoadedAt (load sections others binary) (BitVec.ofNat 32 v) (window binary (t.offset v) n) := by
  intro k hk
  have hspace := h.space t ht
  rw [length_window hinside] at hk
  have haddr : (BitVec.ofNat 32 v + BitVec.ofNat 32 k).toNat = v + k := by
    rw [← BitVec.ofNat_add, BitVec.toNat_ofNat]
    omega
  have hoffset : t.offset (v + k) = t.offset v + k := by
    unfold Section.offset
    omega
  have hhas : t.Has (BitVec.ofNat 32 v + BitVec.ofNat 32 k).toNat := by
    rw [haddr]
    exact ⟨by omega, by omega⟩
  rw [load_eq h.wellPlaced ht hhas, haddr, hoffset, ← List.getElem?_eq_getElem, getElem?_window,
    if_pos hk]

theorem load_of_not_written (h : Mapped sections s ps addr)
    (hdetoured : Detoured s ps addr binary patched) {a : Word} (ha : ¬Written ps addr a.toNat) :
    load sections others patched a = load sections others binary a := by
  unfold load
  cases hfind : sectionAt sections a.toNat with
  | none => rfl
  | some t =>
    obtain ⟨ht, hta⟩ := sectionAt_eq_some hfind
    refine hdetoured.rest _ (fun p hp htarget => ?_) (fun harea => ?_)
    -- another address cannot have a file offset that is written
    · obtain ⟨u, hu, hlo, hhi, hpaddr⟩ := h.targets p hp
      unfold Patch.Targets at htarget
      have hback : u.offset (p.vaddr + (t.offset a.toNat - p.paddr)) = t.offset a.toNat := by
        unfold Section.offset at *
        omega
      have hhas : u.Has (p.vaddr + (t.offset a.toNat - p.paddr)) := ⟨by omega, by omega⟩
      obtain ⟨-, hsame⟩ := h.wellPlaced.eq_of_offset ht hu hta hhas hback.symm
      exact ha (.inl ⟨p, hp, by omega, by omega⟩)
    · have hstart := h.start
      have hstop := h.stop
      have hback : s.offset (addr + (t.offset a.toNat - s.offset addr)) = t.offset a.toNat := by
        unfold Section.offset at *
        omega
      have hhas : s.Has (addr + (t.offset a.toNat - s.offset addr)) := ⟨by omega, by omega⟩
      obtain ⟨-, hsame⟩ := h.wellPlaced.eq_of_offset ht h.mem hta hhas hback.symm
      exact ha (.inr ⟨by omega, by omega⟩)

end Load

/-! ## The program with the patches -/

variable {ω : Type}

/-- What the bytes do that a patch replaces, and what its code does. -/
structure Hooks (ω : Type) where
  replaced : Nat → Cpu × ω → Cpu × ω
  body : Nat → Cpu × ω → Cpu × ω → Prop

/-- The program of the image, in which the place of a patch is executed as a whole.  Besides what
the replaced bytes and the code do, the two jumps overwrite the word below the stack pointer. -/
inductive Hooked (isa : Isa ω) (image : Image) (ps : List Patch) (addr : Nat) (hooks : Hooks ω) :
    State ω → State ω → Prop
  | other {s t : State ω}
      (h : isa.Step (fun a => if Written ps addr a.toNat then none else image a) s t) :
      Hooked isa image ps addr hooks s t
  | hook (i : Nat) (hi : i < ps.length) (x y : Cpu × ω)
      (h : hooks.body i
        (hooks.replaced i (x.1.scratch (BitVec.ofNat 32 (addr + detourOffset ps i)), x.2)) y) :
      Hooked isa image ps addr hooks (stateAt x (BitVec.ofNat 32 ps[i].vaddr))
        (stateAt (y.1.scratch (BitVec.ofNat 32 (ps[i].vaddr + ps[i].len)), y.2)
          (BitVec.ofNat 32 (ps[i].vaddr + ps[i].len)))

/-- The replaced bytes can be moved, and the code of a patch does what it is to do where it is
loaded. -/
structure Hooks.Fit (hooks : Hooks ω) (isa : Isa ω) (image : Image) (ps : List Patch) (addr : Nat)
    (binary : List Byte) : Prop where
  replaced : ∀ i (hi : i < ps.length),
    Relocatable isa (window binary ps[i].paddr ps[i].len) (hooks.replaced i)
  body : ∀ i (hi : i < ps.length) x y, hooks.body i x y →
    ReflTransGen (isa.Step image)
      (stateAt x (BitVec.ofNat 32 (addr + detourOffset ps i + ps[i].len)))
      (stateAt y (BitVec.ofNat 32 (addr + detourOffset ps i + ps[i].len + ps[i].codeBytes.length)))

section Hooked

variable {sections : List Section} {others : Image} {binary patched : List Byte} {s : Section}
  {ps : List Patch} {addr : Nat} {isa : Isa ω} {hooks : Hooks ω}

theorem pushretCode_eq (n : Nat) :
    pushretCode n = 0x68 :: wordBytes (BitVec.ofNat 32 n) ++ [0xc3] := by
  have hbyte : ∀ k m, n % 4294967296 / 2 ^ k % 256 = m % 256 →
      BitVec.ofNat 8 m = (BitVec.ofNat 32 n).extractLsb' k 8 := by
    intro k m hmod
    apply BitVec.eq_of_toNat_eq
    rw [BitVec.extractLsb'_toNat, BitVec.toNat_ofNat, BitVec.toNat_ofNat, Nat.shiftRight_eq_div_pow]
    exact hmod.symm
  unfold pushretCode dword wordBytes
  rw [hbyte 0 n (by omega), hbyte 8 (n / 256) (by omega), hbyte 16 (n / 65536) (by omega),
    hbyte 24 (n / 16777216) (by omega)]
  rfl

/-- The place of a patch has the jump to its detour. -/
theorem Mapped.loadedAt_jump (others : Image) (h : Mapped sections s ps addr)
    (hdetoured : Detoured s ps addr binary patched) {i : Nat} (hi : i < ps.length)
    (hinside : ps[i].paddr + ps[i].len ≤ binary.length) :
    LoadedAt (load sections others patched) (BitVec.ofNat 32 ps[i].vaddr)
      (pushretCode (addr + detourOffset ps i)) := by
  obtain ⟨t, ht, hlo, hhi, hpaddr⟩ := h.targets ps[i] (List.getElem_mem hi)
  rw [← hdetoured.length, hpaddr] at hinside
  have hloaded := loadedAt_window others h ht hlo hhi hinside
  rw [← hpaddr, hdetoured.targets i hi] at hloaded
  exact (loadedAt_append.mp hloaded).1

theorem detourOffset_succ_le {i : Nat} (hi : i < ps.length) :
    detourOffset ps i + ps[i].detourSize ≤ detourOffset ps ps.length := by
  induction ps generalizing i with
  | nil => exact absurd hi (Nat.not_lt_zero i)
  | cons p ps ih =>
    rw [List.length_cons, detourOffset_cons_succ]
    cases i with
    | zero =>
      rw [detourOffset_zero, Nat.zero_add]
      exact Nat.le_add_right _ _
    | succ i =>
      rw [detourOffset_cons_succ, Nat.add_assoc]
      exact Nat.add_le_add_left (ih (Nat.lt_of_succ_lt_succ hi)) _

/-- The detour has the replaced bytes, the code of the patch and the jump back. -/
theorem Mapped.loadedAt_detour (others : Image) (h : Mapped sections s ps addr)
    (hdetoured : Detoured s ps addr binary patched) {i : Nat} (hi : i < ps.length)
    (hinside : s.offset addr + detourOffset ps ps.length ≤ binary.length) :
    LoadedAt (load sections others patched) (BitVec.ofNat 32 (addr + detourOffset ps i))
      (ps[i].detour binary) := by
  have hle := detourOffset_succ_le hi
  have hstart := h.start
  have hstop := h.stop
  rw [← hdetoured.length] at hinside
  have hoffset : s.offset (addr + detourOffset ps i) = s.offset addr + detourOffset ps i := by
    unfold Section.offset
    omega
  have hlo : s.vaddr ≤ addr + detourOffset ps i := Nat.le_add_right_of_le hstart
  have hhi : addr + detourOffset ps i + ps[i].detourSize ≤ s.vaddr + s.size := by omega
  have hloaded := loadedAt_window others h h.mem hlo hhi
    (show _ ≤ patched.length by rw [hoffset]; omega)
  rw [hoffset, hdetoured.detours i hi] at hloaded
  exact hloaded

/-- Code that can be moved does what it does at its place in the detour. -/
theorem Hooks.fit_of_relocatable (hlayout : Layout sections s ps binary.length addr)
    (h : Mapped sections s ps addr) (hdetoured : Detoured s ps addr binary patched)
    (hreplaced : ∀ i (hi : i < ps.length),
      Relocatable isa (window binary ps[i].paddr ps[i].len) (hooks.replaced i))
    (hbody : ∀ i (hi : i < ps.length), ∃ g, Relocatable isa ps[i].codeBytes g ∧
      ∀ x y, hooks.body i x y → y = g x) :
    hooks.Fit isa (load sections others patched) ps addr binary := by
  refine ⟨hreplaced, fun i hi x y hxy => ?_⟩
  obtain ⟨g, hg, hgx⟩ := hbody i hi
  obtain rfl := hgx x y hxy
  have hdetour := h.loadedAt_detour others hdetoured hi hlayout.detoursInside
  rw [Patch.detour, loadedAt_append, loadedAt_append] at hdetour
  have hcode := hdetour.1.2
  have htarget := hlayout.targetsInside ps[i] (List.getElem_mem hi)
  rw [length_window htarget, ← BitVec.ofNat_add] at hcode
  rw [BitVec.ofNat_add (addr + detourOffset ps i + ps[i].len)]
  exact hg _ _ hcode x

/-- The place of a patch, from its jump to the jump back. -/
theorem steps_hook (hlayout : Layout sections s ps binary.length addr)
    (h : Mapped sections s ps addr) (hdetoured : Detoured s ps addr binary patched)
    (hooks : Hooks ω) (hfit : hooks.Fit isa (load sections others patched) ps addr binary)
    {i : Nat} (hi : i < ps.length) {x y : Cpu × ω}
    (hbody : hooks.body i
      (hooks.replaced i (x.1.scratch (BitVec.ofNat 32 (addr + detourOffset ps i)), x.2)) y) :
    TransGen (isa.Step (load sections others patched))
      (stateAt x (BitVec.ofNat 32 ps[i].vaddr))
      (stateAt (y.1.scratch (BitVec.ofNat 32 (ps[i].vaddr + ps[i].len)), y.2)
        (BitVec.ofNat 32 (ps[i].vaddr + ps[i].len))) := by
  have htarget := hlayout.targetsInside ps[i] (List.getElem_mem hi)
  have hjump := h.loadedAt_jump others hdetoured hi htarget
  have hdetour := h.loadedAt_detour others hdetoured hi hlayout.detoursInside
  rw [pushretCode_eq] at hjump
  rw [Patch.detour, pushretCode_eq, loadedAt_append, loadedAt_append] at hdetour
  obtain ⟨⟨hreplaced, -⟩, hback⟩ := hdetour
  have hlength : (window binary ps[i].paddr ps[i].len).length = ps[i].len := length_window htarget
  rw [List.length_append, hlength, ← BitVec.ofNat_add, ← Nat.add_assoc] at hback
  -- the jump, the replaced bytes, the code and the jump back
  have hmoved := hfit.replaced i hi _ _ hreplaced
    (x.1.scratch (BitVec.ofNat 32 (addr + detourOffset ps i)), x.2)
  rw [hlength, ← BitVec.ofNat_add] at hmoved
  have hcode := hfit.body i hi _ y hbody
  have hreturn := steps_pushRet isa hback y
  exact ((steps_pushRet isa hjump x).trans_left (hmoved.trans hcode)).trans hreturn

theorem hooked_simulates (hlayout : Layout sections s ps binary.length addr)
    (h : Mapped sections s ps addr) (hdetoured : Detoured s ps addr binary patched)
    (hfit : hooks.Fit isa (load sections others patched) ps addr binary) {x y : State ω}
    (hstep : Hooked isa (load sections others binary) ps addr hooks x y) :
    TransGen (isa.Step (load sections others patched)) x y := by
  cases hstep with
  | other hother =>
    refine .single (hother.mono fun a b ha => ?_)
    by_cases hwritten : Written ps addr a.toNat
    · rw [if_pos hwritten] at ha
      cases ha
    · rw [if_neg hwritten] at ha
      rw [load_of_not_written h hdetoured hwritten]
      exact ha
  | hook i hi x y hbody => exact steps_hook hlayout h hdetoured hooks hfit hi hbody

end Hooked

/-- The program of the executable with the patches of the handle. -/
def Handle.program (h : Handle) (isa : Isa ω) (others : Image) (hooks : Hooks ω) :
    State ω → State ω → Prop :=
  Hooked isa (load h.sections others h.binary) h.patches h.detourAddress hooks

/-- The patched executable runs as the program with the patches does: it reaches whatever that one
reaches, and as long as that one does not get stuck it does nothing else. -/
theorem patched_runs (isa : Isa ω) (others : Image) {h : Handle} {s : Section}
    (hlayout : Layout h.sections s h.patches h.binary.length h.detourAddress)
    (hwords : Dwords h.patches h.detourAddress)
    (hmapped : Mapped h.sections s h.patches h.detourAddress) :
    ∃ patched, doPatching h = .ok patched ∧
      ∀ hooks : Hooks ω,
        hooks.Fit isa (load h.sections others patched) h.patches h.detourAddress h.binary →
        ∀ x,
          (∀ y, ReflTransGen (h.program isa others hooks) x y →
            ReflTransGen (isa.Step (load h.sections others patched)) x y) ∧
          ((∀ y, ReflTransGen (h.program isa others hooks) x y →
              ∃ z, h.program isa others hooks y z) →
            ∀ u, ReflTransGen (isa.Step (load h.sections others patched)) x u →
              ∃ y, ReflTransGen (h.program isa others hooks) x y ∧
                ReflTransGen (isa.Step (load h.sections others patched)) u y) := by
  obtain ⟨patched, hrun, hdetoured⟩ := patchAll_detoured hlayout hwords
  refine ⟨patched, ?_, fun hooks hfit x => ⟨fun y hreach => ?_, fun hlive u hreach => ?_⟩⟩
  · rw [doPatching, hrun]
    rfl
  · induction hreach with
    | refl => exact .refl
    | tail _ hstep ih =>
      exact ih.trans (hooked_simulates hlayout hmapped hdetoured hfit hstep).to_reflTransGen
  · have hdet : ∀ y z z', isa.Step (load h.sections others patched) y z →
        isa.Step (load h.sections others patched) y z' → z = z' :=
      fun y z z' hz hz' => hz.deterministic hz'
    have hsim : ∀ y z, h.program isa others hooks y z →
        TransGen (isa.Step (load h.sections others patched)) y z :=
      fun y z hstep => hooked_simulates hlayout hmapped hdetoured hfit hstep
    exact reaches_of_simulates hdet hsim hlive hreach

/-! ### A program of two moves -/

/-- `nop`, `ret`, `push imm32` and `mov eax, imm32`. -/
def fourInstrs : List Byte → Option Instr
  | [b] => if b = 0x90 then some .nop else if b = 0xc3 then some .ret else none
  | [b, b0, b1, b2, b3] =>
    if b = 0x68 then some (.push (b3 ++ b2 ++ b1 ++ b0))
    else if b = 0xb8 then some (.movEax (b3 ++ b2 ++ b1 ++ b0)) else none
  | _ => none

theorem length_fourInstrs {b : Byte} {bs : List Byte} {i : Instr}
    (h : fourInstrs (b :: bs) = some i) :
    bs.length = if b = 0x68 ∨ b = 0xb8 then 4 else 0 := by
  match bs with
  | [] =>
    change (if b = 0x90 then _ else if b = 0xc3 then _ else _) = _ at h
    by_cases hnop : b = 0x90
    · subst hnop
      rfl
    · rw [if_neg hnop] at h
      by_cases hret : b = 0xc3
      · subst hret
        rfl
      · rw [if_neg hret] at h
        cases h
  | [b0, b1, b2, b3] =>
    change (if b = 0x68 then _ else if b = 0xb8 then _ else _) = _ at h
    by_cases hpush : b = 0x68
    · rw [if_pos (.inl hpush)]
      rfl
    · rw [if_neg hpush] at h
      by_cases hmov : b = 0xb8
      · rw [if_pos (.inr hmov)]
        rfl
      · rw [if_neg hmov] at h
        cases h
  | [_] | [_, _] | [_, _, _] | _ :: _ :: _ :: _ :: _ :: _ => cases h

def fourInstrsIsa : Isa Unit where
  decode bs := (fourInstrs bs).map fun i s => (exec i s.1, s.2)
  unambiguous := by
    intro bs cs f g hf hg
    obtain ⟨i, hi, -⟩ := Option.map_eq_some_iff.mp hf
    obtain ⟨j, hj, -⟩ := Option.map_eq_some_iff.mp hg
    cases bs with
    | nil => cases hi
    | cons b bs =>
      have hlength : bs.length = (bs ++ cs).length :=
        (length_fourInstrs hi).trans (length_fourInstrs hj).symm
      rw [List.length_append] at hlength
      exact List.length_eq_zero_iff.mp (by omega)
  decode_push := by
    intro v
    have hword : v.extractLsb' 24 8 ++ v.extractLsb' 16 8 ++ v.extractLsb' 8 8 ++
        v.extractLsb' 0 8 = v := by
      apply BitVec.eq_of_getLsbD_eq
      intro i hi
      simp only [BitVec.getLsbD_append, BitVec.getLsbD_extractLsb']
      grind
    show some _ = _
    rw [hword]
  decode_ret := rfl

/-- The second one of two patches has no code. -/
def twoMoves : Handle where
  binary := [0xb8, 0x01, 0, 0, 0, 0x90, 0xb8, 0x03, 0, 0, 0, 0x90, 0xc3] ++ List.replicate 51 0
  detourAddress := 0x402000
  patches := [⟨0x401000, 0, some 6, some [0xb8, 0x02, 0, 0, 0]⟩, ⟨0x401006, 6, some 6, none⟩]
  sections := [⟨".text", 16, 0x401000, 0⟩, ⟨".p_text2", 48, 0x402000, 16⟩]

def setEax (v : Byte) (x : Cpu × Unit) : Cpu × Unit :=
  ({ x.1 with eax := (0 : Byte) ++ (0 : Byte) ++ (0 : Byte) ++ v }, x.2)

theorem relocatable_setEax (v : Byte) :
    Relocatable fourInstrsIsa [0xb8, v, 0, 0, 0] (setEax v) := relocatable_decode rfl

theorem relocatable_nop : Relocatable fourInstrsIsa [0x90] id := relocatable_decode rfl

def twoMovesHooks : Hooks Unit where
  replaced i := if i = 0 then setEax 1 else setEax 3
  body i x y := y = if i = 0 then setEax 2 x else x

def twoMovesStart : Cpu :=
  { eax := 0, ecx := 0, edx := 0, ebx := 0, esp := 0x12ff00, ebp := 0, esi := 0, edi := 0,
    eflags := 0, mem := fun _ => 0 }

theorem twoMoves_mapped :
    Layout twoMoves.sections ⟨".p_text2", 48, 0x402000, 16⟩ twoMoves.patches twoMoves.binary.length
        twoMoves.detourAddress ∧
      Dwords twoMoves.patches twoMoves.detourAddress ∧
      Mapped twoMoves.sections ⟨".p_text2", 48, 0x402000, 16⟩ twoMoves.patches
        twoMoves.detourAddress :=
  ⟨⟨by decide, by decide, by decide, by decide, by decide, by decide⟩, by decide,
    ⟨by decide, by decide⟩, by decide, by decide, by decide, by decide, by decide⟩

/-- Both places are passed: the code of the first patch runs after the move that it replaces. -/
theorem twoMoves_runs :
    ∃ patched, doPatching twoMoves = .ok patched ∧
      ∃ y, ReflTransGen (fourInstrsIsa.Step (load twoMoves.sections (fun _ => none) patched))
          (stateAt (twoMovesStart, ()) 0x401000) (stateAt y 0x40100c) ∧ y.1.eax = 3 := by
  obtain ⟨hlayout, hwords, hmapped⟩ := twoMoves_mapped
  obtain ⟨patched, hpatched, hruns⟩ :=
    patched_runs fourInstrsIsa (fun _ => none) hlayout hwords hmapped
  obtain ⟨patched', hrun, hdetoured⟩ := patchAll_detoured hlayout hwords
  have hsame : patched' = patched := by
    rw [doPatching, hrun] at hpatched
    exact Except.ok.inj hpatched
  subst hsame
  have hfit : twoMovesHooks.Fit fourInstrsIsa (load twoMoves.sections (fun _ => none) patched')
      twoMoves.patches twoMoves.detourAddress twoMoves.binary := by
    have htwo : ∀ i, i < twoMoves.patches.length → i = 0 ∨ i = 1 := by
      intro i hi
      have hlt : i < 2 := hi
      omega
    apply Hooks.fit_of_relocatable hlayout hmapped hdetoured
    · intro i hi
      rcases htwo i hi with rfl | rfl
      · exact (relocatable_setEax 1).append relocatable_nop
      · exact (relocatable_setEax 3).append relocatable_nop
    · intro i hi
      rcases htwo i hi with rfl | rfl
      · exact ⟨setEax 2, relocatable_setEax 2, fun _ _ h => h⟩
      · exact ⟨id, relocatable_nil _, fun _ _ h => h⟩
  obtain ⟨y, hfirst⟩ : ∃ y, twoMoves.program fourInstrsIsa (fun _ => none) twoMovesHooks
      (stateAt (twoMovesStart, ()) 0x401000) (stateAt y 0x401006) :=
    ⟨_, .hook 0 (by decide) (twoMovesStart, ()) _ rfl⟩
  obtain ⟨z, hsecond, heax⟩ : ∃ z, twoMoves.program fourInstrsIsa (fun _ => none) twoMovesHooks
      (stateAt y 0x401006) (stateAt z 0x40100c) ∧ z.1.eax = 3 :=
    ⟨_, .hook 1 (by decide) y _ rfl, rfl⟩
  exact ⟨patched', hpatched, z,
    (hruns twoMovesHooks hfit _).1 _ (.tail (.single hfirst) hsecond), heax⟩

end Ra2yrcpp.PatchGamemd
