import Mathlib.Algebra.BigOperators.Group.List.Basic
import Mathlib.Algebra.GroupWithZero.Nat
import Ra2yrcpp.PatchGamemd.Sections

/-!
# Detours in the executable

`do_patching` of `patch_gamemd.py`.  A detour is the code that a patch replaces, the code of the patch
and a jump back; the detours lie one after the other from the detour address on.
-/

namespace Ra2yrcpp.PatchGamemd

open Reasoning

abbrev Byte := BitVec 8

/-- `size` is `None` where the decoder has found no end. -/
structure Patch where
  vaddr : Nat
  paddr : Nat
  size : Option Nat
  code : Option (List Byte) := none
  deriving DecidableEq, Repr

structure Handle where
  binary : List Byte
  /-- `args.detour_address`. -/
  detourAddress : Nat
  patches : List Patch
  sections : List Section

def patch (b b1 : List Byte) (offset : Nat) : Except Error (List Byte) :=
  let l := b.length
  let e := offset + b1.length
  if e ≤ l then .ok (splice b offset b1) else .error (.outside l e)

/-- Little endian. -/
def dword (n : Nat) : List Byte :=
  [BitVec.ofNat 8 n, BitVec.ofNat 8 (n / 256), BitVec.ofNat 8 (n / 65536),
    BitVec.ofNat 8 (n / 16777216)]

/-- `push address; ret`. -/
def pushretCode (address : Nat) : List Byte := [0x68] ++ dword address ++ [0xc3]

def pushret (address : Nat) : Except Error (List Byte) :=
  if address < 4294967296 then .ok (pushretCode address) else .error (.packed address)

def makeDetour (binary : List Byte) (h : Patch) (addrDetours : Nat) (sections : List Section)
    (code : Option (List Byte)) : Except Error (List Byte × Nat) :=
  let code := code.getD []
  match getSection sections addrDetours with
  | none => .error .noSection
  | some sectionDetours =>
    let offsetDetours := addrDetours - sectionDetours.vaddr
    match h.size with
    | none => .error .noSize
    | some size => do
      let jumpBack ← pushret (h.vaddr + size)
      let detour := window binary h.paddr size ++ code ++ jumpBack
      let binary ← patch binary detour (sectionDetours.paddr + offsetDetours)
      let pr1 ← pushret addrDetours
      let pr2 := pr1 ++ List.replicate (size - pr1.length) 0x90
      let binary ← patch binary pr2 h.paddr
      return (binary, detour.length)

/-- The loop of `do_patching`, with the detour address that it ends with. -/
def patchAll (sections : List Section) :
    List Patch → List Byte → Nat → Except Error (List Byte × Nat)
  | [], binary, addrDetours => .ok (binary, addrDetours)
  | p :: ps, binary, addrDetours => do
    let (binary, n) ← makeDetour binary p addrDetours sections p.code
    patchAll sections ps binary (addrDetours + n)

def doPatching (h : Handle) : Except Error (List Byte) := do
  let (binaryPatched, _) ← patchAll h.sections h.patches h.binary h.detourAddress
  return binaryPatched

/-! ## What a patch writes -/

namespace Patch

def len (p : Patch) : Nat := p.size.getD 0

def codeBytes (p : Patch) : List Byte := p.code.getD []

def detour (p : Patch) (binary : List Byte) : List Byte :=
  window binary p.paddr p.len ++ p.codeBytes ++ pushretCode (p.vaddr + p.len)

/-- The jump to the detour, filled up with `nop`. -/
def jump (p : Patch) (addrDetour : Nat) : List Byte :=
  pushretCode addrDetour ++ List.replicate (p.len - 6) 0x90

/-- The length of the detour. -/
def detourSize (p : Patch) : Nat := p.len + p.codeBytes.length + 6

/-- The index is one of the bytes that the patch replaces. -/
def Targets (p : Patch) (x : Nat) : Prop := p.paddr ≤ x ∧ x < p.paddr + p.len

end Patch

theorem Patch.size_eq {p : Patch} (h : 6 ≤ p.len) : p.size = some p.len := by
  unfold Patch.len at *
  cases hsize : p.size with
  | none => simp [hsize] at h
  | some n => rfl

/-- Where detour `i` starts, from the detour address. -/
def detourOffset (ps : List Patch) (i : Nat) : Nat := ((ps.take i).map Patch.detourSize).sum

@[simp] theorem detourOffset_zero (ps : List Patch) : detourOffset ps 0 = 0 := rfl

@[simp] theorem detourOffset_cons_succ (p : Patch) (ps : List Patch) (i : Nat) :
    detourOffset (p :: ps) (i + 1) = p.detourSize + detourOffset ps i := List.sum_cons

@[simp] theorem length_pushretCode (a : Nat) : (pushretCode a).length = 6 := rfl

theorem Patch.length_detour {p : Patch} {binary : List Byte}
    (h : p.paddr + p.len ≤ binary.length) : (p.detour binary).length = p.detourSize := by
  rw [Patch.detour, List.length_append, List.length_append, length_window h, length_pushretCode,
    Patch.detourSize]

theorem Patch.length_jump {p : Patch} (h : 6 ≤ p.len) (a : Nat) : (p.jump a).length = p.len := by
  rw [Patch.jump, List.length_append, length_pushretCode, List.length_replicate]
  omega

/-- The file offset of an address of the section. -/
def Section.offset (s : Section) (addr : Nat) : Nat := s.paddr + (addr - s.vaddr)

/-! ## Patches that do not meet -/

/-- Patches of a binary of `size` bytes, whose detours are in the section `s` from `addr` on: the
targets and the area of the detours are inside the binary and apart. -/
structure Layout (sections : List Section) (s : Section) (ps : List Patch) (size addr : Nat) :
    Prop where
  sized : ∀ p ∈ ps, 6 ≤ p.len
  resolved : ∀ i < ps.length, getSection sections (addr + detourOffset ps i) = some s
  targetsApart : ps.Pairwise fun p q => Apart p.paddr p.len q.paddr q.len
  detoursApart : ∀ p ∈ ps, Apart p.paddr p.len (s.offset addr) (detourOffset ps ps.length)
  targetsInside : ∀ p ∈ ps, p.paddr + p.len ≤ size
  detoursInside : s.offset addr + detourOffset ps ps.length ≤ size

/-- The addresses that are pushed are dwords. -/
def Dwords (ps : List Patch) (addr : Nat) : Prop :=
  (∀ p ∈ ps, p.vaddr + p.len < 4294967296) ∧
    ∀ i < ps.length, addr + detourOffset ps i < 4294967296

instance (ps : List Patch) (addr : Nat) : Decidable (Dwords ps addr) :=
  inferInstanceAs (Decidable (_ ∧ _))

/-- The patches, and nothing else, are written. -/
structure Detoured (s : Section) (ps : List Patch) (addr : Nat) (binary patched : List Byte) :
    Prop where
  length : patched.length = binary.length
  targets : ∀ i (hi : i < ps.length),
    window patched ps[i].paddr ps[i].len = ps[i].jump (addr + detourOffset ps i)
  detours : ∀ i (hi : i < ps.length),
    window patched (s.offset addr + detourOffset ps i) ps[i].detourSize = ps[i].detour binary
  backToBack : ∀ i (hi : i < ps.length),
    detourOffset ps (i + 1) = detourOffset ps i + (ps[i].detour binary).length
  rest : ∀ x, (∀ p ∈ ps, ¬p.Targets x) →
    ¬(s.offset addr ≤ x ∧ x < s.offset addr + detourOffset ps ps.length) →
      patched[x]? = binary[x]?

section Step

variable {sections : List Section} {s : Section} {p : Patch} {ps : List Patch}
  {binary : List Byte} {size addr : Nat}

theorem Layout.vaddr_le (h : Layout sections s (p :: ps) size addr) : s.vaddr ≤ addr := by
  have hfirst := h.resolved 0 (Nat.succ_pos ps.length)
  exact (getSection_eq_some_iff.mp hfirst).1.1

/-- The next detour starts where this one ends. -/
theorem Layout.offset_add (h : Layout sections s (p :: ps) size addr) :
    s.offset (addr + p.detourSize) = s.offset addr + p.detourSize := by
  have hle := h.vaddr_le
  unfold Section.offset
  omega

theorem Layout.tail (h : Layout sections s (p :: ps) size addr) :
    Layout sections s ps size (addr + p.detourSize) where
  sized q hq := h.sized q (List.mem_cons_of_mem p hq)
  resolved i hi := by
    have hnext := h.resolved (i + 1) (Nat.succ_lt_succ hi)
    rw [detourOffset_cons_succ, ← Nat.add_assoc] at hnext
    exact hnext
  targetsApart := (List.pairwise_cons.mp h.targetsApart).2
  detoursApart q hq := by
    have hq := h.detoursApart q (List.mem_cons_of_mem p hq)
    rw [List.length_cons, detourOffset_cons_succ] at hq
    rw [h.offset_add]
    unfold Apart at *
    omega
  targetsInside q hq := h.targetsInside q (List.mem_cons_of_mem p hq)
  detoursInside := by
    have hall := h.detoursInside
    rw [List.length_cons, detourOffset_cons_succ] at hall
    rw [h.offset_add]
    omega

theorem dwords_cons : Dwords (p :: ps) addr ↔
    (p.vaddr + p.len < 4294967296 ∧ addr < 4294967296) ∧ Dwords ps (addr + p.detourSize) := by
  constructor
  · rintro ⟨hreturns, hjumps⟩
    have hfirst := hjumps 0 (Nat.succ_pos ps.length)
    refine ⟨⟨hreturns p List.mem_cons_self, hfirst⟩, ?_, ?_⟩
    · intro q hq
      exact hreturns q (List.mem_cons_of_mem p hq)
    · intro i hi
      have hnext := hjumps (i + 1) (Nat.succ_lt_succ hi)
      rw [detourOffset_cons_succ, ← Nat.add_assoc] at hnext
      exact hnext
  · rintro ⟨⟨hreturn, hjump⟩, hreturns, hjumps⟩
    constructor
    · intro q hq
      rcases List.mem_cons.mp hq with rfl | hq
      · exact hreturn
      · exact hreturns q hq
    · intro i hi
      cases i with
      | zero => exact hjump
      | succ i =>
        rw [detourOffset_cons_succ, ← Nat.add_assoc]
        exact hjumps i (Nat.lt_of_succ_lt_succ hi)

/-- The binary after one patch. -/
def detoured (s : Section) (p : Patch) (addr : Nat) (binary : List Byte) : List Byte :=
  splice (splice binary (s.offset addr) (p.detour binary)) p.paddr (p.jump addr)

theorem Layout.detour_inside (h : Layout sections s (p :: ps) binary.length addr) :
    (p.detour binary).length = p.detourSize ∧
      s.offset addr + (p.detour binary).length ≤ binary.length := by
  have hdetour := Patch.length_detour (h.targetsInside p List.mem_cons_self)
  have hall := h.detoursInside
  rw [List.length_cons, detourOffset_cons_succ] at hall
  omega

theorem Layout.jump_inside (h : Layout sections s (p :: ps) binary.length addr) :
    (p.jump addr).length = p.len ∧
      p.paddr + (p.jump addr).length ≤
        (splice binary (s.offset addr) (p.detour binary)).length := by
  have hjump := Patch.length_jump (h.sized p List.mem_cons_self) addr
  rw [length_splice h.detour_inside.2, hjump]
  exact ⟨rfl, h.targetsInside p List.mem_cons_self⟩

/-- The detour goes in first; the address of the jump is packed after that. -/
theorem makeDetour_eq (h : Layout sections s (p :: ps) binary.length addr) :
    makeDetour binary p addr sections p.code =
      if p.vaddr + p.len < 4294967296 then
        if addr < 4294967296 then .ok (detoured s p addr binary, p.detourSize)
        else .error (.packed addr)
      else .error (.packed (p.vaddr + p.len)) := by
  have hsize := Patch.size_eq (h.sized p List.mem_cons_self)
  have hget := h.resolved 0 (Nat.succ_pos ps.length)
  rw [detourOffset_zero, Nat.add_zero] at hget
  have hdetour := h.detour_inside.1
  have hpatch : patch binary (p.detour binary) (s.offset addr) =
      .ok (splice binary (s.offset addr) (p.detour binary)) := if_pos h.detour_inside.2
  have hpatch' : patch (splice binary (s.offset addr) (p.detour binary)) (p.jump addr) p.paddr =
      .ok (detoured s p addr binary) := if_pos h.jump_inside.2
  rw [← hdetour]
  unfold Patch.detour Patch.jump Patch.codeBytes Section.offset at *
  simp only [makeDetour, hget, hsize, pushret, bind, Except.bind]
  by_cases hback : p.vaddr + p.len < 4294967296
  · simp only [if_pos hback, hpatch]
    by_cases hjump : addr < 4294967296
    · simp only [if_pos hjump, length_pushretCode, hpatch']
      rfl
    · simp only [if_neg hjump]
  · simp only [if_neg hback]

/-- What one patch does to the binary. -/
structure OneDetour (s : Section) (p : Patch) (addr : Nat) (binary patched : List Byte) : Prop where
  length : patched.length = binary.length
  target : window patched p.paddr p.len = p.jump addr
  detour : window patched (s.offset addr) p.detourSize = p.detour binary
  rest : ∀ x, ¬p.Targets x → ¬(s.offset addr ≤ x ∧ x < s.offset addr + p.detourSize) →
    patched[x]? = binary[x]?

theorem oneDetour (h : Layout sections s (p :: ps) binary.length addr) :
    OneDetour s p addr binary (detoured s p addr binary) := by
  obtain ⟨hdetour, hinside⟩ := h.detour_inside
  obtain ⟨hjump, hinside'⟩ := h.jump_inside
  have hapart : Apart (s.offset addr) p.detourSize p.paddr (p.jump addr).length := by
    have harea := h.detoursApart p List.mem_cons_self
    rw [List.length_cons, detourOffset_cons_succ] at harea
    rw [hjump]
    unfold Apart at *
    omega
  constructor
  · exact (length_splice hinside').trans (length_splice hinside)
  · have hwindow := window_splice hinside'
    rw [hjump] at hwindow
    exact hwindow
  · have hwindow := window_splice hinside
    rw [hdetour] at hwindow
    rw [detoured, window_splice_of_apart hinside' hapart, hwindow]
  · intro x htargets hdetours
    rw [detoured, getElem?_splice_of_not_mem hinside', getElem?_splice_of_not_mem hinside]
    · rw [hdetour]
      exact hdetours
    · rw [hjump]
      exact htargets

end Step

/-! ## All patches -/

section Run

variable {sections : List Section} {s : Section} {p : Patch} {ps : List Patch}
  {binary patched patched' : List Byte} {addr : Nat}

/-- The first patch and the others, which leave alone what it has written. -/
theorem Detoured.cons (h : Layout sections s (p :: ps) binary.length addr)
    (hfirst : OneDetour s p addr binary patched)
    (hrest : Detoured s ps (addr + p.detourSize) patched patched') :
    Detoured s (p :: ps) addr binary patched' := by
  obtain ⟨htargets, -⟩ := List.pairwise_cons.mp h.targetsApart
  have harea := h.detoursApart
  simp only [List.length_cons, detourOffset_cons_succ] at harea
  have hoffset := h.offset_add
  -- the others leave the bytes of a range alone that is apart from theirs
  have hkept : ∀ i n, (∀ q ∈ ps, Apart i n q.paddr q.len) →
      Apart i n (s.offset addr + p.detourSize) (detourOffset ps ps.length) →
        window patched' i n = window patched i n := by
    intro i n hq hdetours
    apply window_congr
    intro x hi hn
    apply hrest.rest x
    · intro q hmem hx
      exact apart_iff.mp (hq q hmem) x hi hn hx.1 hx.2
    · rw [hoffset]
      intro hx
      exact apart_iff.mp hdetours x hi hn hx.1 hx.2
  -- the targets of the others are as they were before the first
  have hbefore : ∀ q ∈ ps, q.detour patched = q.detour binary := by
    intro q hq
    have hwindow : window patched q.paddr q.len = window binary q.paddr q.len := by
      have hpq := htargets q hq
      have hqarea := harea q (List.mem_cons_of_mem p hq)
      apply window_congr
      intro x hi hn
      apply hfirst.rest x
      · intro hx
        exact apart_iff.mp hpq x hx.1 hx.2 hi hn
      · intro hx
        exact apart_iff.mp hqarea x hi hn hx.1 (by omega)
    rw [Patch.detour, Patch.detour, hwindow]
  constructor
  · exact hrest.length.trans hfirst.length
  · intro i hi
    cases i with
    | zero =>
      have hparea := harea p List.mem_cons_self
      show window patched' p.paddr p.len = p.jump addr
      rw [hkept p.paddr p.len htargets (by unfold Apart at *; omega)]
      exact hfirst.target
    | succ i =>
      have htarget := hrest.targets i (Nat.lt_of_succ_lt_succ hi)
      rw [Nat.add_assoc, ← detourOffset_cons_succ] at htarget
      exact htarget
  · intro i hi
    cases i with
    | zero =>
      show window patched' (s.offset addr) p.detourSize = p.detour binary
      rw [hkept (s.offset addr) p.detourSize]
      · exact hfirst.detour
      · intro q hq
        have hqarea := harea q (List.mem_cons_of_mem p hq)
        unfold Apart at *
        omega
      · unfold Apart
        omega
    | succ i =>
      have hlt : i < ps.length := Nat.lt_of_succ_lt_succ hi
      have hdetour := hrest.detours i hlt
      rw [hbefore ps[i] (List.getElem_mem hlt), hoffset, Nat.add_assoc, ← detourOffset_cons_succ]
        at hdetour
      exact hdetour
  · intro i hi
    cases i with
    | zero =>
      have hlength := Patch.length_detour (h.targetsInside p List.mem_cons_self)
      rw [detourOffset_cons_succ, detourOffset_zero, detourOffset_zero, Nat.zero_add]
      exact hlength.symm
    | succ i =>
      have hlt : i < ps.length := Nat.lt_of_succ_lt_succ hi
      have hnext := hrest.backToBack i hlt
      rw [hbefore ps[i] (List.getElem_mem hlt)] at hnext
      rw [detourOffset_cons_succ, detourOffset_cons_succ, hnext, Nat.add_assoc]
      rfl
  · intro x htarget hdetour
    rw [List.length_cons, detourOffset_cons_succ] at hdetour
    rw [hrest.rest x, hfirst.rest x]
    · exact htarget p List.mem_cons_self
    · omega
    · intro q hq
      exact htarget q (List.mem_cons_of_mem p hq)
    · omega

-- induction on the patches; each one is written into the binary that those before it have left
theorem patchAll_detoured (h : Layout sections s ps binary.length addr) (hwords : Dwords ps addr) :
    ∃ patched, patchAll sections ps binary addr =
        .ok (patched, addr + detourOffset ps ps.length) ∧
      Detoured s ps addr binary patched := by
  induction ps generalizing binary addr with
  | nil =>
    have hnone : ∀ i, ¬i < ([] : List Patch).length := Nat.not_lt_zero
    exact ⟨binary, rfl, rfl, fun i hi => absurd hi (hnone i), fun i hi => absurd hi (hnone i),
      fun i hi => absurd hi (hnone i), fun _ _ _ => rfl⟩
  | cons p ps ih =>
    obtain ⟨⟨hback, hjump⟩, hwords⟩ := dwords_cons.mp hwords
    have hfirst := oneDetour h
    have htail := h.tail
    rw [← hfirst.length] at htail
    obtain ⟨patched, hrun, hrest⟩ := ih htail hwords
    refine ⟨patched, ?_, Detoured.cons h hfirst hrest⟩
    have haddr : addr + detourOffset (p :: ps) (p :: ps).length =
        addr + p.detourSize + detourOffset ps ps.length := by
      rw [List.length_cons, detourOffset_cons_succ, Nat.add_assoc]
    rw [patchAll, makeDetour_eq h, if_pos hback, if_pos hjump, haddr]
    exact hrun

/-- The first address that is no dword ends the script. -/
theorem patchAll_packed (h : Layout sections s ps binary.length addr) (hwords : ¬Dwords ps addr) :
    ∃ n, patchAll sections ps binary addr = .error (.packed n) := by
  induction ps generalizing binary addr with
  | nil => exact absurd ⟨nofun, fun i hi => absurd hi (Nat.not_lt_zero i)⟩ hwords
  | cons p ps ih =>
    rw [patchAll, makeDetour_eq h]
    by_cases hback : p.vaddr + p.len < 4294967296
    · by_cases hjump : addr < 4294967296
      · rw [if_pos hback, if_pos hjump]
        have htail := h.tail
        rw [← (oneDetour h).length] at htail
        exact ih htail fun hrest => hwords (dwords_cons.mpr ⟨⟨hback, hjump⟩, hrest⟩)
      · rw [if_pos hback, if_neg hjump]
        exact ⟨addr, rfl⟩
    · rw [if_neg hback]
      exact ⟨p.vaddr + p.len, rfl⟩

end Run

/-- Patches that do not meet are all applied, and nothing else is; an address that cannot be pushed
as a dword is refused. -/
theorem doPatching_detoured {h : Handle} {s : Section}
    (hlayout : Layout h.sections s h.patches h.binary.length h.detourAddress) :
    (Dwords h.patches h.detourAddress →
      ∃ patched, doPatching h = .ok patched ∧
        Detoured s h.patches h.detourAddress h.binary patched) ∧
    (¬Dwords h.patches h.detourAddress → ∃ n, doPatching h = .error (.packed n)) := by
  constructor
  · intro hwords
    obtain ⟨patched, hrun, hdetoured⟩ := patchAll_detoured hlayout hwords
    refine ⟨patched, ?_, hdetoured⟩
    rw [doPatching, hrun]
    rfl
  · intro hwords
    obtain ⟨n, hrun⟩ := patchAll_packed hlayout hwords
    refine ⟨n, ?_⟩
    rw [doPatching, hrun]
    rfl

/-- Two patches, the second one with code of its own. -/
def twoPatches : Handle where
  binary := List.replicate 64 0xcc
  detourAddress := 0x2004
  patches := [⟨0x1000, 0, some 6, none⟩, ⟨0x1008, 8, some 7, some [0x40]⟩]
  sections := [⟨".text", 32, 0x1000, 0⟩, ⟨".p_text", 32, 0x2000, 28⟩]

theorem twoPatches_detoured :
    Layout twoPatches.sections ⟨".p_text", 32, 0x2000, 28⟩ twoPatches.patches
        twoPatches.binary.length twoPatches.detourAddress ∧
      Dwords twoPatches.patches twoPatches.detourAddress ∧
      ∃ patched, doPatching twoPatches = .ok patched ∧
        Detoured ⟨".p_text", 32, 0x2000, 28⟩ twoPatches.patches twoPatches.detourAddress
          twoPatches.binary patched := by
  have hlayout : Layout twoPatches.sections ⟨".p_text", 32, 0x2000, 28⟩ twoPatches.patches
      twoPatches.binary.length twoPatches.detourAddress :=
    ⟨by decide, by decide, by decide, by decide, by decide, by decide⟩
  have hwords : Dwords twoPatches.patches twoPatches.detourAddress := by decide
  exact ⟨hlayout, hwords, (doPatching_detoured hlayout).1 hwords⟩

/-- A patch of the last six bytes of the address space, whose detour would have to jump behind them. -/
def lastAddresses : Handle where
  binary := List.replicate 64 0xcc
  detourAddress := 0x2004
  patches := [⟨0xfffffffa, 10, some 6, none⟩]
  sections := [⟨".text", 16, 0xfffffff0, 0⟩, ⟨".p_text", 32, 0x2000, 28⟩]

theorem lastAddresses_packed :
    Layout lastAddresses.sections ⟨".p_text", 32, 0x2000, 28⟩ lastAddresses.patches
        lastAddresses.binary.length lastAddresses.detourAddress ∧
      mapVaddr lastAddresses.sections 0xfffffffa = .ok 10 ∧
      doPatching lastAddresses = .error (.packed 4294967296) := by
  have hlayout : Layout lastAddresses.sections ⟨".p_text", 32, 0x2000, 28⟩ lastAddresses.patches
      lastAddresses.binary.length lastAddresses.detourAddress :=
    ⟨by decide, by decide, by decide, by decide, by decide, by decide⟩
  exact ⟨hlayout, rfl, rfl⟩

end Ra2yrcpp.PatchGamemd
