import Ra2yrcpp.Addscn.File
import Ra2yrcpp.PatchGamemd.Execution
import Ra2yrcpp.PatchGamemd.PatchStrings

/-!
# Patching the game

`auto_patch` of `patch_gamemd.py`: `addscn` appends a section to a copy of the executable and prints
where it is, and the detours of the patches go to the new section.
-/

namespace Ra2yrcpp.PatchGamemd

open Reasoning
open Addscn (FileMapping Line Failure Request)

/-! ## Section strings -/

/-- `std::hex`. -/
def hexText (n : UInt32) : List Char := Nat.toDigits 16 n.toNat

/-- The line that `append_section` prints, without its end. -/
def lineText (l : Line) : List Char :=
  (l.name.map fun b => Char.ofNat b.toNat) ++ [':', '0', 'x'] ++ hexText l.size ++
    [':', '0', 'x'] ++ hexText l.vaddr ++ [':', '0', 'x'] ++ hexText l.paddr

/-- `int(x, 0)` of a number that is written in base 16. -/
def int0 : List Char → Option Nat
  | '0' :: 'x' :: ds =>
    if !ds.isEmpty && ds.all isHex then some (numeral hexValue 16 ds) else none
  | _ => none

def readSection (s : List Char) : Option Section :=
  match s.splitOn ':' with
  | [name, size, vaddr, paddr] =>
    match int0 size, int0 vaddr, int0 paddr with
    | some size, some vaddr, some paddr => some ⟨String.ofList name, size, vaddr, paddr⟩
    | _, _, _ => none
  | _ => none

def getSections (sections : List (List Char)) : Option (List Section) := sections.mapM readSection

/-! ## `auto_patch` -/

/-- What ends the script. -/
inductive AutoError
  | addscn (e : Failure)
  | sections
  | patching (e : Error)
  deriving DecidableEq

def pTextString : List Char := ".p_text:0x00004d66:0x00b7a000:0x0047e000".toList

def textString : List Char := ".text:0x003df38d:0x00401000:0x00001000".toList

/-- `.p_text2` with the characteristics of code. -/
def pText2 : Request :=
  ⟨[0x2e, 0x70, 0x5f, 0x74, 0x65, 0x78, 0x74, 0x32], 0x1000, 0x60000020⟩

def fileBytes (F : FileMapping) : List Byte := (List.range F.size).map fun i => (F.view i).toBitVec

/-- `raw` is the text of the file with the raw patches. -/
def autoPatch (E : Environment) (F : FileMapping) (raw : List Char) :
    Except AutoError (List Byte) :=
  match Addscn.addSection F pText2.name pText2.virtualSize pText2.characteristics with
  | .error e => .error (.addscn e)
  | .ok (F, line) =>
    let peInfoD := lineText line
    match getSections [pTextString, textString, peInfoD], (peInfoD.splitOn ':')[2]?.bind int0 with
    | some sections, some pText2Addr =>
      let h : Handle := ⟨fileBytes F, pText2Addr, [], sections⟩
      match parsePatches E h (reSplit false raw) with
      | .error e => .error (.patching e)
      | .ok patches => (doPatching { h with patches := patches }).mapError .patching
    | _, _ => .error .sections

/-! ## The sections -/

def pText : Section := ⟨".p_text", 0x4d66, 0xb7a000, 0x47e000⟩

def text : Section := ⟨".text", 0x3df38d, 0x401000, 0x1000⟩

theorem readSection_pTextString : readSection pTextString = some pText := by decide +kernel

theorem readSection_textString : readSection textString = some text := by decide +kernel

theorem int0_hexText (n : UInt32) : int0 (['0', 'x'] ++ hexText n) = some n.toNat := by
  have hhex : (!(hexText n).isEmpty && (hexText n).all isHex) = true := by
    have hne : (hexText n).isEmpty = false := List.isEmpty_eq_false_iff.mpr Nat.toDigits_ne_nil
    rw [hne, Bool.not_false, Bool.true_and, List.all_eq_true]
    intro c hc
    obtain ⟨d, hd, rfl⟩ := exists_digit_of_mem (by decide) hc
    exact isHex_digitChar hd
  refine (if_pos hhex).trans ?_
  exact congrArg some (numeral_toDigits (by decide) hexValue_digitChar n.toNat)

theorem colon_not_mem_hexText (n : UInt32) : ':' ∉ ['0', 'x'] ++ hexText n := by
  have hdigit : ∀ d < 16, ':' ≠ d.digitChar := by decide
  intro h
  rcases List.mem_append.mp h with h | h
  · revert h
    decide
  · obtain ⟨d, hd, heq⟩ := exists_digit_of_mem (by decide) h
    exact hdigit d hd heq

/-- The four parts of the line are read back. -/
theorem splitOn_lineText {l : Line} (hname : ∀ b ∈ l.name, Char.ofNat b.toNat ≠ ':') :
    (lineText l).splitOn ':' =
      [l.name.map fun b => Char.ofNat b.toNat, ['0', 'x'] ++ hexText l.size,
        ['0', 'x'] ++ hexText l.vaddr, ['0', 'x'] ++ hexText l.paddr] := by
  have htext : lineText l = (l.name.map fun b => Char.ofNat b.toNat) ++
      ':' :: (['0', 'x'] ++ hexText l.size ++ ':' :: (['0', 'x'] ++ hexText l.vaddr ++
        ':' :: (['0', 'x'] ++ hexText l.paddr))) := by
    unfold lineText
    simp only [List.append_assoc, List.cons_append, List.nil_append]
  have hname' : ':' ∉ l.name.map fun b => Char.ofNat b.toNat := by
    intro h
    obtain ⟨b, hb, heq⟩ := List.mem_map.mp h
    exact hname b hb heq
  rw [htext, List.splitOn_append_cons_self_of_not_mem hname',
    List.splitOn_append_cons_self_of_not_mem (colon_not_mem_hexText _),
    List.splitOn_append_cons_self_of_not_mem (colon_not_mem_hexText _),
    List.splitOn_eq_singleton (colon_not_mem_hexText _)]

/-- The section of the line. -/
def lineSection (l : Line) : Section :=
  ⟨String.ofList (l.name.map fun b => Char.ofNat b.toNat), l.size.toNat, l.vaddr.toNat,
    l.paddr.toNat⟩

theorem readSection_lineText {l : Line} (hname : ∀ b ∈ l.name, Char.ofNat b.toNat ≠ ':') :
    readSection (lineText l) = some (lineSection l) := by
  unfold readSection
  rw [splitOn_lineText hname]
  dsimp only
  rw [int0_hexText, int0_hexText, int0_hexText]
  rfl

theorem getSections_lineText {l : Line} (hname : ∀ b ∈ l.name, Char.ofNat b.toNat ≠ ':') :
    getSections [pTextString, textString, lineText l] = some [pText, text, lineSection l] := by
  unfold getSections
  rw [List.mapM_cons, readSection_pTextString, List.mapM_cons, readSection_textString,
    List.mapM_cons, readSection_lineText hname]
  rfl

/-! ## The executable of the game -/

/-- The executable has the code where the script says, there is room for one more header in front of
it, and its addresses are multiples of eight. -/
structure Gamemd (F : FileMapping) : Prop where
  valid : Addscn.Valid F
  room : Addscn.Room F 1
  headers : (Addscn.getHeaders F.view).first +
    40 * ((Addscn.numberOfSections F.view (Addscn.getHeaders F.view).nt).toNat + 1) ≤ text.paddr
  file : F.size + 0x1000 + F.image.fileAlignment.toNat ≤ 4294967296
  memory : ∀ s ∈ F.image.sections, F.image.imageBase.toNat + s.stop + 0x1000 +
    2 * F.image.sectionAlignment.toNat ≤ 4294967296
  base : 8 ∣ F.image.imageBase.toNat
  alignment : 8 ∣ F.image.sectionAlignment.toNat
  code : ∀ t ∈ [pText, text],
    (∃ s ∈ F.image.sections, t.vaddr + t.size ≤ F.image.imageBase.toNat + s.stop) ∧
      t.paddr + t.size ≤ F.size

/-- Patches of the code that do not meet and need no more than the new section for their detours. -/
structure Placed (ps : List Patch) : Prop where
  sized : ∀ p ∈ ps, 6 ≤ p.len
  targets : ∀ p ∈ ps, ∃ t ∈ [pText, text], t.vaddr ≤ p.vaddr ∧
    p.vaddr + p.len ≤ t.vaddr + t.size ∧ p.paddr = t.offset p.vaddr
  apart : ps.Pairwise fun p q => Apart p.paddr p.len q.paddr q.len
  small : detourOffset ps ps.length ≤ 0x1000

section Layout

variable {F F' : FileMapping} {s : Addscn.SectionHeader} {line : Line} {ps : List Patch}

theorem Gamemd.fits (h : Gamemd F) : Addscn.Fits F [pText2] where
  name := by simp [pText2]
  file := by
    have hfile := h.file
    have hsize : pText2.virtualSize.toNat = 0x1000 := rfl
    rw [List.map_singleton, List.sum_singleton, hsize]
    omega
  memory t ht := by
    have hmemory := h.memory t ht
    have hsize : pText2.virtualSize.toNat = 0x1000 := rfl
    rw [List.map_singleton, List.sum_singleton, hsize]
    omega

/-- Where the new section is. -/
structure NewSection (F : FileMapping) (n : Section) : Prop where
  size : n.size = 0x1000
  paddr : n.paddr = F.size
  behind : ∀ t ∈ [pText, text], t.vaddr + t.size < n.vaddr
  space : n.vaddr + n.size ≤ 4294967296

theorem code_stop : ∀ t ∈ [pText, text], (t.vaddr + t.size) % 8 ≠ 0 := by decide

theorem paddr_code : ∀ t ∈ [pText, text], text.paddr ≤ t.paddr := by decide

theorem Gamemd.newSection (h : Gamemd F) (hnext : Addscn.Next F F' pText2 s)
    (hline : Addscn.Answers F.image.imageBase pText2 s line) : NewSection F (lineSection line) := by
  obtain ⟨u, hu, hnear⟩ := hnext.near
  have hmemory := h.memory u hu
  have hsize : s.virtualSize.toNat = 0x1000 := by
    rw [hline.size]
    rfl
  have hrequest : pText2.virtualSize.toNat = 0x1000 := rfl
  unfold Addscn.SectionHeader.stop at hnear hmemory
  have hvaddr : (lineSection line).vaddr = s.virtualAddress.toNat + F.image.imageBase.toNat := by
    rw [hline.line]
    show (s.virtualAddress + F.image.imageBase).toNat = _
    rw [UInt32.toNat_add]
    exact Nat.mod_eq_of_lt (by omega)
  constructor
  · rw [hline.line]
    exact hsize
  · rw [hline.line]
    exact hnext.pointer
  · intro t ht
    obtain ⟨⟨v, hv, hstop⟩, -⟩ := h.code t ht
    have hbefore := hnext.before v hv
    -- the end of the code is no multiple of eight
    have hbase := h.base
    have haligned := Nat.dvd_trans h.alignment hnext.aligned
    have hodd := code_stop t ht
    rw [hvaddr]
    omega
  · rw [hvaddr, hline.line]
    show _ + s.virtualSize.toNat ≤ _
    omega

theorem NewSection.layout {n : Section} (h : NewSection F n) (hcode : ∀ t ∈ [pText, text],
      t.paddr + t.size ≤ F.size) (hps : Placed ps) {size : Nat} (hsize : F.size + 0x1000 ≤ size) :
    Layout [pText, text, n] n ps size n.vaddr := by
  have hoffset : n.offset n.vaddr = F.size := by
    unfold Section.offset
    rw [h.paddr, Nat.sub_self, Nat.add_zero]
  have hinside : ∀ p ∈ ps, p.paddr + p.len ≤ F.size := by
    intro p hp
    obtain ⟨t, ht, hlo, hhi, hpaddr⟩ := hps.targets p hp
    have hfile := hcode t ht
    unfold Section.offset at hpaddr
    omega
  have hsmall := hps.small
  refine ⟨hps.sized, fun i hi => ?_, hps.apart, fun p hp => ?_, fun p hp => ?_, ?_⟩
  · have hle := detourOffset_succ_le hi
    rw [getSection_eq_some_iff]
    refine ⟨⟨Nat.le_add_right _ _, ?_⟩, [pText, text], [], rfl, fun t ht hreach => ?_⟩
    · rw [h.size]
      omega
    · have hbehind := h.behind t ht
      have hend := hreach.2
      omega
  · have hfile := hinside p hp
    rw [hoffset]
    unfold Apart
    omega
  · have hfile := hinside p hp
    omega
  · rw [hoffset]
    omega

theorem NewSection.mapped {n : Section} (h : NewSection F n) (hcode : ∀ t ∈ [pText, text],
      t.paddr + t.size ≤ F.size) (hps : Placed ps) :
    Mapped [pText, text, n] n ps n.vaddr := by
  have hsize := h.size
  have hpaddr := h.paddr
  have hspace := h.space
  have hsmall := hps.small
  have hpText := h.behind pText List.mem_cons_self
  have htext := h.behind text (List.mem_cons_of_mem _ List.mem_cons_self)
  have hpText' := hcode pText List.mem_cons_self
  have htext' := hcode text (List.mem_cons_of_mem _ List.mem_cons_self)
  have hconst : Apart pText.vaddr pText.size text.vaddr text.size ∧
      Apart pText.paddr pText.size text.paddr text.size := by decide
  refine ⟨⟨?_, ?_⟩, ?_, fun p hp => ?_, ?_, Nat.le_refl _, ?_⟩
  · simp only [List.pairwise_cons, List.mem_cons, List.not_mem_nil, or_false, forall_eq_or_imp,
      forall_eq, List.Pairwise.nil, and_true]
    refine ⟨⟨hconst.1, ?_⟩, ?_, nofun⟩
    · unfold Apart
      omega
    · unfold Apart
      omega
  · simp only [List.pairwise_cons, List.mem_cons, List.not_mem_nil, or_false, forall_eq_or_imp,
      forall_eq, List.Pairwise.nil, and_true]
    refine ⟨⟨hconst.2, ?_⟩, ?_, nofun⟩
    · unfold Apart
      omega
    · unfold Apart
      omega
  · intro t ht
    rw [List.mem_cons, List.mem_cons, List.mem_singleton] at ht
    rcases ht with rfl | rfl | rfl
    · omega
    · omega
    · exact hspace
  · obtain ⟨t, ht, hrest⟩ := hps.targets p hp
    exact ⟨t, List.mem_append_left [n] ht, hrest⟩
  · exact List.mem_append_right [pText, text] List.mem_cons_self
  · omega

theorem NewSection.dwords {n : Section} (h : NewSection F n) (hps : Placed ps) :
    Dwords ps n.vaddr := by
  have hsize := h.size
  have hspace := h.space
  have hsmall := hps.small
  constructor
  · intro p hp
    obtain ⟨t, ht, hlo, hhi, -⟩ := hps.targets p hp
    have hbehind := h.behind t ht
    omega
  · intro i hi
    have hle := detourOffset_succ_le hi
    have hsized := hps.sized ps[i] (List.getElem_mem hi)
    unfold Patch.detourSize at hle
    omega

end Layout

/-! ## The patched game -/

theorem length_fileBytes (F : FileMapping) : (fileBytes F).length = F.size := by
  unfold fileBytes
  rw [List.length_map, List.length_range]

theorem getElem?_fileBytes {F : FileMapping} {x : Nat} (hx : x < F.size) :
    (fileBytes F)[x]? = some (F.view x).toBitVec := by
  unfold fileBytes
  rw [List.getElem?_map, List.getElem?_range hx]
  rfl

/-- An executable with the two sections of code. -/
def gameFile : FileMapping :=
  let m : Addscn.View := fun _ => 0
  let m := Addscn.setWord m 0 0x5a4d
  let m := Addscn.setDword m 0x3c 0x80
  let m := Addscn.setDword m 0x80 0x4550
  let m := Addscn.setWord m 0x84 0x14c
  let m := Addscn.setWord m 0x86 2
  let m := Addscn.setWord m 0x94 0xe0
  let m := Addscn.setDword m 0xb4 0x400000
  let m := Addscn.setDword m 0xb8 0x1000
  let m := Addscn.setDword m 0xbc 0x1000
  let m := Addscn.setDword m 0xd0 0x77f000
  let m := Addscn.setDword m 0x180 0x3df38d
  let m := Addscn.setDword m 0x184 0x1000
  let m := Addscn.setDword m 0x188 0x3e0000
  let m := Addscn.setDword m 0x18c 0x1000
  let m := Addscn.setDword m 0x1a8 0x4d66
  let m := Addscn.setDword m 0x1ac 0x77a000
  let m := Addscn.setDword m 0x1b0 0x5000
  let m := Addscn.setDword m 0x1b4 0x47e000
  ⟨m, 0x483000⟩

theorem gameFile_gamemd : Gamemd gameFile where
  valid :=
    ⟨by decide +kernel, by decide +kernel, by decide +kernel, by decide +kernel, by decide +kernel,
      by decide +kernel, by decide +kernel, by decide +kernel, by decide +kernel⟩
  room :=
    ⟨by decide +kernel, by decide +kernel, by decide +kernel, by decide +kernel, by decide +kernel⟩
  headers := by decide +kernel
  file := by decide +kernel
  memory := by decide +kernel
  base := by decide +kernel
  alignment := by decide +kernel
  code := by decide +kernel

def loaderPatch : Patch := ⟨0x7cd80f, 0x3cd80f, some 10, some [0x60, 0x61]⟩

end Ra2yrcpp.PatchGamemd
