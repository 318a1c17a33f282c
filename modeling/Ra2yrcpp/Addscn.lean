import Mathlib.Algebra.Group.Nat.Defs
import Ra2yrcpp.Reasoning.Splice

/-!
# A new section of an executable

`append_section` of `addscn.cpp`: the file is mapped with room for the data of a new section, whose
header goes behind the others.
-/

namespace Ra2yrcpp.Addscn

open Reasoning

/-! ## Headers -/

/-- `IMAGE_SECTION_HEADER`; the fields that are left out are zero in a new one. -/
structure SectionHeader where
  name : List UInt8
  virtualSize : UInt32
  virtualAddress : UInt32
  sizeOfRawData : UInt32
  pointerToRawData : UInt32
  characteristics : UInt32
  deriving DecidableEq, Repr

/-- A file and what is read of its headers. -/
structure Image where
  fileSize : UInt32
  fileAlignment : UInt32
  sectionAlignment : UInt32
  imageBase : UInt32
  sizeOfImage : UInt32
  sections : List SectionHeader

/-- The line `<name>:0x<size>:0x<vaddr>:0x<paddr>` on the standard output. -/
structure Line where
  name : List UInt8
  size : UInt32
  vaddr : UInt32
  paddr : UInt32
  deriving DecidableEq, Repr

structure Appended where
  image : Image
  sNew : SectionHeader
  line : Line

/-! ## `append_section` -/

def alignup (x a : UInt32) : UInt32 := ((x + a - 1) / a) * a

/-- The file has the size of the new mapping.  From `pointerToRawData` on, `sizeOfRawData` bytes are
cleared.  Without a section there is no last one. -/
def appendSection (H : Image) (name : List UInt8) (virtualSize characteristics : UInt32) :
    Option Appended :=
  match H.sections.getLast? with
  | none => none
  | some sLast =>
    let mapped := alignup (H.fileSize + virtualSize) H.fileAlignment
    let sNew : SectionHeader :=
      { name := name.take 8
        virtualSize := virtualSize
        virtualAddress := alignup (sLast.virtualAddress + sLast.virtualSize) H.sectionAlignment
        sizeOfRawData := alignup virtualSize H.fileAlignment
        pointerToRawData := H.fileSize
        characteristics := characteristics }
    let image : Image :=
      { H with
        fileSize := mapped
        sections := H.sections ++ [sNew]
        sizeOfImage := alignup (sNew.virtualAddress + sNew.virtualSize) H.sectionAlignment }
    some ⟨image, sNew,
      ⟨name, virtualSize, sNew.virtualAddress + H.imageBase, sNew.pointerToRawData⟩⟩

/-! ## Alignment -/

/-- The least multiple of `a` that is not less than `x`. -/
def roundUp (x a : Nat) : Nat := (x + a - 1) / a * a

theorem dvd_roundUp (x a : Nat) : a ∣ roundUp x a := Nat.dvd_mul_left a _

theorem le_roundUp {a : Nat} (ha : 0 < a) (x : Nat) : x ≤ roundUp x a := by
  have hsplit : (x + a - 1) / a * a + (x + a - 1) % a = x + a - 1 := Nat.div_add_mod' _ a
  have hmod : (x + a - 1) % a < a := Nat.mod_lt _ ha
  unfold roundUp
  omega

theorem roundUp_add_of_dvd {a x : Nat} (ha : 0 < a) (hx : a ∣ x) (y : Nat) :
    roundUp (x + y) a = x + roundUp y a := by
  obtain ⟨k, rfl⟩ := hx
  have hsum : a * k + y + a - 1 = y + a - 1 + k * a := by
    rw [Nat.mul_comm k a]
    omega
  unfold roundUp
  rw [hsum, Nat.add_mul_div_right _ _ ha, Nat.add_mul, Nat.mul_comm k a, Nat.add_comm]

/-- The sum does not go beyond a dword. -/
theorem toNat_alignup {x a : UInt32} (ha : 0 < a.toNat) (h : x.toNat + a.toNat ≤ 4294967296) :
    (alignup x a).toNat = roundUp x.toNat a.toNat := by
  have hsum : (x + a - 1).toNat = x.toNat + a.toNat - 1 := by
    rw [UInt32.toNat_sub, UInt32.toNat_add]
    show (4294967296 - 1 + (x.toNat + a.toNat) % 4294967296) % 4294967296 = _
    omega
  have hle : (x.toNat + a.toNat - 1) / a.toNat * a.toNat ≤ x.toNat + a.toNat - 1 :=
    Nat.div_mul_le_self _ _
  rw [alignup, UInt32.toNat_mul, UInt32.toNat_div, hsum, roundUp]
  exact Nat.mod_eq_of_lt (by omega)

/-! ## What is wanted of the new section -/

/-- The sums for a section behind `sLast` stay below `2 ^ 32`. -/
structure NoOverflow (H : Image) (sLast : SectionHeader) (virtualSize : UInt32) : Prop where
  mapped : H.fileSize.toNat + virtualSize.toNat + H.fileAlignment.toNat ≤ 4294967296
  address : sLast.virtualAddress.toNat + sLast.virtualSize.toNat + H.sectionAlignment.toNat ≤
    4294967296
  image : roundUp (sLast.virtualAddress.toNat + sLast.virtualSize.toNat)
    H.sectionAlignment.toNat + virtualSize.toNat + H.sectionAlignment.toNat ≤ 4294967296

/-- The section that was appended to `H` is well formed: its data are in the mapping, behind the old
ones, and its addresses behind those of the other sections. -/
structure WellFormed (H : Image) (r : Appended) : Prop where
  pointer : H.fileAlignment.toNat ∣ r.sNew.pointerToRawData.toNat
  mapped : r.sNew.pointerToRawData.toNat + r.sNew.sizeOfRawData.toNat ≤ r.image.fileSize.toNat
  behind : Apart r.sNew.pointerToRawData.toNat r.sNew.sizeOfRawData.toNat 0 H.fileSize.toNat
  address : H.sectionAlignment.toNat ∣ r.sNew.virtualAddress.toNat
  disjoint : ∀ s ∈ H.sections, Apart s.virtualAddress.toNat s.virtualSize.toNat
    r.sNew.virtualAddress.toNat r.sNew.virtualSize.toNat
  covered : r.sNew.virtualAddress.toNat + r.sNew.virtualSize.toNat ≤ r.image.sizeOfImage.toNat

/-- The numbers of the new header, without overflow. -/
structure Numbers (H : Image) (sLast : SectionHeader) (virtualSize : UInt32) (r : Appended) :
    Prop where
  pointer : r.sNew.pointerToRawData = H.fileSize
  size : r.sNew.virtualSize = virtualSize
  mapped : r.image.fileSize.toNat =
    roundUp (H.fileSize.toNat + virtualSize.toNat) H.fileAlignment.toNat
  raw : r.sNew.sizeOfRawData.toNat = roundUp virtualSize.toNat H.fileAlignment.toNat
  address : r.sNew.virtualAddress.toNat =
    roundUp (sLast.virtualAddress.toNat + sLast.virtualSize.toNat) H.sectionAlignment.toNat
  image : r.image.sizeOfImage.toNat =
    roundUp (r.sNew.virtualAddress.toNat + virtualSize.toNat) H.sectionAlignment.toNat

section Numbers

variable {H : Image} {sLast : SectionHeader} {virtualSize : UInt32}

theorem appendSection_numbers (name : List UInt8) (characteristics : UInt32)
    (hlast : H.sections.getLast? = some sLast)
    (hfile : 0 < H.fileAlignment.toNat) (hsection : 0 < H.sectionAlignment.toNat)
    (hsums : NoOverflow H sLast virtualSize) :
    ∃ r, appendSection H name virtualSize characteristics = some r ∧
      Numbers H sLast virtualSize r := by
  have hmapped := hsums.mapped
  have haddress := hsums.address
  have himage := hsums.image
  have hdata : (H.fileSize + virtualSize).toNat = H.fileSize.toNat + virtualSize.toNat := by
    rw [UInt32.toNat_add]
    exact Nat.mod_eq_of_lt (by omega)
  have hlastEnd : (sLast.virtualAddress + sLast.virtualSize).toNat =
      sLast.virtualAddress.toNat + sLast.virtualSize.toNat := by
    rw [UInt32.toNat_add]
    exact Nat.mod_eq_of_lt (by omega)
  have hvirtual : (alignup (sLast.virtualAddress + sLast.virtualSize) H.sectionAlignment).toNat =
      roundUp (sLast.virtualAddress.toNat + sLast.virtualSize.toNat) H.sectionAlignment.toNat := by
    rw [toNat_alignup hsection (by omega), hlastEnd]
  have hend : (alignup (sLast.virtualAddress + sLast.virtualSize) H.sectionAlignment +
      virtualSize).toNat =
      (alignup (sLast.virtualAddress + sLast.virtualSize) H.sectionAlignment).toNat +
        virtualSize.toNat := by
    rw [UInt32.toNat_add, hvirtual]
    exact Nat.mod_eq_of_lt (by omega)
  simp only [appendSection, hlast, Option.some.injEq, exists_eq_left']
  constructor
  · rfl
  · rfl
  · show (alignup (H.fileSize + virtualSize) H.fileAlignment).toNat = _
    rw [toNat_alignup hfile (by omega), hdata]
  · exact toNat_alignup hfile (by omega)
  · exact hvirtual
  · show (alignup (alignup (sLast.virtualAddress + sLast.virtualSize) H.sectionAlignment +
      virtualSize) H.sectionAlignment).toNat = _
    rw [toNat_alignup hsection (by omega), hend]

end Numbers

/-- Each element of a list in order stands before the last one, or is it. -/
theorem rel_or_eq_getLast {α : Type} {R : α → α → Prop} {l : List α} {x y : α}
    (hlast : l.getLast? = some x) (hordered : l.Pairwise R) (hy : y ∈ l) : R y x ∨ y = x := by
  obtain ⟨init, hinit⟩ := List.getLast?_eq_some_iff.mp hlast
  rw [hinit, List.pairwise_append] at hordered
  rw [hinit, List.mem_append] at hy
  rcases hy with hy | hy
  · exact .inl (hordered.2.2 y hy x List.mem_cons_self)
  · exact .inr (List.mem_singleton.mp hy)

/-- No section of an ordered table starts behind the new one, so it has to end before it. -/
theorem disjoint_iff {H : Image} {sLast : SectionHeader} {virtualSize : UInt32} {r : Appended}
    (hlast : H.sections.getLast? = some sLast)
    (hordered : H.sections.Pairwise fun s t => s.virtualAddress ≤ t.virtualAddress)
    (hsection : 0 < H.sectionAlignment.toNat) (hr : Numbers H sLast virtualSize r) :
    (∀ s ∈ H.sections, Apart s.virtualAddress.toNat s.virtualSize.toNat
      r.sNew.virtualAddress.toNat r.sNew.virtualSize.toNat) ↔
      virtualSize = 0 ∨ ∀ s ∈ H.sections, s.virtualAddress.toNat + s.virtualSize.toNat ≤
        roundUp (sLast.virtualAddress.toNat + sLast.virtualSize.toNat)
          H.sectionAlignment.toNat := by
  have hbefore : ∀ s ∈ H.sections, s.virtualAddress.toNat ≤ sLast.virtualAddress.toNat := by
    intro s hs
    rcases rel_or_eq_getLast hlast hordered hs with hle | rfl
    · exact hle
    · exact Nat.le_refl _
  have hnext := le_roundUp hsection (sLast.virtualAddress.toNat + sLast.virtualSize.toNat)
  have hzero : virtualSize = 0 ↔ virtualSize.toNat = 0 := by
    rw [← UInt32.toNat_inj]
    rfl
  rw [hr.address, hr.size, hzero]
  constructor
  · intro hapart
    by_cases hsize : virtualSize.toNat = 0
    · exact Or.inl hsize
    · apply Or.inr
      intro s hs
      have hs' := hbefore s hs
      have hs'' := hapart s hs
      unfold Apart at hs''
      omega
  · rintro (hsize | hends) s hs
    · exact Or.inr (Or.inl hsize)
    · exact Or.inr (Or.inr (Or.inl (hends s hs)))

/-- The sections of a table whose ranges are in order all end before the new one. -/
theorem ends_before_new {H : Image} {sLast : SectionHeader} (hlast : H.sections.getLast? = some sLast)
    (hordered : H.sections.Pairwise fun s t =>
      s.virtualAddress.toNat + s.virtualSize.toNat ≤ t.virtualAddress.toNat)
    (hsection : 0 < H.sectionAlignment.toNat) :
    ∀ s ∈ H.sections, s.virtualAddress.toNat + s.virtualSize.toNat ≤
      roundUp (sLast.virtualAddress.toNat + sLast.virtualSize.toNat) H.sectionAlignment.toNat := by
  have hnext := le_roundUp hsection (sLast.virtualAddress.toNat + sLast.virtualSize.toNat)
  intro s hs
  rcases rel_or_eq_getLast hlast hordered hs with hend | rfl
  · omega
  · exact hnext

/-- The data of the new section are where they should be exactly if the file size was a multiple of
the alignment, and its addresses if no section reaches beyond the last one and the space up to the
next boundary. -/
theorem appendSection_wellFormed_iff {H : Image} {sLast : SectionHeader}
    (hlast : H.sections.getLast? = some sLast)
    (hordered : H.sections.Pairwise fun s t => s.virtualAddress ≤ t.virtualAddress)
    (hfile : ∃ k, H.fileAlignment.toNat = 2 ^ k) (hsection : ∃ k, H.sectionAlignment.toNat = 2 ^ k)
    (name : List UInt8) {virtualSize : UInt32} (characteristics : UInt32)
    (hsums : NoOverflow H sLast virtualSize) :
    ∃ r, appendSection H name virtualSize characteristics = some r ∧
      (WellFormed H r ↔ H.fileAlignment.toNat ∣ H.fileSize.toNat ∧
        (virtualSize = 0 ∨ ∀ s ∈ H.sections, s.virtualAddress.toNat + s.virtualSize.toNat ≤
          roundUp (sLast.virtualAddress.toNat + sLast.virtualSize.toNat)
            H.sectionAlignment.toNat)) := by
  have hfilePos : 0 < H.fileAlignment.toNat := by
    obtain ⟨k, hk⟩ := hfile
    rw [hk]
    exact Nat.two_pow_pos k
  have hsectionPos : 0 < H.sectionAlignment.toNat := by
    obtain ⟨k, hk⟩ := hsection
    rw [hk]
    exact Nat.two_pow_pos k
  obtain ⟨r, happend, hr⟩ :=
    appendSection_numbers name characteristics hlast hfilePos hsectionPos hsums
  refine ⟨r, happend, ?_⟩
  rw [← disjoint_iff hlast hordered hsectionPos hr]
  constructor
  · intro hwell
    have hpointer := hwell.pointer
    rw [hr.pointer] at hpointer
    exact ⟨hpointer, hwell.disjoint⟩
  · rintro ⟨haligned, hdisjoint⟩
    constructor
    · rw [hr.pointer]
      exact haligned
    · -- an aligned start moves the rounding to the size
      apply Nat.le_of_eq
      rw [hr.pointer, hr.raw, hr.mapped, roundUp_add_of_dvd hfilePos haligned]
    · rw [hr.pointer]
      unfold Apart
      omega
    · rw [hr.address]
      exact dvd_roundUp _ _
    · exact hdisjoint
    · rw [hr.image, hr.size]
      exact le_roundUp hsectionPos _

/-! ## One section at the start -/

/-- An executable with one section of code, of the given size. -/
def oneSection (fileSize : UInt32) : Image where
  fileSize := fileSize
  fileAlignment := 0x200
  sectionAlignment := 0x1000
  imageBase := 0x400000
  sizeOfImage := 0x2000
  sections := [⟨[0x2e, 0x74], 0x1000, 0x1000, 0x1000, 0x400, 0x60000020⟩]

theorem oneSection_wellFormed :
    ∃ r, appendSection (oneSection 0x1400) [0x2e, 0x70] 0x1001 0x60000020 = some r ∧
      WellFormed (oneSection 0x1400) r := by
  obtain ⟨r, happend, hiff⟩ := appendSection_wellFormed_iff (H := oneSection 0x1400) rfl (by decide)
    ⟨9, by decide⟩ ⟨12, by decide⟩ [0x2e, 0x70] 0x60000020
    (⟨by decide, by decide, by decide⟩ : NoOverflow (oneSection 0x1400) _ 0x1001)
  exact ⟨r, happend, hiff.mpr ⟨by decide, Or.inr (by decide)⟩⟩

/-- The file ends in the middle of a unit of the file alignment; the cleared bytes go beyond the
mapping. -/
theorem unaligned_not_wellFormed :
    ∃ r, appendSection (oneSection 0x1500) [0x2e, 0x70] 0x100 0x60000020 = some r ∧
      ¬WellFormed (oneSection 0x1500) r ∧ r.image.fileSize = 0x1600 ∧
      r.sNew.pointerToRawData + r.sNew.sizeOfRawData = 0x1700 := by
  refine ⟨_, rfl, ?_, by decide, by decide⟩
  intro hwell
  exact absurd hwell.pointer (by decide)

end Ra2yrcpp.Addscn
