import Ra2yrcpp.Reasoning.Splice

/-!
# Sections of the executable

The address mapping of `patch_gamemd.py`.  A section is looked up with the address right behind it
taken as its own, and `map_paddr` looks a file offset up among the virtual addresses.
-/

namespace Ra2yrcpp.PatchGamemd

open Reasoning

/-- The exceptions of the script. -/
inductive Error
  /-- `'NoneType' object has no attribute 'vaddr'`. -/
  | noSection
  /-- `assert r >= 0`. -/
  | negative
  /-- `assert e <= l`, with the message `l={l}, e={e}`. -/
  | outside (l e : Nat)
  /-- A size `None` that is added to an address. -/
  | noSize
  /-- `struct.pack` of a number that does not fit. -/
  | packed (n : Nat)
  /-- `'NoneType' object has no attribute 'groups'`. -/
  | noMatch
  /-- `bytearray.fromhex` of something else. -/
  | notHex
  /-- `invalid patch type: {ptype} {path}`. -/
  | patchType (ptype : Char) (path : List Char)
  /-- The file cannot be read. -/
  | unreadable
  deriving DecidableEq, Repr

structure Section where
  name : String
  size : Nat
  vaddr : Nat
  paddr : Nat
  deriving DecidableEq, Repr

/-! ## Lookup -/

/-- The address is in the section, or right behind it. -/
def Section.Reaches (s : Section) (vaddr : Nat) : Prop :=
  vaddr ≥ s.vaddr ∧ vaddr ≤ s.vaddr + s.size

instance (s : Section) (vaddr : Nat) : Decidable (s.Reaches vaddr) :=
  inferInstanceAs (Decidable (_ ∧ _))

/-- Locate the section containing the address. -/
def getSection (sections : List Section) (vaddr : Nat) : Option Section :=
  sections.find? fun s => decide (s.Reaches vaddr)

/-- Map virtual address to physical address. -/
def mapVaddr (sections : List Section) (vaddr : Nat) : Except Error Nat :=
  match getSection sections vaddr with
  | none => .error .noSection
  | some s =>
    let r : Int := s.paddr + ((vaddr : Int) - s.vaddr)
    if r ≥ 0 then .ok r.toNat else .error .negative

/-- Map physical address to virtual address. -/
def mapPaddr (sections : List Section) (paddr : Nat) : Except Error Nat :=
  match getSection sections paddr with
  | none => .error .noSection
  | some s =>
    let r : Int := ((paddr : Int) - s.paddr) + s.vaddr
    if r ≥ 0 then .ok r.toNat else .error .negative

theorem getSection_eq_some_iff {sections : List Section} {v : Nat} {t : Section} :
    getSection sections v = some t ↔
      t.Reaches v ∧ ∃ before after, sections = before ++ t :: after ∧
        ∀ u ∈ before, ¬u.Reaches v := by
  rw [getSection, List.find?_eq_some_iff_append]
  simp only [decide_eq_true_eq, Bool.not_eq_true', decide_eq_false_iff_not]

/-! ## The mapping -/

/-- The ranges of the sections, in memory and in the file, have no address in common. -/
structure WellPlaced (sections : List Section) : Prop where
  virtual : sections.Pairwise fun s t => Apart s.vaddr s.size t.vaddr t.size
  file : sections.Pairwise fun s t => Apart s.paddr s.size t.paddr t.size

/-- The address `v` of the section has the file offset of the section, and the file offset has the
address `v` again. -/
structure MapsBack (sections : List Section) (s : Section) (v : Nat) : Prop where
  toFile : mapVaddr sections v = .ok (s.paddr + (v - s.vaddr))
  undone : (mapVaddr sections v).bind (mapPaddr sections) = .ok v

theorem mapVaddr_of_getSection {sections : List Section} {v : Nat} {t : Section}
    (h : getSection sections v = some t) : mapVaddr sections v = .ok (t.paddr + (v - t.vaddr)) := by
  have hreach : t.Reaches v := (getSection_eq_some_iff.mp h).1
  have hle : t.vaddr ≤ v := hreach.1
  have hr : (t.paddr : Int) + ((v : Int) - t.vaddr) = ((t.paddr + (v - t.vaddr) : Nat) : Int) := by
    omega
  simp only [mapVaddr, h, hr]
  rw [if_pos (Int.natCast_nonneg _), Int.toNat_natCast]

theorem mapPaddr_eq_ok_iff {sections : List Section} {p v : Nat} :
    mapPaddr sections p = .ok v ↔
      ∃ t, getSection sections p = some t ∧ p + t.vaddr = v + t.paddr := by
  unfold mapPaddr
  cases h : getSection sections p with
  | none => simp
  | some t =>
    simp only [Option.some.injEq, exists_eq_left']
    split
    · rw [Except.ok.injEq]
      omega
    · simp only [reduceCtorEq, false_iff]
      omega

/-! ### Sections that touch -/

section Touching

variable {sections before after : List Section} {s t : Section} {v : Nat}

/-- An address of one section is reached by another one only at its end. -/
theorem reaches_iff_of_apart (h : Apart t.vaddr t.size s.vaddr s.size) (hlo : s.vaddr ≤ v)
    (hhi : v < s.vaddr + s.size) : t.Reaches v ↔ t.vaddr + t.size = v := by
  unfold Section.Reaches
  constructor
  · intro hreach
    have hout := apart_iff.mp h v hreach.1
    omega
  · omega

theorem WellPlaced.apart_of_before (h : WellPlaced sections)
    (heq : sections = before ++ t :: after) (hs : s ∈ after) :
    Apart t.vaddr t.size s.vaddr s.size ∧
      ∀ u ∈ before, Apart u.vaddr u.size s.vaddr s.size := by
  have hpair := h.virtual
  rw [heq, List.pairwise_append, List.pairwise_cons] at hpair
  constructor
  · exact hpair.2.1.1 s hs
  · intro u hu
    exact hpair.2.2 u hu s (List.mem_cons_of_mem t hs)

/-- The address is mapped by its section, unless a section that ends at it is listed before. -/
theorem mapVaddr_eq_iff (h : WellPlaced sections) (hs : s ∈ sections) (hlo : s.vaddr ≤ v)
    (hhi : v < s.vaddr + s.size) :
    mapVaddr sections v = .ok (s.paddr + (v - s.vaddr)) ↔
      ∀ before t after, sections = before ++ t :: after → s ∈ after →
        (∀ u ∈ before, u.vaddr + u.size ≠ v) → t.vaddr + t.size = v →
          t.paddr + t.size = s.paddr + (v - s.vaddr) := by
  constructor
  · intro hmap before t after heq hafter hbefore ht
    obtain ⟨hapart, hfirst⟩ := h.apart_of_before heq hafter
    have hget : getSection sections v = some t := by
      apply getSection_eq_some_iff.mpr
      refine ⟨(reaches_iff_of_apart hapart hlo hhi).mpr ht, before, after, heq, ?_⟩
      intro u hu hreach
      exact hbefore u hu ((reaches_iff_of_apart (hfirst u hu) hlo hhi).mp hreach)
    rw [mapVaddr_of_getSection hget, Except.ok.injEq] at hmap
    omega
  · intro hends
    have hreach : s.Reaches v := ⟨hlo, Nat.le_of_lt hhi⟩
    cases hget : getSection sections v with
    | none =>
      have hnone := List.find?_eq_none.mp hget s hs
      exact absurd (decide_eq_true hreach) hnone
    | some t =>
      obtain ⟨htreach, before, after, heq, hbefore⟩ := getSection_eq_some_iff.mp hget
      rw [mapVaddr_of_getSection hget, Except.ok.injEq]
      rw [heq, List.mem_append, List.mem_cons] at hs
      rcases hs with hs | rfl | hs
      · exact absurd hreach (hbefore s hs)
      · rfl
      · -- the section that was found ends at the address
        obtain ⟨hapart, hfirst⟩ := h.apart_of_before heq hs
        have ht := (reaches_iff_of_apart hapart hlo hhi).mp htreach
        have hbefore' : ∀ u ∈ before, u.vaddr + u.size ≠ v := by
          intro u hu hend
          exact hbefore u hu ((reaches_iff_of_apart (hfirst u hu) hlo hhi).mpr hend)
        have hoffset := hends before t after heq hs hbefore' ht
        omega

end Touching

/-- The mapping is right at an address of a section exactly if the first section listed before it
that ends at the address ends at its file offset, too, and the first section that the file offset
reaches, taken for a virtual address, is moved by the same distance. -/
theorem mapsBack_iff {sections : List Section} (h : WellPlaced sections) {s : Section}
    (hs : s ∈ sections) {v : Nat} (hlo : s.vaddr ≤ v) (hhi : v < s.vaddr + s.size) :
    MapsBack sections s v ↔
      (∀ before t after, sections = before ++ t :: after → s ∈ after →
        (∀ u ∈ before, u.vaddr + u.size ≠ v) → t.vaddr + t.size = v →
          t.paddr + t.size = s.paddr + (v - s.vaddr)) ∧
      ∃ before t after, sections = before ++ t :: after ∧
        (∀ u ∈ before, ¬u.Reaches (s.paddr + (v - s.vaddr))) ∧
        t.Reaches (s.paddr + (v - s.vaddr)) ∧
        s.paddr + (v - s.vaddr) + t.vaddr = v + t.paddr := by
  have hfound : (∃ before t after, sections = before ++ t :: after ∧
      (∀ u ∈ before, ¬u.Reaches (s.paddr + (v - s.vaddr))) ∧
      t.Reaches (s.paddr + (v - s.vaddr)) ∧ s.paddr + (v - s.vaddr) + t.vaddr = v + t.paddr) ↔
      mapPaddr sections (s.paddr + (v - s.vaddr)) = .ok v := by
    rw [mapPaddr_eq_ok_iff]
    simp only [getSection_eq_some_iff]
    grind
  rw [hfound, ← mapVaddr_eq_iff h hs hlo hhi]
  constructor
  · intro hmaps
    have hundone := hmaps.undone
    rw [hmaps.toFile] at hundone
    exact ⟨hmaps.toFile, hundone⟩
  · rintro ⟨hmap, hback⟩
    refine ⟨hmap, ?_⟩
    rw [hmap]
    exact hback

/-! ### Two sections that touch, and are apart in the file -/

def touching : List Section := [⟨".a", 0x1000, 0x1000, 0x400⟩, ⟨".b", 0x1000, 0x2000, 0x5000⟩]

theorem not_mapsBack_touching :
    WellPlaced touching ∧ ¬MapsBack touching ⟨".b", 0x1000, 0x2000, 0x5000⟩ 0x2000 := by
  have hwell : WellPlaced touching := ⟨by decide, by decide⟩
  refine ⟨hwell, ?_⟩
  intro hmaps
  -- the section listed first ends at the address
  have hfile : mapVaddr touching 0x2000 = .ok 0x1400 := by decide
  have hclaim := hmaps.toFile
  rw [hfile, Except.ok.injEq] at hclaim
  exact absurd hclaim (by decide)

/-- One section that lies in the file where it lies in memory. -/
theorem mapsBack_identity :
    MapsBack [⟨".a", 0x1000, 0x1000, 0x1000⟩] ⟨".a", 0x1000, 0x1000, 0x1000⟩ 0x1000 := by
  apply (mapsBack_iff ⟨by decide, by decide⟩ List.mem_cons_self (by decide) (by decide)).mpr
  constructor
  · intro before t after heq hs
    have hlength := congrArg List.length heq
    simp only [List.length_append, List.length_cons, List.length_nil] at hlength
    have hempty : after = [] := List.eq_nil_of_length_eq_zero (by omega)
    rw [hempty] at hs
    exact absurd hs List.not_mem_nil
  · exact ⟨[], ⟨".a", 0x1000, 0x1000, 0x1000⟩, [], rfl, by decide, by decide, by decide⟩

end Ra2yrcpp.PatchGamemd
