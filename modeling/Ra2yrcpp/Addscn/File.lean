import Mathlib
import Ra2yrcpp.Addscn
import Ra2yrcpp.Reasoning.Digits
import Ra2yrcpp.Reasoning.Fields

/-!
# The file of an executable

`addscn.cpp` on the bytes of a file: the headers are read from a view of the file and written to it.
What is written reads back as the headers of `appendSection`, and the rest of the file stays as it
was.
-/

namespace Ra2yrcpp.Addscn

open Reasoning

/-! ## Fields of the headers -/

abbrev View := Nat → UInt8

def word (m : View) (a : Nat) : UInt16 := UInt16.ofNat (loadField m a 2)

def dword (m : View) (a : Nat) : UInt32 := UInt32.ofNat (loadField m a 4)

def setWord (m : View) (a : Nat) (v : UInt16) : View := storeField m a 2 v.toNat

def setDword (m : View) (a : Nat) (v : UInt32) : View := storeField m a 4 v.toNat

/-- The offsets of `IMAGE_NT_HEADERS` and of the first section header. -/
structure ImageHeaders where
  nt : Nat
  first : Nat

def getHeaders (m : View) : ImageHeaders :=
  let nt := (dword m 0x3c).toNat
  ⟨nt, nt + 24 + (word m (nt + 20)).toNat⟩

def numberOfSections (m : View) (nt : Nat) : UInt16 := word m (nt + 6)

def imageBase (m : View) (nt : Nat) : UInt32 := dword m (nt + 52)

def sectionAlignment (m : View) (nt : Nat) : UInt32 := dword m (nt + 56)

def fileAlignment (m : View) (nt : Nat) : UInt32 := dword m (nt + 60)

def sizeOfImage (m : View) (nt : Nat) : UInt32 := dword m (nt + 80)

/-! ## `append_section` -/

/-- A file; the view shows its `size` bytes, and where it is extended what the new bytes are. -/
structure FileMapping where
  view : View
  size : Nat

/-- The header `s_new`, behind `s_last`. -/
def writeSection (m : View) (sNew : Nat) (name : List UInt8)
    (virtualSize characteristics fileAlignment sectionAlignment low : UInt32) : View :=
  let sLast := sNew - 40
  let m := write m sNew (List.replicate 40 0)
  let m := write m sNew (name.take 8)
  let m := setDword m (sNew + 8) virtualSize
  let m := setDword m (sNew + 12)
    (alignup (dword m (sLast + 12) + dword m (sLast + 8)) sectionAlignment)
  let m := setDword m (sNew + 16) (alignup virtualSize fileAlignment)
  let m := setDword m (sNew + 20) low
  setDword m (sNew + 36) characteristics

/-- `NumberOfSections` and `SizeOfImage`. -/
def writeCounts (m : View) (nt sNew : Nat) (numberOfSections : UInt16) (sectionAlignment : UInt32) :
    View :=
  let m := setWord m (nt + 6) (numberOfSections + 1)
  setDword m (nt + 80) (alignup (dword m (sNew + 12) + dword m (sNew + 8)) sectionAlignment)

/-- The second view of the file is where the first one was.  A header or new data outside of it are
an access violation. -/
def FileMapping.appendSection (F : FileMapping) (name : List UInt8)
    (virtualSize characteristics : UInt32) : Option (FileMapping × Line) :=
  let H := getHeaders F.view
  let fileAlignment := fileAlignment F.view H.nt
  let imageBase := imageBase F.view H.nt
  let low := UInt32.ofNat F.size
  let mapped := alignup (low + virtualSize) fileAlignment
  let numberOfSections := numberOfSections F.view H.nt
  let sectionAlignment := sectionAlignment F.view H.nt
  let sNew := H.first + 40 * numberOfSections.toNat
  let m :=
    writeSection F.view sNew name virtualSize characteristics fileAlignment sectionAlignment low
  let m := writeCounts m H.nt sNew numberOfSections sectionAlignment
  let pointerToRawData := (dword m (sNew + 20)).toNat
  let sizeOfRawData := (dword m (sNew + 16)).toNat
  if H.nt + 84 ≤ mapped.toNat ∧ 40 ≤ sNew ∧ sNew + 40 ≤ mapped.toNat ∧
      pointerToRawData + sizeOfRawData ≤ mapped.toNat then
    let m := write m pointerToRawData (List.replicate sizeOfRawData 0)
    some (⟨m, max F.size mapped.toNat⟩,
      ⟨name, virtualSize, dword m (sNew + 12) + imageBase, dword m (sNew + 20)⟩)
  else none

inductive Failure
  /-- `large files not supported`. -/
  | large
  /-- `bad PE file`. -/
  | badPE
  | accessViolation
  deriving DecidableEq, Repr

/-- `add_section` of a program for the i386. -/
def addSection (F : FileMapping) (name : List UInt8) (virtualSize characteristics : UInt32) :
    Except Failure (FileMapping × Line) :=
  let nt := (getHeaders F.view).nt
  if 4294967296 ≤ F.size then .error .large
  else if word F.view 0 ≠ 0x5a4d ∨ dword F.view nt ≠ 0x4550 ∨ word F.view (nt + 4) ≠ 0x14c then
    .error .badPE
  else
    match F.appendSection name virtualSize characteristics with
    | some r => .ok r
    | none => .error .accessViolation

/-! ## What the headers say -/

def sectionHeader (m : View) (a : Nat) : SectionHeader where
  name := (read m a 8).takeWhile (· ≠ 0)
  virtualSize := dword m (a + 8)
  virtualAddress := dword m (a + 12)
  sizeOfRawData := dword m (a + 16)
  pointerToRawData := dword m (a + 20)
  characteristics := dword m (a + 36)

def FileMapping.image (F : FileMapping) : Image :=
  let H := getHeaders F.view
  { fileSize := UInt32.ofNat F.size
    fileAlignment := fileAlignment F.view H.nt
    sectionAlignment := sectionAlignment F.view H.nt
    imageBase := imageBase F.view H.nt
    sizeOfImage := sizeOfImage F.view H.nt
    sections := (List.range (numberOfSections F.view H.nt).toNat).map fun i =>
      sectionHeader F.view (H.first + 40 * i) }

theorem toNat_fileSize {F : FileMapping} (h : F.size < 4294967296) :
    F.image.fileSize.toNat = F.size := by
  show (UInt32.ofNat F.size).toNat = F.size
  rw [UInt32.toNat_ofNat']
  exact Nat.mod_eq_of_lt h

/-! ## Fields that are written -/

section Fields

variable {m m' : View} {a b x : Nat} {bs : List UInt8}

theorem word_congr (h : ∀ x, a ≤ x → x < a + 2 → m x = m' x) : word m a = word m' a := by
  unfold word
  rw [loadField_congr h]

theorem dword_congr (h : ∀ x, a ≤ x → x < a + 4 → m x = m' x) : dword m a = dword m' a := by
  unfold dword
  rw [loadField_congr h]

theorem sectionHeader_congr (h : ∀ x, a ≤ x → x < a + 40 → m x = m' x) :
    sectionHeader m a = sectionHeader m' a := by
  have hfield : ∀ d, d + 4 ≤ 40 → dword m (a + d) = dword m' (a + d) :=
    fun d hd => dword_congr fun x hle hlt => h x (by omega) (by omega)
  unfold sectionHeader
  rw [read_congr fun x hle hlt => h x hle (by omega), hfield 8 (by decide), hfield 12 (by decide),
    hfield 16 (by decide), hfield 20 (by decide), hfield 36 (by decide)]

theorem read_add (m : View) (a k n : Nat) : read m a (k + n) = read m a k ++ read m (a + k) n := by
  unfold Reasoning.read
  rw [List.range_add, List.map_append, List.map_map]
  congr 2
  funext i
  exact congrArg m (Nat.add_assoc a k i).symm

theorem read_write_short {n : Nat} (h : bs.length ≤ n) :
    read (write m a bs) a n = bs ++ read m (a + bs.length) (n - bs.length) := by
  obtain ⟨k, rfl⟩ := Nat.exists_eq_add_of_le h
  rw [read_add, read_write_same, read_write_disjoint (.inl (Nat.le_refl _)),
    Nat.add_sub_cancel_left]

theorem read_write_zeros {k n : Nat} (hle : a ≤ b) (hlt : b + n ≤ a + k) :
    read (write m a (List.replicate k 0)) b n = List.replicate n 0 := by
  rw [List.eq_replicate_iff]
  refine ⟨length_read, fun c hc => ?_⟩
  obtain ⟨i, hi, rfl⟩ := List.mem_map.mp hc
  rw [List.mem_range] at hi
  have hat : b + i = a + (b + i - a) := by omega
  rw [hat, write_add (by rw [List.length_replicate]; omega), List.getElem_replicate]

@[simp] theorem word_setWord_same (m : View) (a : Nat) (v : UInt16) :
    word (setWord m a v) a = v := by
  unfold word setWord
  rw [loadField_store_same, Nat.mod_eq_of_lt (show v.toNat < 256 ^ 2 from v.toNat_lt),
    UInt16.ofNat_toNat]

@[simp] theorem dword_setDword_same (m : View) (a : Nat) (v : UInt32) :
    dword (setDword m a v) a = v := by
  unfold dword setDword
  rw [loadField_store_same, Nat.mod_eq_of_lt (show v.toNat < 256 ^ 4 from v.toNat_lt),
    UInt32.ofNat_toNat]

theorem dword_setDword (h : a + 4 ≤ b ∨ b + 4 ≤ a) (v : UInt32) :
    dword (setDword m a v) b = dword m b := by
  unfold dword setDword
  rw [loadField_store h]

theorem dword_setWord (h : a + 2 ≤ b ∨ b + 4 ≤ a) (v : UInt16) :
    dword (setWord m a v) b = dword m b := by
  unfold dword setWord
  rw [loadField_store h]

theorem word_setDword (h : a + 4 ≤ b ∨ b + 2 ≤ a) (v : UInt32) :
    word (setDword m a v) b = word m b := by
  unfold word setDword
  rw [loadField_store h]

theorem dword_write (h : a + bs.length ≤ b ∨ b + 4 ≤ a) : dword (write m a bs) b = dword m b := by
  unfold dword
  rw [loadField_write h]

theorem setDword_of_outside (h : ¬(a ≤ x ∧ x < a + 4)) (v : UInt32) : setDword m a v x = m x :=
  storeField_of_outside h

theorem setWord_of_outside (h : ¬(a ≤ x ∧ x < a + 2)) (v : UInt16) : setWord m a v x = m x :=
  storeField_of_outside h

end Fields

section Written

variable {m : View} {nt sNew x : Nat} {name : List UInt8}
  {virtualSize characteristics fileAlignment sectionAlignment low : UInt32} {n : UInt16}

theorem writeSection_of_outside (hx : ¬(sNew ≤ x ∧ x < sNew + 40)) :
    writeSection m sNew name virtualSize characteristics fileAlignment sectionAlignment low x =
      m x := by
  have hname : (name.take 8).length ≤ 8 := List.length_take_le 8 name
  unfold writeSection
  rw [setDword_of_outside (by omega), setDword_of_outside (by omega),
    setDword_of_outside (by omega), setDword_of_outside (by omega),
    setDword_of_outside (by omega), write_of_outside (by omega), write_of_outside]
  rw [List.length_replicate]
  exact hx

theorem read_writeSection (hname : ∀ c ∈ name, c ≠ 0) :
    (read (writeSection m sNew name virtualSize characteristics fileAlignment sectionAlignment low)
      sNew 8).takeWhile (· ≠ 0) = name.take 8 := by
  have hlength : (name.take 8).length ≤ 8 := List.length_take_le 8 name
  have hread : read (writeSection m sNew name virtualSize characteristics fileAlignment
      sectionAlignment low) sNew 8 =
        name.take 8 ++ List.replicate (8 - (name.take 8).length) 0 := by
    have hstart : read (writeSection m sNew name virtualSize characteristics fileAlignment
        sectionAlignment low) sNew 8 =
          read (write (write m sNew (List.replicate 40 0)) sNew (name.take 8)) sNew 8 := by
      apply read_congr
      intro x hle hlt
      unfold writeSection
      rw [setDword_of_outside (by omega), setDword_of_outside (by omega),
        setDword_of_outside (by omega), setDword_of_outside (by omega),
        setDword_of_outside (by omega)]
    rw [hstart, read_write_short hlength, read_write_zeros (by omega) (by omega)]
  have hnonzero : ∀ c ∈ name.take 8, (fun c : UInt8 => decide (c ≠ 0)) c = true := by
    intro c hc
    exact decide_eq_true (hname c (List.mem_of_mem_take hc))
  rw [hread]
  cases hrest : 8 - (name.take 8).length with
  | zero =>
    rw [List.replicate_zero, List.append_nil]
    exact takeWhile_all hnonzero
  | succ k => exact takeWhile_run hnonzero rfl

theorem sectionHeader_writeSection (hsNew : 40 ≤ sNew) (hname : ∀ c ∈ name, c ≠ 0) :
    sectionHeader
        (writeSection m sNew name virtualSize characteristics fileAlignment sectionAlignment low)
        sNew =
      { name := name.take 8
        virtualSize := virtualSize
        virtualAddress :=
          alignup (dword m (sNew - 40 + 12) + dword m (sNew - 40 + 8)) sectionAlignment
        sizeOfRawData := alignup virtualSize fileAlignment
        pointerToRawData := low
        characteristics := characteristics } := by
  have hlength : (name.take 8).length ≤ 8 := List.length_take_le 8 name
  have hzero : (List.replicate 40 (0 : UInt8)).length = 40 := List.length_replicate
  unfold sectionHeader
  rw [read_writeSection hname]
  unfold writeSection
  simp (disch := omega) only [dword_setDword_same, dword_setDword, dword_write]

theorem writeCounts_of_outside (hnumber : ¬(nt + 6 ≤ x ∧ x < nt + 8))
    (hsize : ¬(nt + 80 ≤ x ∧ x < nt + 84)) : writeCounts m nt sNew n sectionAlignment x = m x := by
  unfold writeCounts
  rw [setDword_of_outside (by omega), setWord_of_outside (by omega)]

end Written

/-! ## One more section -/

/-- There is room for `k` more headers in front of the end of the file, and the fields do not
overlap. -/
structure Room (F : FileMapping) (k : Nat) : Prop where
  dos : 64 ≤ (getHeaders F.view).nt
  optional : (getHeaders F.view).nt + 84 ≤ (getHeaders F.view).first
  headers : (getHeaders F.view).first +
    40 * ((numberOfSections F.view (getHeaders F.view).nt).toNat + k) ≤ F.size
  count : (numberOfSections F.view (getHeaders F.view).nt).toNat + k < 65536
  size : F.size < 4294967296

/-- The byte belongs to the counts or to the header of one more section. -/
def FileMapping.HeaderByte (F : FileMapping) (k x : Nat) : Prop :=
  let H := getHeaders F.view
  let sNew := H.first + 40 * (numberOfSections F.view H.nt).toNat
  (H.nt + 6 ≤ x ∧ x < H.nt + 8) ∨ (H.nt + 80 ≤ x ∧ x < H.nt + 84) ∨
    (sNew ≤ x ∧ x < sNew + 40 * k)

/-- Sections were appended to `F`: only header bytes of the old contents have changed, and what is
behind them is zero. -/
structure Extends (F F' : FileMapping) (k : Nat) : Prop where
  size : F.size ≤ F'.size
  kept : ∀ x < F.size, ¬F.HeaderByte k x → F'.view x = F.view x
  zero : ∀ x, F.size ≤ x → x < F'.size → F'.view x = 0

/-- The view with the headers of the new section. -/
def FileMapping.newHeaders (F : FileMapping) (name : List UInt8)
    (virtualSize characteristics : UInt32) : View :=
  let H := getHeaders F.view
  let n := numberOfSections F.view H.nt
  let sNew := H.first + 40 * n.toNat
  writeCounts (writeSection F.view sNew name virtualSize characteristics (fileAlignment F.view H.nt)
    (sectionAlignment F.view H.nt) (UInt32.ofNat F.size)) H.nt sNew n (sectionAlignment F.view H.nt)

section Append

variable {F : FileMapping} {name : List UInt8} {virtualSize characteristics : UInt32}
  {sLast : SectionHeader} {k : Nat} {r : Appended}

theorem newHeaders_of_not_headerByte {x : Nat} (hx : ¬F.HeaderByte 1 x) :
    F.newHeaders name virtualSize characteristics x = F.view x := by
  unfold FileMapping.HeaderByte at hx
  unfold FileMapping.newHeaders
  rw [writeCounts_of_outside (by omega) (by omega), writeSection_of_outside (by omega)]

theorem getLast_image (hlast : F.image.sections.getLast? = some sLast) :
    0 < (numberOfSections F.view (getHeaders F.view).nt).toNat ∧
      sLast = sectionHeader F.view ((getHeaders F.view).first +
        40 * (numberOfSections F.view (getHeaders F.view).nt).toNat - 40) := by
  have hsections : F.image.sections = (List.range
      (numberOfSections F.view (getHeaders F.view).nt).toNat).map fun i =>
        sectionHeader F.view ((getHeaders F.view).first + 40 * i) := rfl
  rw [hsections] at hlast
  generalize (numberOfSections F.view (getHeaders F.view).nt).toNat = n at hlast ⊢
  cases n with
  | zero => cases hlast
  | succ n =>
    rw [List.range_succ, List.map_append, List.getLast?_append, List.map_singleton] at hlast
    refine ⟨Nat.succ_pos n, (Option.some.inj hlast).symm.trans ?_⟩
    congr 1

/-- The header that is written is the one of `appendSection`. -/
theorem sectionHeader_newHeaders (hroom : Room F (k + 1)) (hname : ∀ c ∈ name, c ≠ 0)
    (hlast : F.image.sections.getLast? = some sLast)
    (happend : appendSection F.image name virtualSize characteristics = some r) :
    sectionHeader (F.newHeaders name virtualSize characteristics) ((getHeaders F.view).first +
      40 * (numberOfSections F.view (getHeaders F.view).nt).toNat) = r.sNew := by
  obtain ⟨hpos, rfl⟩ := getLast_image hlast
  have hoptional := hroom.optional
  unfold appendSection at happend
  rw [hlast] at happend
  obtain rfl := Option.some.inj happend
  unfold FileMapping.newHeaders
  rw [sectionHeader_congr fun x hle hlt => writeCounts_of_outside (by omega) (by omega)]
  exact sectionHeader_writeSection (by omega) hname

theorem numberOfSections_newHeaders (F : FileMapping) (name : List UInt8)
    (virtualSize characteristics : UInt32) :
    numberOfSections (F.newHeaders name virtualSize characteristics) (getHeaders F.view).nt =
      numberOfSections F.view (getHeaders F.view).nt + 1 := by
  unfold numberOfSections FileMapping.newHeaders writeCounts
  rw [word_setDword (by omega), word_setWord_same]
  rfl

theorem sizeOfImage_newHeaders (hroom : Room F (k + 1)) (hname : ∀ c ∈ name, c ≠ 0)
    (hlast : F.image.sections.getLast? = some sLast)
    (happend : appendSection F.image name virtualSize characteristics = some r) :
    sizeOfImage (F.newHeaders name virtualSize characteristics) (getHeaders F.view).nt =
      r.image.sizeOfImage := by
  have hoptional := hroom.optional
  have hheader := sectionHeader_newHeaders hroom hname hlast happend
  have haddress := congrArg SectionHeader.virtualAddress hheader
  have hsize := congrArg SectionHeader.virtualSize hheader
  unfold sectionHeader FileMapping.newHeaders writeCounts at haddress hsize
  simp (disch := omega) only [dword_setDword, dword_setWord] at haddress hsize
  unfold sizeOfImage FileMapping.newHeaders writeCounts
  rw [dword_setDword_same, dword_setWord (by omega), dword_setWord (by omega), haddress, hsize]
  unfold appendSection at happend
  rw [hlast] at happend
  obtain rfl := Option.some.inj happend
  rfl

/-- The headers of a view in which only the bytes of the new header have changed. -/
theorem image_of_view {F' : FileMapping} (hroom : Room F (k + 1))
    (hview : ∀ x < F.size, F'.view x = F.newHeaders name virtualSize characteristics x)
    (hname : ∀ c ∈ name, c ≠ 0) (hlast : F.image.sections.getLast? = some sLast)
    (happend : appendSection F.image name virtualSize characteristics = some r)
    (hsize : UInt32.ofNat F'.size = r.image.fileSize) :
    F'.image = r.image ∧ getHeaders F'.view = getHeaders F.view := by
  have hdos := hroom.dos
  have hoptional := hroom.optional
  have hheaders := hroom.headers
  have hcount := hroom.count
  have hold : ∀ x < F.size, ¬F.HeaderByte 1 x → F'.view x = F.view x :=
    fun x hx hbyte => (hview x hx).trans (newHeaders_of_not_headerByte hbyte)
  unfold FileMapping.HeaderByte at hold
  -- the fields that lead to the headers are not written
  have hget : getHeaders F'.view = getHeaders F.view := by
    have hnt : dword F'.view 0x3c = dword F.view 0x3c :=
      dword_congr fun x hle hlt => hold x (by omega) (by omega)
    have hoptional' : word F'.view ((getHeaders F.view).nt + 20) =
        word F.view ((getHeaders F.view).nt + 20) :=
      word_congr fun x hle hlt => hold x (by omega) (by omega)
    unfold getHeaders at hoptional' ⊢
    rw [hnt]
    dsimp only at hoptional' ⊢
    rw [hoptional']
  have hfield : ∀ d, d + 4 ≤ 80 → 24 ≤ d → dword F'.view ((getHeaders F.view).nt + d) =
      dword F.view ((getHeaders F.view).nt + d) :=
    fun d hd hle => dword_congr fun x hle hlt => hold x (by omega) (by omega)
  have hnumber : numberOfSections F'.view (getHeaders F.view).nt =
      numberOfSections F.view (getHeaders F.view).nt + 1 := by
    rw [← numberOfSections_newHeaders F name virtualSize characteristics]
    exact word_congr fun x hle hlt => hview x (by omega)
  have hsizeOfImage : sizeOfImage F'.view (getHeaders F.view).nt = r.image.sizeOfImage := by
    rw [← sizeOfImage_newHeaders hroom hname hlast happend]
    exact dword_congr fun x hle hlt => hview x (by omega)
  have hsections :
      ((List.range (numberOfSections F'.view (getHeaders F.view).nt).toNat).map fun i =>
        sectionHeader F'.view ((getHeaders F.view).first + 40 * i)) =
      F.image.sections ++ [r.sNew] := by
    have hsucc : (numberOfSections F.view (getHeaders F.view).nt + 1).toNat =
        (numberOfSections F.view (getHeaders F.view).nt).toNat + 1 := by
      rw [UInt16.toNat_add]
      exact Nat.mod_eq_of_lt (by show _ + 1 < 65536; omega)
    rw [hnumber, hsucc, List.range_succ, List.map_append, List.map_singleton,
      ← sectionHeader_newHeaders hroom hname hlast happend]
    congr 1
    -- the headers before the new one, and the new one
    · apply List.map_congr_left
      intro i hi
      rw [List.mem_range] at hi
      exact sectionHeader_congr fun x hle hlt => hold x (by omega) (by omega)
    · exact congrArg (fun h => [h]) (sectionHeader_congr fun x hle hlt => hview x (by omega))
  have himage : r.image =
      { F.image with
        fileSize := r.image.fileSize
        sections := F.image.sections ++ [r.sNew]
        sizeOfImage := r.image.sizeOfImage } := by
    unfold appendSection at happend
    rw [hlast] at happend
    obtain rfl := Option.some.inj happend
    rfl
  refine ⟨?_, hget⟩
  rw [himage, ← hsections, ← hsizeOfImage, ← hsize]
  unfold FileMapping.image
  rw [hget]
  unfold fileAlignment sectionAlignment imageBase
  dsimp only
  rw [hfield 60 (by decide) (by decide), hfield 56 (by decide) (by decide),
    hfield 52 (by decide) (by decide)]

/-- What is appended, on an aligned file: the headers are those of `appendSection`, and the new data
are zero. -/
theorem appendSection_file (hroom : Room F (k + 1)) (hname : ∀ c ∈ name, c ≠ 0)
    (hlast : F.image.sections.getLast? = some sLast)
    (hfile : 0 < F.image.fileAlignment.toNat) (hsection : 0 < F.image.sectionAlignment.toNat)
    (haligned : F.image.fileAlignment.toNat ∣ F.size)
    (hsums : NoOverflow F.image sLast virtualSize) :
    ∃ F' r, F.appendSection name virtualSize characteristics = some (F', r.line) ∧
      appendSection F.image name virtualSize characteristics = some r ∧
      Numbers F.image sLast virtualSize r ∧
      F'.image = r.image ∧ getHeaders F'.view = getHeaders F.view ∧
      F'.size = F.size + roundUp virtualSize.toNat F.image.fileAlignment.toNat ∧
      Extends F F' 1 := by
  obtain ⟨r, happend, hnumbers⟩ :=
    appendSection_numbers name characteristics hlast hfile hsection hsums
  have hsize := hroom.size
  have hoptional := hroom.optional
  have hheaders := hroom.headers
  have hlow := toNat_fileSize hsize
  have hmapped : r.image.fileSize.toNat =
      F.size + roundUp virtualSize.toNat F.image.fileAlignment.toNat := by
    rw [hnumbers.mapped, hlow, roundUp_add_of_dvd hfile haligned]
  have hheader := sectionHeader_newHeaders hroom hname hlast happend
  have hpointer := congrArg SectionHeader.pointerToRawData hheader
  have hraw := congrArg SectionHeader.sizeOfRawData hheader
  have haddress := congrArg SectionHeader.virtualAddress hheader
  rw [hnumbers.pointer] at hpointer
  obtain ⟨hfileSize, hline⟩ : r.image.fileSize =
        alignup (F.image.fileSize + virtualSize) F.image.fileAlignment ∧
      r.line = ⟨name, virtualSize, r.sNew.virtualAddress + F.image.imageBase,
        r.sNew.pointerToRawData⟩ := by
    unfold appendSection at happend
    rw [hlast] at happend
    obtain rfl := Option.some.inj happend
    exact ⟨rfl, rfl⟩
  let F' : FileMapping :=
    ⟨write (F.newHeaders name virtualSize characteristics) F.size
      (List.replicate r.sNew.sizeOfRawData.toNat 0), r.image.fileSize.toNat⟩
  have hview : ∀ x < F.size, F'.view x = F.newHeaders name virtualSize characteristics x :=
    fun x hx => write_of_lt hx
  have hlength : (List.replicate r.sNew.sizeOfRawData.toNat (0 : UInt8)).length =
      roundUp virtualSize.toNat F.image.fileAlignment.toNat := by
    rw [List.length_replicate, hnumbers.raw]
  obtain ⟨himage, hget⟩ := image_of_view hroom hview hname hlast happend
    (show UInt32.ofNat r.image.fileSize.toNat = _ from UInt32.ofNat_toNat)
  have hrun : F.appendSection name virtualSize characteristics = some (F', r.line) := by
    let nh := F.newHeaders name virtualSize characteristics
    let sNew := (getHeaders F.view).first +
      40 * (numberOfSections F.view (getHeaders F.view).nt).toNat
    have hptr : dword nh (sNew + 20) = F.image.fileSize := hpointer
    have hsz : dword nh (sNew + 16) = r.sNew.sizeOfRawData := hraw
    -- the new data do not reach the header, so it reads back from the file
    have hread : ∀ d, d + 4 ≤ 40 → dword F'.view (sNew + d) = dword nh (sNew + d) :=
      fun d hd => dword_congr fun x hle hlt => hview x (by omega)
    have hva : dword F'.view (sNew + 12) = r.sNew.virtualAddress :=
      (hread 12 (by decide)).trans haddress
    have hptr' : dword F'.view (sNew + 20) = r.sNew.pointerToRawData :=
      (hread 20 (by decide)).trans (hptr.trans hnumbers.pointer.symm)
    -- neither the headers nor the new data are outside of the second view
    have hinside : (getHeaders F.view).nt + 84 ≤ r.image.fileSize.toNat ∧ 40 ≤ sNew ∧
        sNew + 40 ≤ r.image.fileSize.toNat ∧
        (dword nh (sNew + 20)).toNat + (dword nh (sNew + 16)).toNat ≤ r.image.fileSize.toNat := by
      rw [hptr, hsz, hlow, hnumbers.raw]
      omega
    have hmax : max F.size r.image.fileSize.toNat = r.image.fileSize.toNat := by omega
    rw [hfileSize] at hinside hmax
    refine (if_pos hinside).trans ?_
    show some (FileMapping.mk (write nh (dword nh (sNew + 20)).toNat
      (List.replicate (dword nh (sNew + 16)).toNat 0)) (max F.size (alignup _ _).toNat),
        Line.mk name virtualSize
          (dword (write nh (dword nh (sNew + 20)).toNat
            (List.replicate (dword nh (sNew + 16)).toNat 0)) (sNew + 12) + F.image.imageBase)
          (dword (write nh (dword nh (sNew + 20)).toNat
            (List.replicate (dword nh (sNew + 16)).toNat 0)) (sNew + 20))) = _
    rw [hptr, hsz, hlow]
    show some (FileMapping.mk F'.view
        (max F.size (alignup (F.image.fileSize + virtualSize) F.image.fileAlignment).toNat),
      Line.mk name virtualSize (dword F'.view (sNew + 12) + F.image.imageBase)
        (dword F'.view (sNew + 20))) = _
    rw [hva, hptr', hline, hmax, ← hfileSize]
  refine ⟨F', r, hrun, happend, hnumbers, himage, hget, hmapped, ?_, fun x hx hbyte => ?_, ?_⟩
  · show F.size ≤ r.image.fileSize.toNat
    omega
  · rw [hview x hx, newHeaders_of_not_headerByte hbyte]
  · intro x hle hlt
    have hlt' : x < r.image.fileSize.toNat := hlt
    have hx : x = F.size + (x - F.size) := by omega
    show write _ F.size _ x = 0
    rw [hx, write_add (by omega), List.getElem_replicate]

end Append

/-! ## One section after the other -/

/-- The arguments of one run of the program, behind the path. -/
structure Request where
  name : List UInt8
  virtualSize : UInt32
  characteristics : UInt32

/-- The program, run once for each request. -/
def addSections : List Request → FileMapping → Except Failure (FileMapping × List Line)
  | [], F => .ok (F, [])
  | q :: qs, F => do
    let (F, line) ← addSection F q.name q.virtualSize q.characteristics
    let (F, lines) ← addSections qs F
    return (F, line :: lines)

def SectionHeader.stop (s : SectionHeader) : Nat := s.virtualAddress.toNat + s.virtualSize.toNat

/-- An executable whose sections are in the order of their addresses and which ends at a boundary of
its file alignment. -/
structure Valid (F : FileMapping) : Prop where
  magic : word F.view 0 = 0x5a4d
  signature : dword F.view (getHeaders F.view).nt = 0x4550
  machine : word F.view ((getHeaders F.view).nt + 4) = 0x14c
  nonempty : F.image.sections ≠ []
  ordered : F.image.sections.Pairwise fun s t => s.stop ≤ t.virtualAddress.toNat
  covered : ∀ s ∈ F.image.sections, s.stop ≤ F.image.sizeOfImage.toNat
  fileAlignment : 0 < F.image.fileAlignment.toNat
  sectionAlignment : 0 < F.image.sectionAlignment.toNat
  aligned : F.image.fileAlignment.toNat ∣ F.size

/-- The requested sections stay below `2 ^ 32`, in the file and in memory. -/
structure Fits (F : FileMapping) (qs : List Request) : Prop where
  name : ∀ q ∈ qs, ∀ c ∈ q.name, c ≠ 0
  file : F.size +
    (qs.map fun q => q.virtualSize.toNat + F.image.fileAlignment.toNat).sum ≤ 4294967296
  memory : ∀ s ∈ F.image.sections, s.stop +
    (qs.map fun q => q.virtualSize.toNat + 2 * F.image.sectionAlignment.toNat).sum ≤ 4294967296

/-- The header that a request has led to, and the line that was printed. -/
structure Answers (imageBase : UInt32) (q : Request) (s : SectionHeader) (line : Line) : Prop where
  name : s.name = q.name.take 8
  size : s.virtualSize = q.virtualSize
  characteristics : s.characteristics = q.characteristics
  raw : q.virtualSize.toNat ≤ s.sizeOfRawData.toNat
  line : line = ⟨q.name, s.virtualSize, s.virtualAddress + imageBase, s.pointerToRawData⟩

/-- The requested sections follow the old ones, and their data follow the old contents. -/
structure Added (F F' : FileMapping) (qs : List Request) (added : List (SectionHeader × Line)) :
    Prop where
  sections : F'.image.sections = F.image.sections ++ added.map Prod.fst
  answers : List.Forall₂ (fun q a => Answers F.image.imageBase q a.1 a.2) qs added
  data : ∀ a ∈ added, F.size ≤ a.1.pointerToRawData.toNat ∧
    a.1.pointerToRawData.toNat + a.1.sizeOfRawData.toNat ≤ F'.size
  apart : added.Pairwise fun a b =>
    a.1.pointerToRawData.toNat + a.1.sizeOfRawData.toNat ≤ b.1.pointerToRawData.toNat
  extended : Extends F F' qs.length

section Runs

variable {F F' : FileMapping} {k : Nat} {q : Request} {qs : List Request}

theorem length_sections : F.image.sections.length =
    (numberOfSections F.view (getHeaders F.view).nt).toNat := by
  show (List.map _ (List.range _)).length = _
  rw [List.length_map, List.length_range]

theorem roundUp_le (x a : Nat) : roundUp x a ≤ x + a - 1 := Nat.div_mul_le_self _ _

/-- What is as it was before, and the new header. -/
theorem appendSection_fields {H : Image} {name : List UInt8} {virtualSize characteristics : UInt32}
    {r : Appended} (h : appendSection H name virtualSize characteristics = some r) :
    r.image.sections = H.sections ++ [r.sNew] ∧ r.image.fileAlignment = H.fileAlignment ∧
      r.image.sectionAlignment = H.sectionAlignment ∧ r.image.imageBase = H.imageBase ∧
      r.sNew.name = name.take 8 ∧ r.sNew.characteristics = characteristics ∧
      r.line = ⟨name, r.sNew.virtualSize, r.sNew.virtualAddress + H.imageBase,
        r.sNew.pointerToRawData⟩ := by
  unfold appendSection at h
  cases hlast : H.sections.getLast? with
  | none =>
    rw [hlast] at h
    cases h
  | some sLast =>
    rw [hlast] at h
    obtain rfl := Option.some.inj h
    exact ⟨rfl, rfl, rfl, rfl, rfl, rfl, rfl⟩

theorem Fits.noOverflow {sLast : SectionHeader} (h : Fits F (q :: qs)) (hsize : F.size < 4294967296)
    (hlast : F.image.sections.getLast? = some sLast) :
    NoOverflow F.image sLast q.virtualSize := by
  have hfile := h.file
  have hmemory := h.memory sLast (List.mem_of_getLast? hlast)
  rw [List.map_cons, List.sum_cons] at hfile hmemory
  unfold SectionHeader.stop at hmemory
  have hround := roundUp_le (sLast.virtualAddress.toNat + sLast.virtualSize.toNat)
    F.image.sectionAlignment.toNat
  have hlow := toNat_fileSize hsize
  constructor
  · omega
  · omega
  · omega

theorem addSection_eq (hvalid : Valid F) (hsize : F.size < 4294967296) {r : FileMapping × Line}
    (happend : F.appendSection q.name q.virtualSize q.characteristics = some r) :
    addSection F q.name q.virtualSize q.characteristics = .ok r := by
  unfold addSection
  dsimp only
  rw [if_neg (Nat.not_le_of_lt hsize), hvalid.magic, hvalid.signature, hvalid.machine,
    if_neg (by simp), happend]

/-- What a request changes: `s` is the header of the new section. -/
structure Next (F F' : FileMapping) (q : Request) (s : SectionHeader) : Prop where
  headers : getHeaders F'.view = getHeaders F.view
  sections : F'.image.sections = F.image.sections ++ [s]
  fileAlignment : F'.image.fileAlignment = F.image.fileAlignment
  sectionAlignment : F'.image.sectionAlignment = F.image.sectionAlignment
  imageBase : F'.image.imageBase = F.image.imageBase
  sizeOfImage : s.stop ≤ F'.image.sizeOfImage.toNat
  before : ∀ t ∈ F.image.sections, t.stop ≤ s.virtualAddress.toNat
  aligned : F.image.sectionAlignment.toNat ∣ s.virtualAddress.toNat
  near : ∃ t ∈ F.image.sections,
    s.stop ≤ t.stop + F.image.sectionAlignment.toNat + q.virtualSize.toNat
  pointer : s.pointerToRawData.toNat = F.size
  raw : s.sizeOfRawData.toNat = roundUp q.virtualSize.toNat F.image.fileAlignment.toNat
  size : F'.size = F.size + roundUp q.virtualSize.toNat F.image.fileAlignment.toNat
  extended : Extends F F' 1

theorem addSection_next (hvalid : Valid F) (hroom : Room F (k + 1)) (hfits : Fits F (q :: qs)) :
    ∃ F' s line, addSection F q.name q.virtualSize q.characteristics = .ok (F', line) ∧
      Next F F' q s ∧ Answers F.image.imageBase q s line := by
  obtain ⟨sLast, hlast⟩ : ∃ sLast, F.image.sections.getLast? = some sLast := by
    rw [← Option.isSome_iff_exists, List.getLast?_isSome]
    exact hvalid.nonempty
  have hname := hfits.name q List.mem_cons_self
  have hsize := hroom.size
  obtain ⟨F', r, hrun, happend, hnumbers, himage, hget, hsize', hextends⟩ :=
    appendSection_file hroom hname hlast hvalid.fileAlignment hvalid.sectionAlignment hvalid.aligned
      (hfits.noOverflow hsize hlast)
  obtain ⟨hsections, hfa, hsa, hbase, hnew, hcharacteristics, hline⟩ := appendSection_fields happend
  have hbefore := ends_before_new hlast hvalid.ordered hvalid.sectionAlignment
  have hround := roundUp_le (sLast.virtualAddress.toNat + sLast.virtualSize.toNat)
    F.image.sectionAlignment.toNat
  have hlow := toNat_fileSize hsize
  rw [← hnumbers.address] at hbefore hround
  rw [← himage] at hsections hfa hsa hbase
  refine ⟨F', r.sNew, r.line, addSection_eq hvalid hsize hrun,
    ⟨hget, hsections, hfa, hsa, hbase, ?_, hbefore, ?_, ⟨sLast, List.mem_of_getLast? hlast, ?_⟩, ?_,
      hnumbers.raw, hsize', hextends⟩, ⟨hnew, hnumbers.size, hcharacteristics, ?_, hline⟩⟩
  · unfold SectionHeader.stop
    rw [himage, hnumbers.image, hnumbers.size]
    exact le_roundUp hvalid.sectionAlignment _
  · rw [hnumbers.address]
    exact dvd_roundUp _ _
  · unfold SectionHeader.stop
    rw [hnumbers.size]
    omega
  · rw [hnumbers.pointer, hlow]
  · rw [hnumbers.raw]
    exact le_roundUp hvalid.fileAlignment _

section Next

variable {s : SectionHeader}

theorem Valid.next (hvalid : Valid F) (hroom : Room F (k + 1)) (h : Next F F' q s) : Valid F' := by
  have hdos := hroom.dos
  have hoptional := hroom.optional
  have hheaders := hroom.headers
  have hkept := h.extended.kept
  unfold FileMapping.HeaderByte at hkept
  constructor
  · rw [← hvalid.magic]
    exact word_congr fun x hle hlt => hkept x (by omega) (by omega)
  · rw [h.headers, ← hvalid.signature]
    exact dword_congr fun x hle hlt => hkept x (by omega) (by omega)
  · rw [h.headers, ← hvalid.machine]
    exact word_congr fun x hle hlt => hkept x (by omega) (by omega)
  · rw [h.sections]
    exact List.append_ne_nil_of_right_ne_nil _ (List.cons_ne_nil _ _)
  · rw [h.sections, List.pairwise_append]
    refine ⟨hvalid.ordered, List.pairwise_singleton _ _, fun t ht u hu => ?_⟩
    rw [List.mem_singleton.mp hu]
    exact h.before t ht
  · intro t ht
    rw [h.sections, List.mem_append] at ht
    rcases ht with ht | ht
    · exact Nat.le_trans (h.before t ht) (Nat.le_trans (Nat.le_add_right _ _) h.sizeOfImage)
    · rw [List.mem_singleton.mp ht]
      exact h.sizeOfImage
  · rw [h.fileAlignment]
    exact hvalid.fileAlignment
  · rw [h.sectionAlignment]
    exact hvalid.sectionAlignment
  · rw [h.fileAlignment, h.size]
    exact Nat.dvd_add hvalid.aligned (dvd_roundUp _ _)

theorem Next.count (h : Next F F' q s) :
    (numberOfSections F'.view (getHeaders F.view).nt).toNat =
      (numberOfSections F.view (getHeaders F.view).nt).toNat + 1 := by
  have hlength := congrArg List.length h.sections
  rw [List.length_append, length_sections, length_sections, List.length_singleton,
    h.headers] at hlength
  exact hlength

theorem Room.next (hroom : Room F (k + 1)) (hvalid : Valid F) (hfits : Fits F (q :: qs))
    (h : Next F F' q s) : Room F' k := by
  have hheaders := hroom.headers
  have hcount := hroom.count
  have hfile := hfits.file
  have hpos := hvalid.fileAlignment
  have hround := roundUp_le q.virtualSize.toNat F.image.fileAlignment.toNat
  rw [List.map_cons, List.sum_cons] at hfile
  constructor
  · rw [h.headers]
    exact hroom.dos
  · rw [h.headers]
    exact hroom.optional
  · rw [h.headers, h.count, h.size]
    omega
  · rw [h.headers, h.count]
    omega
  · rw [h.size]
    omega

theorem Fits.next (hfits : Fits F (q :: qs)) (h : Next F F' q s) : Fits F' qs := by
  have hfile := hfits.file
  have hmemory := hfits.memory
  have hround := roundUp_le q.virtualSize.toNat F.image.fileAlignment.toNat
  simp only [List.map_cons, List.sum_cons] at hfile hmemory
  refine ⟨fun p hp => hfits.name p (List.mem_cons_of_mem q hp), ?_, fun t ht => ?_⟩
  · rw [h.fileAlignment, h.size]
    omega
  · rw [h.sectionAlignment]
    rw [h.sections, List.mem_append] at ht
    rcases ht with ht | ht
    · have hold := hmemory t ht
      omega
    · obtain ⟨u, hu, hnear⟩ := h.near
      have hold := hmemory u hu
      rw [List.mem_singleton.mp ht]
      omega

theorem Extends.trans {F'' : FileMapping} (hroom : Room F (k + 1)) (h : Next F F' q s)
    (hrest : Extends F' F'' k) : Extends F F'' (k + 1) := by
  have hheaders := hroom.headers
  have hoptional := hroom.optional
  have hfirst := h.extended
  have hkept := hrest.kept
  have hkept' := hfirst.kept
  unfold FileMapping.HeaderByte at hkept hkept'
  rw [h.headers] at hkept
  dsimp only at hkept
  rw [h.count] at hkept
  constructor
  · exact Nat.le_trans hfirst.size hrest.size
  · intro x hx hbyte
    unfold FileMapping.HeaderByte at hbyte
    rw [hkept x (Nat.lt_of_lt_of_le hx hfirst.size) (by omega), hkept' x hx (by omega)]
  · intro x hle hlt
    by_cases hx : x < F'.size
    -- the data of the first section stay zero
    · rw [hkept x hx (by omega)]
      exact hfirst.zero x hle hx
    · exact hrest.zero x (Nat.le_of_not_lt hx) hlt

theorem Added.cons {F'' : FileMapping} {line : Line} {added : List (SectionHeader × Line)}
    (hroom : Room F (qs.length + 1)) (h : Next F F' q s)
    (hanswers : Answers F.image.imageBase q s line) (hrest : Added F' F'' qs added) :
    Added F F'' (q :: qs) ((s, line) :: added) where
  sections := by
    rw [hrest.sections, h.sections, List.map_cons, List.append_assoc]
    rfl
  answers := by
    have hanswers' := hrest.answers
    rw [h.imageBase] at hanswers'
    exact .cons hanswers hanswers'
  data := by
    have hle := hrest.extended.size
    have hsize := h.extended.size
    intro a ha
    rcases List.mem_cons.mp ha with rfl | ha
    · rw [h.pointer, h.raw, ← h.size]
      exact ⟨Nat.le_refl _, hle⟩
    · have hdata := hrest.data a ha
      omega
  apart := by
    refine List.pairwise_cons.mpr ⟨fun a ha => ?_, hrest.apart⟩
    rw [h.pointer, h.raw, ← h.size]
    exact (hrest.data a ha).1
  extended := hrest.extended.trans hroom h

end Next

theorem added_nil (F : FileMapping) : Added F F [] [] where
  sections := (List.append_nil _).symm
  answers := .nil
  data := nofun
  apart := .nil
  extended := ⟨Nat.le_refl _, fun _ _ _ => rfl, fun _ hle hlt => absurd hlt (Nat.not_lt.mpr hle)⟩

end Runs

/-! ### Two new sections -/

/-- An executable with one section of 16 bytes. -/
def smallFile : FileMapping :=
  let m : View := fun _ => 0
  let m := setWord m 0 0x5a4d
  let m := setDword m 0x3c 0x40
  let m := setDword m 0x40 0x4550
  let m := setWord m 0x44 0x14c
  let m := setWord m 0x46 1
  let m := setWord m 0x54 0x60
  let m := setDword m 0x74 0x400000
  let m := setDword m 0x78 0x1000
  let m := setDword m 0x7c 0x200
  let m := setDword m 0x90 0x2000
  let m := write m 0xb8 [0x2e, 0x74, 0x65, 0x78, 0x74]
  let m := setDword m 0xc0 0x10
  let m := setDword m 0xc4 0x1000
  let m := setDword m 0xc8 0x200
  let m := setDword m 0xcc 0x200
  let m := setDword m 0xdc 0x60000020
  ⟨m, 0x400⟩

def smallRequests : List Request :=
  [⟨[0x2e, 0x70, 0x5f, 0x74, 0x65, 0x78, 0x74, 0x32], 0x1000, 0x60000020⟩,
    ⟨[0x2e, 0x64], 0x10, 0xc0000040⟩]

end Ra2yrcpp.Addscn
