import Ra2yrcpp.PatchGamemd.Detours
import Ra2yrcpp.Reasoning.Digits

/-!
# Patch strings

`parse_patches` and `to_patch_string` of `patch_gamemd.py`: a patch is given as
`<type><address>:<path>`, where the path is a file, a size, code with a size, or plain code.
-/

namespace Ra2yrcpp.PatchGamemd

open Reasoning

/-! ## Characters -/

/-- `[a-fA-F0-9]`, with its value. -/
def hexValue (c : Char) : Option Nat :=
  if '0' ≤ c ∧ c ≤ '9' then some (c.toNat - 48)
  else if 'a' ≤ c ∧ c ≤ 'f' then some (c.toNat - 87)
  else if 'A' ≤ c ∧ c ≤ 'F' then some (c.toNat - 55)
  else none

def isHex (c : Char) : Bool := (hexValue c).isSome

/-- `\s` of a pattern. -/
def isSpace (c : Char) : Bool :=
  let n := c.toNat
  (9 ≤ n && n ≤ 13) || (28 ≤ n && n ≤ 32) || n == 0x85 || n == 0xa0 || n == 0x1680 ||
    (0x2000 ≤ n && n ≤ 0x200a) || n == 0x2028 || n == 0x2029 || n == 0x202f || n == 0x205f ||
    n == 0x3000

/-- What the script finds around it: `\d` of a pattern with the values of the digits, the files, and
the end of the first instructions that are at least six bytes long. -/
structure Environment where
  digit : Char → Option Nat
  digit_ascii : ∀ c : Char, c.toNat < 128 →
    digit c = if '0' ≤ c ∧ c ≤ '9' then some (c.toNat - 48) else none
  pathExists : List Char → Bool
  readFile : List Char → Option (List Byte)
  decodeUntil : List Byte → Nat → Option Nat

/-! ## Patterns -/

/-- The groups of `(d|r)0x([a-fA-F0-9]+):(.+)`. -/
def matchPatch (p : List Char) : Option (Char × List Char × List Char) :=
  match p with
  | ptype :: '0' :: 'x' :: rest =>
    match rest.dropWhile isHex with
    | ':' :: tail =>
      let addr := rest.takeWhile isHex
      let path := tail.takeWhile (fun c => c ≠ '\n')
      if (ptype = 'd' ∨ ptype = 'r') ∧ addr ≠ [] ∧ path ≠ [] then some (ptype, addr, path) else none
    | _ => none
  | _ => none

section Parser

variable (E : Environment)

/-- The number of `s(\d+)`. -/
def matchSize (path : List Char) : Option Nat :=
  match path with
  | 's' :: rest =>
    let digits := rest.takeWhile fun c => (E.digit c).isSome
    if digits ≠ [] then some (numeral E.digit 10 digits) else none
  | _ => none

/-- The groups of `([a-fA-F0-9]+):s(\d+)`. -/
def matchCode (path : List Char) : Option (List Char × Nat) :=
  match path.dropWhile isHex with
  | ':' :: rest =>
    let code := path.takeWhile isHex
    if code ≠ [] then (matchSize E rest).map fun n => (code, n) else none
  | _ => none

/-- `bytearray.fromhex`, which skips white space between the bytes. -/
def fromhex : List Char → Except Error (List Byte)
  | [] => .ok []
  | [c] => if c.toNat = 32 ∨ (9 ≤ c.toNat ∧ c.toNat ≤ 13) then .ok [] else .error .notHex
  | c :: d :: rest =>
    if c.toNat = 32 ∨ (9 ≤ c.toNat ∧ c.toNat ≤ 13) then fromhex (d :: rest)
    else
      match hexValue c, hexValue d with
      | some hi, some lo => (fromhex rest).map fun code => BitVec.ofNat 8 (16 * hi + lo) :: code
      | _, _ => .error .notHex

/-! ## `parse_patches` -/

def Patch.fromAddress (b : List Byte) (sections : List Section) (vaddr : Nat) :
    Except Error Patch := do
  let paddr ← mapVaddr sections vaddr
  let c := E.decodeUntil (window b paddr 256) paddr
  return ⟨vaddr, paddr, c, none⟩

/-- The body of the loop. -/
def parsePatch (h : Handle) (groups : Char × List Char × List Char) : Except Error Patch :=
  let (ptype, sAddr, path) := groups
  let addr := numeral hexValue 16 sAddr
  if E.pathExists path then do
    let p ← Patch.fromAddress E h.binary h.sections addr
    match E.readFile path with
    | none => .error .unreadable
    | some code => return { p with code := some code }
  else
    match matchSize E path with
    | some n => do
      let paddr ← mapVaddr h.sections addr
      return ⟨addr, paddr, some n, none⟩
    | none =>
      match matchCode E path with
      | some (hex, n) => do
        let code ← fromhex hex
        let paddr ← mapVaddr h.sections addr
        return ⟨addr, paddr, some n, some code⟩
      | none =>
        if ptype = 'r' then do
          let code ← fromhex path
          let paddr ← mapVaddr h.sections addr
          return ⟨addr, paddr, some code.length, some code⟩
        else .error (.patchType ptype path)

/-- All strings are matched before the first one becomes a patch. -/
def parsePatches (h : Handle) (patches : List (List Char)) : Except Error (List Patch) := do
  let groups ← patches.mapM fun p =>
    match matchPatch p with
    | some g => Except.ok g
    | none => Except.error Error.noMatch
  groups.mapM (parsePatch E h)

end Parser

/-! ## `to_patch_string` -/

/-- The format `02x`. -/
def hex02 (n : Nat) : List Char :=
  List.replicate (2 - (Nat.toDigits 16 n).length) '0' ++ Nat.toDigits 16 n

/-- `bytearray.hex`. -/
def hex (code : List Byte) : List Char :=
  code.flatMap fun b => [(b.toNat / 16).digitChar, (b.toNat % 16).digitChar]

namespace Patch

def formatSize (p : Patch) : List Char :=
  match p.size with
  | some n => Nat.toDigits 10 n
  | none => ['N', 'o', 'n', 'e']

/-- What `to_patch_string` writes behind the address. -/
def path (p : Patch) : List Char :=
  if p.codeBytes = [] then ['s'] ++ p.formatSize else hex p.codeBytes ++ [':', 's'] ++ p.formatSize

def toPatchString (p : Patch) : List Char := ['d', '0', 'x'] ++ hex02 p.vaddr ++ [':'] ++ p.path

end Patch

/-- The output of `--dump-patches`. -/
def dumpPatches (ps : List Patch) : List Char := ['\n'].intercalate (ps.map Patch.toPatchString)

/-- `re.split(r"\s+", text)`; the flag is set behind a space. -/
def reSplit : Bool → List Char → List (List Char)
  | _, [] => [[]]
  | inRun, c :: cs =>
    if isSpace c then
      if inRun then reSplit true cs else [] :: reSplit true cs
    else
      match reSplit false cs with
      | w :: ws => (c :: w) :: ws
      | [] => [[c]]

/-! ## Digits read back -/

theorem hexValue_digitChar : ∀ d < 16, hexValue d.digitChar = some d := by decide

theorem isHex_digitChar {d : Nat} (h : d < 16) : isHex d.digitChar = true := by
  rw [isHex, hexValue_digitChar d h]
  rfl

theorem digitChar_toNat_lt : ∀ d < 16, d.digitChar.toNat < 128 := by decide

theorem isSpace_digitChar : ∀ d < 16, isSpace d.digitChar = false := by decide

theorem Environment.digit_digitChar (E : Environment) {d : Nat} (h : d < 10) :
    E.digit d.digitChar = some d := by
  have hvalue : ∀ d < 10, (if '0' ≤ d.digitChar ∧ d.digitChar ≤ '9' then
      some (d.digitChar.toNat - 48) else none) = some d := by decide
  rw [E.digit_ascii d.digitChar (digitChar_toNat_lt d (by omega)), hvalue d h]

theorem digit_of_mem_hex02 {n : Nat} {c : Char} (hc : c ∈ hex02 n) :
    ∃ d < 16, c = d.digitChar := by
  rw [hex02, List.mem_append] at hc
  rcases hc with hc | hc
  · exact ⟨0, by decide, (List.mem_replicate.mp hc).2⟩
  · exact exists_digit_of_mem (by decide) hc

theorem hex02_ne_nil (n : Nat) : hex02 n ≠ [] := by
  intro h
  exact Nat.toDigits_ne_nil (List.append_eq_nil_iff.mp h).2

theorem numeral_hex02 (n : Nat) : numeral hexValue 16 (hex02 n) = n := by
  rw [hex02, numeral_zeros (by decide)]
  exact numeral_toDigits (by decide) hexValue_digitChar n

theorem digit_of_mem_hex {code : List Byte} {c : Char} (hc : c ∈ hex code) :
    ∃ d < 16, c = d.digitChar := by
  rw [hex, List.mem_flatMap] at hc
  obtain ⟨b, -, hc⟩ := hc
  have hb := b.isLt
  rcases List.mem_pair.mp hc with hc | hc
  · exact ⟨b.toNat / 16, by omega, hc⟩
  · exact ⟨b.toNat % 16, by omega, hc⟩

theorem isHex_of_digit {c : Char} (h : ∃ d < 16, c = d.digitChar) : isHex c = true := by
  obtain ⟨d, hd, rfl⟩ := h
  exact isHex_digitChar hd

theorem hex_ne_nil {code : List Byte} (h : code ≠ []) : hex code ≠ [] := by
  cases code with
  | nil => exact absurd rfl h
  | cons b bs => exact List.cons_ne_nil _ _

theorem fromhex_hex (code : List Byte) : fromhex (hex code) = .ok code := by
  induction code with
  | nil => rfl
  | cons b bs ih =>
    have hb := b.isLt
    have hhi : b.toNat / 16 < 16 := by omega
    have hlo : b.toNat % 16 < 16 := by omega
    have hnospace : ∀ d < 16, ¬(d.digitChar.toNat = 32 ∨
        (9 ≤ d.digitChar.toNat ∧ d.digitChar.toNat ≤ 13)) := by decide
    have hbyte : BitVec.ofNat 8 (16 * (b.toNat / 16) + b.toNat % 16) = b := by
      rw [Nat.div_add_mod, BitVec.ofNat_toNat, BitVec.setWidth_eq]
    show fromhex ((b.toNat / 16).digitChar :: (b.toNat % 16).digitChar :: hex bs) = _
    rw [fromhex, if_neg (hnospace _ hhi), hexValue_digitChar _ hhi, hexValue_digitChar _ hlo]
    simp only [ih, Except.map, hbyte]

/-! ## Patches read back -/

/-- A patch as the script makes it, with an end that the decoder has found: its file offset is the one
of its address, and its code is not empty. -/
structure Patch.Dumpable (sections : List Section) (p : Patch) : Prop where
  mapped : mapVaddr sections p.vaddr = .ok p.paddr
  sized : p.size.isSome
  code : p.code ≠ some []

section Patches

variable {E : Environment} {h : Handle} {p : Patch} {sections : List Section}

theorem matchSize_toDigits (n : Nat) : matchSize E (['s'] ++ Nat.toDigits 10 n) = some n := by
  have hdigits : ∀ c ∈ Nat.toDigits 10 n, (E.digit c).isSome = true := by
    intro c hc
    obtain ⟨d, hd, rfl⟩ := exists_digit_of_mem (by decide) hc
    rw [E.digit_digitChar hd]
    rfl
  have hrun : (Nat.toDigits 10 n).takeWhile (fun c => (E.digit c).isSome) = Nat.toDigits 10 n :=
    takeWhile_all hdigits
  have hvalue : numeral E.digit 10 (Nat.toDigits 10 n) = n :=
    numeral_toDigits (by decide) (fun d hd => E.digit_digitChar hd) n
  rw [List.singleton_append]
  simp only [matchSize, hrun]
  rw [if_pos Nat.toDigits_ne_nil, hvalue]

theorem matchCode_hex {code : List Byte} (hcode : code ≠ []) (n : Nat) :
    matchCode E (hex code ++ [':', 's'] ++ Nat.toDigits 10 n) = some (hex code, n) := by
  have hsplit : hex code ++ [':', 's'] ++ Nat.toDigits 10 n =
      hex code ++ ':' :: (['s'] ++ Nat.toDigits 10 n) := by
    rw [List.append_assoc]
    rfl
  have hrun : ∀ c ∈ hex code, isHex c = true := fun c hc => isHex_of_digit (digit_of_mem_hex hc)
  have hcolon : isHex ':' = false := by decide
  simp only [hsplit, matchCode, dropWhile_run hrun hcolon, takeWhile_run hrun hcolon]
  rw [if_pos (hex_ne_nil hcode), matchSize_toDigits]
  rfl

/-- A path that starts with code has no size at its start. -/
theorem matchSize_hex {code : List Byte} (hcode : code ≠ []) (rest : List Char) :
    matchSize E (hex code ++ rest) = none := by
  cases code with
  | nil => exact absurd rfl hcode
  | cons b bs =>
    have hb := b.isLt
    have hne : ∀ d < 16, d.digitChar ≠ 's' := by decide
    have hfirst := hne (b.toNat / 16) (by omega)
    show matchSize E ((b.toNat / 16).digitChar :: _) = none
    unfold matchSize
    split
    · next heq => exact absurd (List.cons.inj heq).1 hfirst
    · rfl

/-- The path is made of digits, `s` and a colon. -/
theorem Patch.Dumpable.mem_path (hp : p.Dumpable sections) {c : Char} (hc : c ∈ p.path) :
    (∃ d < 16, c = d.digitChar) ∨ c = ':' ∨ c = 's' := by
  obtain ⟨n, hn⟩ := Option.isSome_iff_exists.mp hp.sized
  have hsize : ∀ c ∈ p.formatSize, ∃ d < 16, c = d.digitChar := by
    intro c hc
    simp only [Patch.formatSize, hn] at hc
    obtain ⟨d, hd, hdigit⟩ := exists_digit_of_mem (by decide) hc
    exact ⟨d, by omega, hdigit⟩
  unfold Patch.path at hc
  split at hc
  · rcases List.mem_append.mp hc with hc | hc
    · exact Or.inr (Or.inr (List.mem_singleton.mp hc))
    · exact Or.inl (hsize c hc)
  · rcases List.mem_append.mp hc with hc | hc
    · rcases List.mem_append.mp hc with hc | hc
      · exact Or.inl (digit_of_mem_hex hc)
      · exact Or.inr (List.mem_pair.mp hc)
    · exact Or.inl (hsize c hc)

theorem Patch.path_ne_nil (p : Patch) : p.path ≠ [] := by
  unfold Patch.path
  split
  · exact List.cons_ne_nil _ _
  · intro h
    have hmiddle := (List.append_eq_nil_iff.mp (List.append_eq_nil_iff.mp h).1).2
    exact List.cons_ne_nil _ _ hmiddle

/-- No space, so no end of line either. -/
theorem Patch.Dumpable.isSpace_path (hp : p.Dumpable sections) {c : Char} (hc : c ∈ p.path) :
    isSpace c = false := by
  rcases hp.mem_path hc with ⟨d, hd, rfl⟩ | rfl | rfl
  · exact isSpace_digitChar d hd
  · decide
  · decide

theorem Patch.Dumpable.matchPatch (hp : p.Dumpable sections) :
    matchPatch p.toPatchString = some ('d', hex02 p.vaddr, p.path) := by
  have hrun : ∀ c ∈ hex02 p.vaddr, isHex c = true :=
    fun c hc => isHex_of_digit (digit_of_mem_hex02 hc)
  have hcolon : isHex ':' = false := by decide
  have hline : p.path.takeWhile (fun c => c ≠ '\n') = p.path := by
    apply takeWhile_all
    intro c hc
    apply decide_eq_true
    rintro rfl
    exact absurd (hp.isSpace_path hc) (by decide)
  have hstring : p.toPatchString = 'd' :: '0' :: 'x' :: (hex02 p.vaddr ++ ':' :: p.path) := by
    simp only [Patch.toPatchString, List.append_assoc, List.cons_append, List.nil_append]
  simp only [hstring, PatchGamemd.matchPatch, dropWhile_run hrun hcolon, takeWhile_run hrun hcolon,
    hline]
  rw [if_pos ⟨by decide, hex02_ne_nil p.vaddr, p.path_ne_nil⟩]

theorem Patch.Dumpable.parsePatch (hp : p.Dumpable h.sections) (hfile : E.pathExists p.path = false) :
    parsePatch E h ('d', hex02 p.vaddr, p.path) = .ok p := by
  obtain ⟨vaddr, paddr, size, code⟩ := p
  obtain ⟨hmapped, hsized, hcode⟩ := hp
  obtain ⟨n, rfl⟩ := Option.isSome_iff_exists.mp hsized
  simp only [PatchGamemd.parsePatch, hfile, numeral_hex02, Bool.false_eq_true, if_false]
  -- without code the path is a size, otherwise the code goes before it
  cases code with
  | none =>
    have hpath : Patch.path ⟨vaddr, paddr, some n, none⟩ = ['s'] ++ Nat.toDigits 10 n := if_pos rfl
    rw [hpath, matchSize_toDigits]
    show (mapVaddr h.sections vaddr).bind _ = _
    rw [hmapped]
    rfl
  | some code =>
    have hne : code ≠ [] := fun heq => hcode (congrArg some heq)
    have hpath : Patch.path ⟨vaddr, paddr, some n, some code⟩ =
        hex code ++ [':', 's'] ++ Nat.toDigits 10 n := if_neg hne
    have hnoSize : matchSize E (hex code ++ [':', 's'] ++ Nat.toDigits 10 n) = none := by
      rw [List.append_assoc]
      exact matchSize_hex hne _
    rw [hpath, hnoSize, matchCode_hex hne]
    show (fromhex (hex code)).bind (fun c => (mapVaddr h.sections vaddr).bind _) = _
    rw [fromhex_hex, hmapped]
    rfl

end Patches

/-! ## Lines read back -/

section Lines

variable {w : List Char} {ws : List (List Char)}

theorem reSplit_word (hw : ∀ c ∈ w, isSpace c = false) : reSplit false w = [w] := by
  induction w with
  | nil => rfl
  | cons c w ih =>
    rw [reSplit, hw c List.mem_cons_self, ih fun d hd => hw d (List.mem_cons_of_mem c hd)]
    rfl

theorem reSplit_line (hw : ∀ c ∈ w, isSpace c = false) (rest : List Char) :
    reSplit false (w ++ '\n' :: rest) = w :: reSplit true rest := by
  induction w with
  | nil => rfl
  | cons c w ih =>
    rw [List.cons_append, reSplit, hw c List.mem_cons_self,
      ih fun d hd => hw d (List.mem_cons_of_mem c hd)]
    rfl

/-- Behind a space, a word is split as at the start. -/
theorem reSplit_start {rest : List Char} (hne : w ≠ []) (hw : ∀ c ∈ w, isSpace c = false) :
    reSplit true (w ++ rest) = reSplit false (w ++ rest) := by
  cases w with
  | nil => exact absurd rfl hne
  | cons c w =>
    rw [List.cons_append, reSplit, reSplit, hw c List.mem_cons_self]
    rfl

theorem reSplit_lines (hws : ws ≠ []) (hw : ∀ w ∈ ws, w ≠ [] ∧ ∀ c ∈ w, isSpace c = false) :
    reSplit false (['\n'].intercalate ws) = ws := by
  induction ws with
  | nil => exact absurd rfl hws
  | cons w ws ih =>
    obtain ⟨-, hword⟩ := hw w List.mem_cons_self
    cases ws with
    | nil =>
      rw [List.intercalate_singleton]
      exact reSplit_word hword
    | cons v vs =>
      have hrest : ∀ u ∈ v :: vs, u ≠ [] ∧ ∀ c ∈ u, isSpace c = false :=
        fun u hu => hw u (List.mem_cons_of_mem w hu)
      obtain ⟨hne, hnext⟩ := hrest v List.mem_cons_self
      have hstart : ∃ rest, ['\n'].intercalate (v :: vs) = v ++ rest := by
        cases vs with
        | nil => exact ⟨[], by rw [List.intercalate_singleton, List.append_nil]⟩
        | cons u us => exact ⟨_, by rw [List.intercalate_cons_cons, List.append_assoc]⟩
      obtain ⟨rest, hrestEq⟩ := hstart
      rw [List.intercalate_cons_cons, List.append_assoc]
      show reSplit false (w ++ '\n' :: ['\n'].intercalate (v :: vs)) = _
      rw [reSplit_line hword, hrestEq, reSplit_start hne hnext, ← hrestEq,
        ih (List.cons_ne_nil v vs) hrest]

end Lines

theorem mapM_eq_ok {ε α β : Type} {f : α → Except ε β} {g : α → β} {xs : List α}
    (h : ∀ x ∈ xs, f x = .ok (g x)) : xs.mapM f = .ok (xs.map g) := by
  induction xs with
  | nil => rfl
  | cons x xs ih =>
    rw [List.mapM_cons, h x List.mem_cons_self, ih fun y hy => h y (List.mem_cons_of_mem x hy)]
    rfl

/-! ## The dump -/

/-- The patches that are dumped are parsed again, all of them and in their order. -/
theorem parsePatches_dumpPatches {E : Environment} {h : Handle} {ps : List Patch} (hne : ps ≠ [])
    (hps : ∀ p ∈ ps, p.Dumpable h.sections) (hfiles : ∀ p ∈ ps, E.pathExists p.path = false) :
    parsePatches E h (reSplit false (dumpPatches ps)) = .ok ps := by
  have hlines : reSplit false (dumpPatches ps) = ps.map Patch.toPatchString := by
    apply reSplit_lines
    · intro hmap
      exact hne (List.map_eq_nil_iff.mp hmap)
    · intro w hw
      obtain ⟨p, hp, rfl⟩ := List.mem_map.mp hw
      refine ⟨List.cons_ne_nil _ _, ?_⟩
      intro c hc
      simp only [Patch.toPatchString, List.mem_append, List.mem_cons, List.not_mem_nil, or_false]
        at hc
      rcases hc with ((((rfl | rfl | rfl) | hc) | rfl) | hc)
      · decide
      · decide
      · decide
      · obtain ⟨d, hd, rfl⟩ := digit_of_mem_hex02 hc
        exact isSpace_digitChar d hd
      · decide
      · exact (hps p hp).isSpace_path hc
  have hgroups : ((ps.map Patch.toPatchString).mapM fun p =>
      match matchPatch p with
      | some g => Except.ok g
      | none => Except.error Error.noMatch) =
      .ok (ps.map fun p => ('d', hex02 p.vaddr, p.path)) := by
    rw [List.mapM_map]
    apply mapM_eq_ok
    intro p hp
    simp only [Function.comp_apply, (hps p hp).matchPatch]
  have hparsed : (ps.map fun p => ('d', hex02 p.vaddr, p.path)).mapM (parsePatch E h) = .ok ps := by
    rw [List.mapM_map, mapM_eq_ok (g := fun p => p), List.map_id']
    intro p hp
    exact (hps p hp).parsePatch (hfiles p hp)
  rw [parsePatches, hlines, hgroups]
  exact hparsed

/-- An environment without files, where the digits are the ASCII ones. -/
def noFiles : Environment where
  digit c := if '0' ≤ c ∧ c ≤ '9' then some (c.toNat - 48) else none
  digit_ascii _ _ := rfl
  pathExists _ := false
  readFile _ := none
  decodeUntil _ _ := none

/-- A patch of each form. -/
def dumped : List Patch := [⟨0x1000, 0, some 6, none⟩, ⟨0x1008, 8, some 17, some [0x40, 0xf3]⟩]

example : dumpPatches dumped = "d0x1000:s6\nd0x1008:40f3:s17".toList := by decide

theorem dumped_parsed :
    parsePatches noFiles twoPatches (reSplit false (dumpPatches dumped)) = .ok dumped := by
  apply parsePatches_dumpPatches (by decide)
  · intro p hp
    rcases List.mem_pair.mp hp with rfl | rfl
    · exact ⟨by decide, rfl, by decide⟩
    · exact ⟨by decide, rfl, by decide⟩
  · intro p hp
    rfl

end Ra2yrcpp.PatchGamemd
