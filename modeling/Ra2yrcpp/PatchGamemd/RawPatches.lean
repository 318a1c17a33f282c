import Ra2yrcpp.PatchGamemd.PatchStrings

/-!
# Raw patches

A string of type `r` gives the bytes that are to be written.  The parser makes the same kind of patch
of it as of a string of type `d` with code, so that `do_patching` writes a detour for it.
-/

namespace Ra2yrcpp.PatchGamemd

open Reasoning

/-! ## The script -/

section Script

variable (E : Environment) (h : Handle)

/-- Parse the strings and apply the patches; with the detour address that the loop ends with. -/
def runPatches (strings : List (List Char)) : Except Error (List Byte × Nat) := do
  let patches ← parsePatches E h strings
  patchAll h.sections patches h.binary h.detourAddress

/-- A string of type `r` with bytes, not the name of a file. -/
structure RawString (string : List Char) (addr : Nat) (code : List Byte) : Prop where
  groups : ∃ sAddr path, matchPatch string = some ('r', sAddr, path) ∧
    numeral hexValue 16 sAddr = addr ∧ fromhex path = .ok code ∧ E.pathExists path = false

/-- What a raw patch is for, compared with a run without it: its bytes are written, nothing else is,
and the detours of the other patches are where they would be. -/
structure RawPatchExact (before : List (List Char)) (raw : List Char) (after : List (List Char))
    (addr : Nat) (code : List Byte) : Prop where
  exact : ∃ offset patched without addrDetours,
    mapVaddr h.sections addr = .ok offset ∧
    runPatches E h (before ++ raw :: after) = .ok (patched, addrDetours) ∧
    runPatches E h (before ++ after) = .ok (without, addrDetours) ∧
    window patched offset code.length = code ∧
    ∀ x, ¬(offset ≤ x ∧ x < offset + code.length) → patched[x]? = without[x]?

end Script

/-! ## The type is lost -/

section Parser

variable {E : Environment} {h : Handle}

theorem hexOrBlank_of_fromhex {cs : List Char} {code : List Byte} (hcs : fromhex cs = .ok code) :
    ∀ c ∈ cs, isHex c = true ∨ c.toNat = 32 ∨ (9 ≤ c.toNat ∧ c.toNat ≤ 13) := by
  induction cs using fromhex.induct generalizing code with
  | case1 => exact nofun
  | case2 c hblank =>
    intro d hd
    rw [List.mem_singleton.mp hd]
    exact Or.inr hblank
  | case3 c hblank =>
    rw [fromhex, if_neg hblank] at hcs
    cases hcs
  | case4 c d rest hblank ih =>
    rw [fromhex, if_pos hblank] at hcs
    exact List.forall_mem_cons.mpr ⟨Or.inr hblank, ih hcs⟩
  | case5 c d rest hblank hi lo hlo hhi ih =>
    rw [fromhex, if_neg hblank, hhi, hlo] at hcs
    cases hrest : fromhex rest with
    | error e => simp [hrest, Except.map] at hcs
    | ok bytes =>
      have hc : isHex c = true := Option.isSome_of_eq_some hhi
      have hd : isHex d = true := Option.isSome_of_eq_some hlo
      exact List.forall_mem_cons.mpr ⟨Or.inl hc, List.forall_mem_cons.mpr ⟨Or.inl hd, ih hrest⟩⟩
  | case6 c d rest hblank hnone =>
    rw [fromhex, if_neg hblank] at hcs
    split at hcs
    · next hi lo hhi hlo => exact absurd hlo (hnone hi lo hhi)
    · cases hcs

/-- Bytes have none of the other forms. -/
theorem matchSize_of_fromhex {path : List Char} {code : List Byte} (hpath : fromhex path = .ok code) :
    matchSize E path = none := by
  have hchars := hexOrBlank_of_fromhex hpath
  unfold matchSize
  split
  · exact absurd (hchars 's' List.mem_cons_self) (by decide)
  · rfl

theorem matchCode_of_fromhex {path : List Char} {code : List Byte} (hpath : fromhex path = .ok code) :
    matchCode E path = none := by
  have hchars := hexOrBlank_of_fromhex hpath
  unfold matchCode
  split
  · next rest heq =>
    have hmem : ':' ∈ path := (List.dropWhile_sublist isHex).subset (heq ▸ List.mem_cons_self)
    exact absurd (hchars ':' hmem) (by decide)
  · rfl

/-- A raw string gives the patch that a string of type `d` with the code and its size gives. -/
theorem parsePatch_raw {sAddr path : List Char} {code : List Byte} (hpath : fromhex path = .ok code)
    (hfile : E.pathExists path = false) (hcode : code ≠ [])
    (hfile' : E.pathExists (hex code ++ [':', 's'] ++ Nat.toDigits 10 code.length) = false) :
    parsePatch E h ('r', sAddr, path) =
      parsePatch E h ('d', sAddr, hex code ++ [':', 's'] ++ Nat.toDigits 10 code.length) := by
  have hnoSize : matchSize E (hex code ++ [':', 's'] ++ Nat.toDigits 10 code.length) = none := by
    rw [List.append_assoc]
    exact matchSize_hex hcode _
  simp only [parsePatch, hfile, hfile', Bool.false_eq_true, if_false, matchSize_of_fromhex hpath,
    matchCode_of_fromhex hpath, hnoSize, matchCode_hex hcode, hpath, fromhex_hex, if_true]
  rfl

end Parser

/-! ## The space of the detours -/

theorem bind_eq_ok {ε α β : Type} {x : Except ε α} {f : α → Except ε β} {b : β} :
    x >>= f = .ok b ↔ ∃ a, x = .ok a ∧ f a = .ok b := by
  cases x with
  | error e =>
    constructor
    · intro hbind
      cases hbind
    · rintro ⟨a, heq, -⟩
      cases heq
  | ok a =>
    constructor
    · intro hbind
      exact ⟨a, rfl, hbind⟩
    · rintro ⟨a', heq, hbind⟩
      rw [Except.ok.inj heq]
      exact hbind

section Space

variable {E : Environment} {h : Handle} {sections : List Section} {b b1 patched : List Byte}
  {offset addr addrEnd : Nat}

theorem pushret_eq_ok {code : List Byte} (hpush : pushret addr = .ok code) :
    code = pushretCode addr := by
  unfold pushret at hpush
  split at hpush
  · exact (Except.ok.inj hpush).symm
  · cases hpush

theorem patch_eq_ok (hpatch : patch b b1 offset = .ok patched) :
    offset + b1.length ≤ b.length ∧ patched.length = b.length := by
  simp only [patch] at hpatch
  split at hpatch
  · next hinside =>
    rw [← Except.ok.inj hpatch]
    exact ⟨hinside, length_splice hinside⟩
  · cases hpatch

/-- A patch that is applied takes up its detour, whatever the string was that it comes from. -/
theorem makeDetour_space {p : Patch} {n : Nat}
    (hrun : makeDetour b p addr sections p.code = .ok (patched, n)) : n = p.detourSize := by
  unfold makeDetour at hrun
  split at hrun
  · cases hrun
  · split at hrun
    · cases hrun
    · next size hsize =>
      obtain ⟨jumpBack, hback, hrun⟩ := bind_eq_ok.mp hrun
      obtain ⟨withDetour, hdetour, hrun⟩ := bind_eq_ok.mp hrun
      obtain ⟨pr1, hjump, hrun⟩ := bind_eq_ok.mp hrun
      obtain ⟨withJump, hpatch, hrun⟩ := bind_eq_ok.mp hrun
      obtain ⟨-, hn⟩ := Prod.mk.inj (Except.ok.inj hrun)
      have hlen : p.len = size := by rw [Patch.len, hsize, Option.getD_some]
      -- the jump fits into the binary, so the target does
      have hinside := (patch_eq_ok hpatch).1
      rw [List.length_append, List.length_replicate, pushret_eq_ok hjump, length_pushretCode,
        (patch_eq_ok hdetour).2] at hinside
      rw [← hn, List.length_append, List.length_append, length_window (by omega),
        pushret_eq_ok hback, length_pushretCode, Patch.detourSize, hlen]
      rfl

theorem patchAll_space {ps : List Patch}
    (hrun : patchAll sections ps b addr = .ok (patched, addrEnd)) :
    addrEnd = addr + (ps.map Patch.detourSize).sum := by
  induction ps generalizing b addr with
  | nil =>
    obtain ⟨-, haddr⟩ := Prod.mk.inj (Except.ok.inj hrun)
    exact haddr.symm
  | cons p ps ih =>
    obtain ⟨⟨b', n⟩, hfirst, hrest⟩ := bind_eq_ok.mp hrun
    rw [ih hrest, makeDetour_space hfirst, List.map_cons, List.sum_cons, Nat.add_assoc]

/-- One string, matched and parsed. -/
def parseString (E : Environment) (h : Handle) (string : List Char) : Except Error Patch :=
  match matchPatch string with
  | some groups => parsePatch E h groups
  | none => .error .noMatch

/-- The space that the patch of a string takes up. -/
def detourSpace (E : Environment) (h : Handle) (string : List Char) : Nat :=
  match parseString E h string with
  | .ok p => p.detourSize
  | .error _ => 0

theorem parsePatches_space {strings : List (List Char)} {ps : List Patch}
    (hparse : parsePatches E h strings = .ok ps) :
    (ps.map Patch.detourSize).sum = (strings.map (detourSpace E h)).sum ∧
      ∀ string ∈ strings, ∃ p, parseString E h string = .ok p := by
  obtain ⟨groups, hgroups, hps⟩ := bind_eq_ok.mp hparse
  clear hparse
  induction strings generalizing groups ps with
  | nil =>
    cases hgroups
    cases hps
    exact ⟨rfl, nofun⟩
  | cons string strings ih =>
    rw [List.mapM_cons] at hgroups
    obtain ⟨g, hg, hgroups⟩ := bind_eq_ok.mp hgroups
    obtain ⟨gs, hgs, hgroups⟩ := bind_eq_ok.mp hgroups
    cases hgroups
    rw [List.mapM_cons] at hps
    obtain ⟨p, hp, hps⟩ := bind_eq_ok.mp hps
    obtain ⟨ps', hps', hps⟩ := bind_eq_ok.mp hps
    cases hps
    obtain ⟨hsum, hrest⟩ := ih gs hgs hps'
    have hfirst : parseString E h string = .ok p := by
      unfold parseString
      cases hmatch : matchPatch string with
      | none =>
        rw [hmatch] at hg
        cases hg
      | some g' =>
        rw [hmatch] at hg
        cases hg
        exact hp
    constructor
    · rw [List.map_cons, List.sum_cons, hsum, List.map_cons, List.sum_cons, detourSpace, hfirst]
    · exact List.forall_mem_cons.mpr ⟨⟨p, hfirst⟩, hrest⟩

theorem runPatches_space {strings : List (List Char)}
    (hrun : runPatches E h strings = .ok (patched, addrEnd)) :
    addrEnd = h.detourAddress + (strings.map (detourSpace E h)).sum ∧
      ∀ string ∈ strings, 6 ≤ detourSpace E h string := by
  obtain ⟨ps, hparse, hpatch⟩ := bind_eq_ok.mp hrun
  obtain ⟨hsum, hparsed⟩ := parsePatches_space hparse
  rw [patchAll_space hpatch, hsum]
  refine ⟨rfl, ?_⟩
  intro string hmem
  obtain ⟨p, hp⟩ := hparsed string hmem
  rw [detourSpace, hp]
  exact Nat.le_add_left 6 _

end Space

/-- Raw patches write their bytes, and nothing else, only in a list that has none. -/
theorem rawPatches_exact_iff (E : Environment) (h : Handle) (strings : List (List Char)) :
    (∀ before raw after addr code, strings = before ++ raw :: after → RawString E raw addr code →
      RawPatchExact E h before raw after addr code) ↔
    ∀ raw ∈ strings, ∀ addr code, ¬RawString E raw addr code := by
  constructor
  · intro hexact raw hmem addr code hraw
    obtain ⟨before, after, heq⟩ := List.append_of_mem hmem
    obtain ⟨offset, patched, without, addrDetours, -, hrun, hwithout, -, -⟩ :=
      (hexact before raw after addr code heq hraw).exact
    obtain ⟨hend, hspace⟩ := runPatches_space hrun
    obtain ⟨hend', -⟩ := runPatches_space hwithout
    -- the raw patch has moved the detour address
    have hraw := hspace raw (List.mem_append_right before List.mem_cons_self)
    simp only [List.map_append, List.map_cons, List.sum_append, List.sum_cons] at hend hend'
    omega
  · intro hnone before raw after addr code heq hraw
    have hmem : raw ∈ strings := heq ▸ List.mem_append_right before List.mem_cons_self
    exact absurd hraw (hnone raw hmem addr code)

/-- Two bytes for the address of the first section: the binary gets a jump and its detour. -/
theorem rawBytes_not_exact :
    RawString noFiles "r0x1000:9090".toList 0x1000 [0x90, 0x90] ∧
      ¬RawPatchExact noFiles { twoPatches with patches := [] } [] "r0x1000:9090".toList [] 0x1000
        [0x90, 0x90] := by
  refine ⟨⟨"1000".toList, "9090".toList, by decide, by decide, by decide, rfl⟩, ?_⟩
  intro hexact
  obtain ⟨offset, patched, without, addrDetours, hoffset, hrun, -, hbytes, -⟩ := hexact.exact
  have hmap : mapVaddr twoPatches.sections 0x1000 = .ok 0 := by decide
  have hresult : ∃ rest, runPatches noFiles { twoPatches with patches := [] }
      ["r0x1000:9090".toList] = .ok ([0x68, 0x04] ++ rest, 0x200e) := ⟨_, rfl⟩
  obtain ⟨rest, hresult⟩ := hresult
  -- the jump is where the bytes should be
  rw [List.nil_append, hresult, Except.ok.injEq, Prod.mk.injEq] at hrun
  rw [hmap, Except.ok.injEq] at hoffset
  rw [← hrun.1, ← hoffset] at hbytes
  exact absurd (List.cons.inj hbytes).1 (by decide)

end Ra2yrcpp.PatchGamemd
