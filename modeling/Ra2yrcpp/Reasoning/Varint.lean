import Mathlib.Algebra.Group.Nat.Defs
import Mathlib.Data.List.Basic
import Mathlib.Tactic.Common

/-!
# Base 128 varints

A number in groups of seven bits, the lowest first; every byte but the last has its high bit set.
`writeVarint k` has room for `k + 1` groups and `readVarint k` reads at most `k` of them, so that
both are structural.  A reader that fails has consumed what it has looked at.
-/

namespace Ra2yrcpp.Reasoning

def writeVarint : Nat → Nat → List UInt8
  | 0, n => [UInt8.ofNat n]
  | k + 1, n =>
    if n < 128 then [UInt8.ofNat n] else UInt8.ofNat (n % 128 + 128) :: writeVarint k (n / 128)

def readVarint : Nat → List UInt8 → Option Nat × List UInt8
  | 0, bs => (none, bs)
  | _ + 1, [] => (none, [])
  | k + 1, b :: bs =>
    if b.toNat < 128 then (some b.toNat, bs)
    else
      let r := readVarint k bs
      (r.1.map fun v => b.toNat - 128 + 128 * v, r.2)

theorem toNat_ofNat_of_lt {n : Nat} (h : n < 256) : (UInt8.ofNat n).toNat = n := by
  rw [UInt8.toNat_ofNat']
  omega

/-- A byte with the high bit set: the value goes on behind it. -/
theorem readVarint_cons {k n : Nat} (bs : List UInt8) :
    readVarint (k + 1) (UInt8.ofNat (n % 128 + 128) :: bs) =
      ((readVarint k bs).1.map fun v => n % 128 + 128 * v, (readVarint k bs).2) := by
  have hb : (UInt8.ofNat (n % 128 + 128)).toNat = n % 128 + 128 := toNat_ofNat_of_lt (by omega)
  show (if (UInt8.ofNat (n % 128 + 128)).toNat < 128 then _ else _) = _
  rw [if_neg (by omega), hb]
  simp

theorem readVarint_single {k n : Nat} (h : n < 128) (bs : List UInt8) :
    readVarint (k + 1) (UInt8.ofNat n :: bs) = (some n, bs) := by
  have hb : (UInt8.ofNat n).toNat = n := toNat_ofNat_of_lt (by omega)
  show (if (UInt8.ofNat n).toNat < 128 then _ else _) = _
  rw [if_pos (by omega), hb]

theorem readVarint_writeVarint {m k n : Nat} (hk : k < m) (hn : n < 128 ^ (k + 1))
    (rest : List UInt8) : readVarint m (writeVarint k n ++ rest) = (some n, rest) := by
  induction k generalizing m n with
  | zero =>
    have hm : m = m - 1 + 1 := by omega
    rw [hm]
    exact readVarint_single (by simpa using hn) rest
  | succ k ih =>
    have hm : m = m - 1 + 1 := by omega
    unfold writeVarint
    split
    · next h =>
      rw [hm]
      exact readVarint_single h rest
    · next h =>
      have hdiv : n / 128 < 128 ^ (k + 1) := by
        apply (Nat.div_lt_iff_lt_mul (by decide)).mpr
        rw [← Nat.pow_succ]
        exact hn
      rw [hm, List.cons_append, readVarint_cons, ih (by omega) hdiv]
      show (some (n % 128 + 128 * (n / 128)), rest) = _
      rw [Nat.mod_add_div]

theorem ne_singleton_of_append {α : Type*} {a b : α} {p q : List α} (hq : q ≠ []) :
    a :: p ++ q ≠ [b] := by
  intro h
  have hlen := congrArg List.length h
  have hpos := List.length_pos_of_ne_nil hq
  rw [List.length_append, List.length_cons, List.length_singleton] at hlen
  omega

/-- A varint that is cut off is not read, and nothing of it is left. -/
theorem readVarint_cut {m k n : Nat} {p q : List UInt8} (hk : k < m) (hq : q ≠ [])
    (h : p ++ q = writeVarint k n) : readVarint m p = (none, []) := by
  have hm : m = m - 1 + 1 := by omega
  induction k generalizing m n p with
  | zero =>
    cases p with
    | nil =>
      rw [hm]
      rfl
    | cons b bs => exact absurd h (ne_singleton_of_append hq)
  | succ k ih =>
    cases p with
    | nil =>
      rw [hm]
      rfl
    | cons b bs =>
      unfold writeVarint at h
      split at h
      · exact absurd h (ne_singleton_of_append hq)
      · rw [List.cons_append, List.cons.injEq] at h
        rw [hm, h.1, readVarint_cons, ih (m := m - 1) (by omega) h.2 (by omega)]
        rfl

end Ra2yrcpp.Reasoning
