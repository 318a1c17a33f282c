import Mathlib.Algebra.Group.Nat.Defs
import Ra2yrcpp.Reasoning.ByteMemory

/-!
# Numbers in a memory

Little endian fields of `n` bytes.
-/

namespace Ra2yrcpp.Reasoning

def numberBytes : Nat → Nat → List UInt8
  | 0, _ => []
  | n + 1, v => UInt8.ofNat v :: numberBytes n (v / 256)

def bytesNumber : List UInt8 → Nat
  | [] => 0
  | b :: bs => b.toNat + 256 * bytesNumber bs

def loadField (m : Nat → UInt8) (a n : Nat) : Nat := bytesNumber (read m a n)

def storeField (m : Nat → UInt8) (a n v : Nat) : Nat → UInt8 := write m a (numberBytes n v)

variable {m m' : Nat → UInt8} {a b n k v x : Nat} {bs : List UInt8}

@[simp] theorem length_numberBytes (n v : Nat) : (numberBytes n v).length = n := by
  induction n generalizing v with
  | zero => rfl
  | succ n ih => rw [numberBytes, List.length_cons, ih]

theorem bytesNumber_numberBytes (n v : Nat) : bytesNumber (numberBytes n v) = v % 256 ^ n := by
  induction n generalizing v with
  | zero =>
    rw [Nat.pow_zero, Nat.mod_one]
    rfl
  | succ n ih =>
    have hsplit : v % 256 ^ (n + 1) = v % 256 + 256 * (v / 256 % 256 ^ n) := by
      rw [Nat.pow_succ', Nat.mod_mul]
    rw [numberBytes, bytesNumber, ih, UInt8.toNat_ofNat', hsplit]

theorem loadField_congr (h : ∀ x, a ≤ x → x < a + n → m x = m' x) :
    loadField m a n = loadField m' a n := by
  unfold loadField
  rw [read_congr h]

theorem loadField_write (h : a + bs.length ≤ b ∨ b + n ≤ a) :
    loadField (write m a bs) b n = loadField m b n := by
  unfold loadField
  rw [read_write_disjoint h]

theorem loadField_store_same : loadField (storeField m a n v) a n = v % 256 ^ n := by
  have hread : read (write m a (numberBytes n v)) a (numberBytes n v).length = numberBytes n v :=
    read_write_same
  rw [length_numberBytes] at hread
  unfold loadField storeField
  rw [hread, bytesNumber_numberBytes]

theorem loadField_store (h : a + k ≤ b ∨ b + n ≤ a) :
    loadField (storeField m a k v) b n = loadField m b n := by
  apply loadField_write
  rwa [length_numberBytes]

theorem storeField_of_outside (h : ¬(a ≤ x ∧ x < a + n)) : storeField m a n v x = m x := by
  apply write_of_outside
  rwa [length_numberBytes]

end Ra2yrcpp.Reasoning
