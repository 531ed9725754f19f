import Mathlib.Algebra.Ring.Nat
import Mathlib.Data.List.Induction
import Mathlib.Tactic.Cases

/-!
# Integers as bytes

`n.to_be_bytes()`, `n.to_le_bytes()` and their inverses, for an integer of any number of bytes.
Encoding truncates, as an `as` conversion to the integer type does.
-/

namespace Rust

/-- The integer the bytes stand for, most significant byte first. -/
def fromBe (bytes : List UInt8) : Nat := bytes.foldl (fun n b => n * 256 + b.toNat) 0

/-- The `k` low bytes of an integer, most significant byte first. -/
def toBe : Nat → Nat → List UInt8
  | 0, _ => []
  | k + 1, n => toBe k (n / 256) ++ [UInt8.ofNat n]

/-- The integer the bytes stand for, least significant byte first. -/
def fromLe (bytes : List UInt8) : Nat := fromBe bytes.reverse

/-- The `k` low bytes of an integer, least significant byte first. -/
def toLe (k n : Nat) : List UInt8 := (toBe k n).reverse

/-- The bytes of an ASCII literal `b"..."`. -/
def ascii (s : String) : List UInt8 := s.toList.map fun c => UInt8.ofNat c.toNat

@[simp] theorem fromBe_nil : fromBe [] = 0 := rfl

theorem fromBe_concat (bytes : List UInt8) (b : UInt8) :
    fromBe (bytes ++ [b]) = fromBe bytes * 256 + b.toNat := by
  rw [fromBe, List.foldl_append]
  rfl

@[simp] theorem length_toBe (k n : Nat) : (toBe k n).length = k := by
  induction k generalizing n with
  | zero => rfl
  | succ k ih => rw [toBe, List.length_append, ih, List.length_singleton]

@[simp] theorem length_toLe (k n : Nat) : (toLe k n).length = k := by
  rw [toLe, List.length_reverse, length_toBe]

theorem fromBe_toBe (k n : Nat) : fromBe (toBe k n) = n % 256 ^ k := by
  induction k generalizing n with
  | zero => simp [toBe, Nat.mod_one]
  | succ k ih =>
    have hsplit : n % 256 ^ (k + 1) = n % 256 + 256 * (n / 256 % 256 ^ k) := by
      rw [Nat.pow_succ', Nat.mod_mul]
    rw [toBe, fromBe_concat, ih, UInt8.toNat_ofNat', hsplit]
    omega

theorem fromLe_toLe (k n : Nat) : fromLe (toLe k n) = n % 256 ^ k := by
  rw [fromLe, toLe, List.reverse_reverse, fromBe_toBe]

theorem toBe_fromBe (bytes : List UInt8) : toBe bytes.length (fromBe bytes) = bytes := by
  induction bytes using List.reverseRecOn with
  | nil => rfl
  | append_singleton bytes b ih =>
    have hb := b.toNat_lt
    have hdiv : (fromBe bytes * 256 + b.toNat) / 256 = fromBe bytes := by omega
    have hlow : UInt8.ofNat (fromBe bytes * 256 + b.toNat) = b := by
      apply UInt8.toNat_inj.mp
      rw [UInt8.toNat_ofNat']
      omega
    rw [List.length_append, List.length_singleton, toBe, fromBe_concat, hdiv, ih, hlow]

theorem fromBe_lt (bytes : List UInt8) : fromBe bytes < 256 ^ bytes.length := by
  have h := fromBe_toBe bytes.length (fromBe bytes)
  rw [toBe_fromBe] at h
  rw [h]
  exact Nat.mod_lt _ (Nat.pow_pos (by decide))

theorem toLe_fromLe (bytes : List UInt8) : toLe bytes.length (fromLe bytes) = bytes := by
  have h := toBe_fromBe bytes.reverse
  rw [List.length_reverse] at h
  rw [toLe, fromLe, h, List.reverse_reverse]

theorem fromLe_lt (bytes : List UInt8) : fromLe bytes < 256 ^ bytes.length := by
  have h := fromBe_lt bytes.reverse
  rwa [List.length_reverse] at h

end Rust
