import Mathlib.Data.List.GetD
import Mathlib.Tactic.Cases

/-!
# A linear memory

Bytes at the addresses below a size, read and written in ranges that are checked against the size.
The lemmas are the frame rules: what is written is read back, a write is not seen from a disjoint
range, and two memories that agree on a range read the same there.
-/

/-- A memory of `size` bytes. What `bytes` says from there on does not count. -/
structure Memory where
  bytes : Nat → UInt8
  size : Nat

namespace Memory

variable {m m' : Memory} {p q n k : Nat} {data : List UInt8}

/-- The `n` bytes from `p` on. -/
def range (m : Memory) (p n : Nat) : List UInt8 := (List.range n).map fun i => m.bytes (p + i)

/-- The memory with the data at `p`. -/
def patch (m : Memory) (p : Nat) (data : List UInt8) : Memory where
  bytes a := if p ≤ a ∧ a < p + data.length then data.getD (a - p) 0 else m.bytes a
  size := m.size

/-- Read a range inside the memory. -/
def read (m : Memory) (p n : Nat) : Option (List UInt8) :=
  if p + n ≤ m.size then some (m.range p n) else none

/-- Write a range inside the memory. -/
def write (m : Memory) (p : Nat) (data : List UInt8) : Option Memory :=
  if p + data.length ≤ m.size then some (m.patch p data) else none

@[simp] theorem length_range : (m.range p n).length = n := by simp [range]

@[simp] theorem size_patch : (m.patch p data).size = m.size := rfl

theorem read_eq_some (h : p + n ≤ m.size) : m.read p n = some (m.range p n) := if_pos h

theorem write_eq_some (h : p + data.length ≤ m.size) : m.write p data = some (m.patch p data) :=
  if_pos h

/-- Reading depends on the bytes of the range only. -/
theorem range_congr (h : ∀ a, p ≤ a → a < p + n → m.bytes a = m'.bytes a) :
    m.range p n = m'.range p n := by
  refine List.map_congr_left fun i hi => h (p + i) (Nat.le_add_right p i) ?_
  exact Nat.add_lt_add_left (List.mem_range.mp hi) p

/-- A range is two ranges, one after the other. -/
theorem range_add (p n k : Nat) : m.range p (n + k) = m.range p n ++ m.range (p + n) k := by
  rw [range, List.range_add, List.map_append, List.map_map]
  refine congrArg (m.range p n ++ ·) (List.map_congr_left fun i _ => ?_)
  simp only [Function.comp_apply]
  rw [Nat.add_assoc]

/-- The start of a range is a range. -/
theorem take_range (k : Nat) : (m.range p n).take k = m.range p (min k n) := by
  rw [range, ← List.map_take, List.take_range, range]

/-- What has been written is read back. -/
theorem range_patch_self : (m.patch p data).range p data.length = data := by
  refine List.ext_getElem length_range fun i hi hi' => ?_
  have hin : p ≤ p + i ∧ p + i < p + data.length :=
    ⟨Nat.le_add_right p i, Nat.add_lt_add_left hi' p⟩
  simp only [range, patch, List.getElem_map, List.getElem_range]
  rw [if_pos hin, Nat.add_sub_cancel_left, List.getD_eq_getElem data 0 hi']

/-- A write is not seen from a range beside it. -/
theorem range_patch_of_disjoint (h : q + n ≤ p ∨ p + data.length ≤ q) :
    (m.patch p data).range q n = m.range q n := by
  refine range_congr fun a hqa han => ?_
  exact if_neg (by omega)

/-- A write inside a range replaces its part of the range. -/
theorem range_patch_within {off : Nat} (h : off + data.length ≤ n) :
    (m.patch (p + off) data).range p n =
      (m.range p n).take off ++ data ++ (m.range p n).drop (off + data.length) := by
  obtain ⟨k, rfl⟩ := Nat.exists_eq_add_of_le h
  have hlen : (m.range p off ++ m.range (p + off) data.length).length = off + data.length := by
    simp
  rw [range_add, range_add, range_patch_of_disjoint (.inl (Nat.le_refl _)), range_patch_self,
    range_patch_of_disjoint (.inr (by omega)), range_add, range_add, List.drop_left' hlen,
    List.append_assoc (m.range p off) (m.range _ _), List.take_left' length_range]

end Memory
