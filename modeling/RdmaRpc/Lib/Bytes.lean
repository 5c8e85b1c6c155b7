import Mathlib.Algebra.GroupWithZero.Nat
import Mathlib.Data.List.Basic
import Mathlib.Data.List.Range

/-!
# Lib — Bytes

A flat memory of bytes, and numbers written in it little-endian.

`Mem.read` and `Mem.write` are what a program does to a range.  A range is read back as it was
written (`read_write_self`), and a write elsewhere leaves it alone (`read_write_of_disjoint`,
from `read_congr`: what is read from a range depends on that range only).  `Mem.scramble` is a
write of unknown bytes somewhere inside a range.
-/

namespace RdmaRpc.Lib

/-- A memory, as the byte at each address. -/
abbrev Mem := Nat → UInt8

namespace Mem

/-- The `n` bytes from address `a`. -/
def read (m : Mem) (a n : Nat) : List UInt8 := (List.range n).map fun i => m (a + i)

/-- `m` with the bytes `bs` at `a`. -/
def write (m : Mem) (a : Nat) (bs : List UInt8) : Mem :=
  fun x => if a ≤ x then (bs[x - a]?).getD (m x) else m x

/-- `m` with the bytes of `junk` from `lo` up to `hi`. -/
def scramble (m junk : Mem) (lo hi : Nat) : Mem := fun x => if lo ≤ x ∧ x < hi then junk x else m x

variable {m m' junk : Mem} {a b n k i lo hi x : Nat} {bs : List UInt8}

@[simp] theorem length_read : (m.read a n).length = n := by simp [read]

theorem write_of_outside (h : x < a ∨ a + bs.length ≤ x) : m.write a bs x = m x := by
  unfold write
  split
  · rw [List.getElem?_eq_none (by omega), Option.getD_none]
  · rfl

theorem write_of_inside (h : k < bs.length) : m.write a bs (a + k) = bs[k] := by
  simp [write, h]

/-- Inside a write nothing of the memory before is left. -/
theorem write_congr_inside (h₁ : a ≤ x) (h₂ : x < a + bs.length) : m.write a bs x = m'.write a bs x := by
  obtain ⟨k, rfl⟩ := Nat.exists_eq_add_of_le h₁
  rw [write_of_inside (by omega), write_of_inside (by omega)]

/-- Writes to ranges apart from each other are in no order. -/
theorem write_comm {bs' : List UInt8} (h : a + bs.length ≤ b ∨ b + bs'.length ≤ a) :
    (m.write a bs).write b bs' = (m.write b bs').write a bs := by
  funext x
  by_cases ha : a ≤ x ∧ x < a + bs.length
  · rw [write_of_outside (by omega)]
    exact write_congr_inside ha.1 ha.2
  · rw [write_of_outside (a := a) (by omega)]
    by_cases hb : b ≤ x ∧ x < b + bs'.length
    · exact write_congr_inside hb.1 hb.2
    · rw [write_of_outside (by omega), write_of_outside (by omega), write_of_outside (by omega)]

/-- Where a write reaches, it changes what some memory holds. -/
theorem exists_write_ne (h₁ : a ≤ x) (h₂ : x < a + bs.length) : ∃ m : Mem, m.write a bs x ≠ m x := by
  obtain ⟨k, rfl⟩ := Nat.exists_eq_add_of_le h₁
  refine ⟨fun _ => bs[k] + 1, fun h => ?_⟩
  rw [write_of_inside (by omega)] at h
  have := congrArg UInt8.toNat h
  simp at this
  omega

theorem scramble_of_outside (h : x < lo ∨ hi ≤ x) : m.scramble junk lo hi x = m x := by
  unfold scramble; rw [if_neg (by omega)]

/-- What is read from a range depends on that range only. -/
theorem read_congr (h : ∀ x, a ≤ x → x < a + n → m x = m' x) : m.read a n = m'.read a n := by
  refine List.map_congr_left fun i hi => ?_
  exact h (a + i) (by omega) (by have := List.mem_range.mp hi; omega)

theorem read_write_self : (m.write a bs).read a bs.length = bs := by
  refine List.ext_getElem (by simp) fun i h₁ h₂ => ?_
  simp only [read, List.getElem_map, List.getElem_range]
  exact write_of_inside h₂

/-- A write leaves a range it does not touch. -/
theorem read_write_of_disjoint (h : a + n ≤ b ∨ b + bs.length ≤ a) :
    (m.write b bs).read a n = m.read a n :=
  read_congr fun x h₁ h₂ => write_of_outside (by omega)

/-- The first bytes of a range are the bytes of the range's first part. -/
theorem take_read (h : k ≤ n) : (m.read a n).take k = m.read a k := by
  rw [read, read, ← List.map_take, List.take_range, Nat.min_eq_left h]

/-- A range is read part by part. -/
theorem read_append : m.read a k ++ m.read (a + k) n = m.read a (k + n) := by
  simp only [read, List.range_add, List.map_append, List.map_map]
  congr 1
  exact List.map_congr_left fun i _ => congrArg m (Nat.add_assoc a k i)

/-- A part of a range. -/
theorem read_part (h : k + n ≤ i) : ((m.read a i).drop k).take n = m.read (a + k) n := by
  obtain ⟨r, rfl⟩ := Nat.exists_eq_add_of_le h
  rw [Nat.add_assoc, ← read_append, List.drop_left' length_read, take_read (Nat.le_add_right n r)]

/-- Two writes side by side are read back as one. -/
theorem read_write_write {bs' : List UInt8} (h : b = a + bs.length) :
    ((m.write b bs').write a bs).read a (bs.length + bs'.length) = bs ++ bs' := by
  rw [← read_append, read_write_self, ← h, read_write_of_disjoint (.inr (Nat.le_of_eq h.symm)),
    read_write_self]

/-- What is written as one is read back part by part. -/
theorem read_write_parts (m : Mem) (a : Nat) (bs bs' : List UInt8) :
    (m.write a (bs ++ bs')).read a bs.length = bs ∧
      (m.write a (bs ++ bs')).read (a + bs.length) bs'.length = bs' := by
  have h : (m.write a (bs ++ bs')).read a (bs.length + bs'.length) = bs ++ bs' := by
    rw [← List.length_append, read_write_self]
  rw [← read_append] at h
  exact List.append_inj h length_read

end Mem

/-! ### Little-endian numbers -/

/-- The low `k` bytes of `v`, least significant first. -/
def leBytes : Nat → Nat → List UInt8
  | 0, _ => []
  | k + 1, v => UInt8.ofNat v :: leBytes k (v / 256)

/-- The number whose bytes are given, least significant first. -/
def leVal : List UInt8 → Nat
  | [] => 0
  | b :: bs => b.toNat + 256 * leVal bs

@[simp] theorem length_leBytes (k v : Nat) : (leBytes k v).length = k := by
  induction k generalizing v with
  | zero => rfl
  | succ k ih => simp [leBytes, ih]

/-- `k` bytes hold a number up to `256 ^ k`. -/
theorem leVal_leBytes (k v : Nat) : leVal (leBytes k v) = v % 256 ^ k := by
  induction k generalizing v with
  | zero => simp [leBytes, leVal, Nat.mod_one]
  | succ k ih =>
      have h : v % 256 ^ (k + 1) = v % 256 + 256 * (v / 256 % 256 ^ k) := by
        rw [Nat.pow_succ', Nat.mod_mul]
      rw [leBytes, leVal, ih, UInt8.toNat_ofNat', h]

end RdmaRpc.Lib
