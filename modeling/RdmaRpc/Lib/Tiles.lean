import Mathlib.Data.Nat.SuccPred
import Mathlib.Order.CompletePartialOrder
import Mathlib.Order.Interval.Set.LinearOrder
import Mathlib.Order.Lattice.Nat
import Mathlib.Order.SuccPred.IntervalSucc

/-!
# Lib — Tiles

The half-open intervals between the values of a monotone sequence.  They are disjoint, in order, and
together they are one interval (`biUnion_lt_Ico_succ`).  `tile a n i` is the case of equal lengths:
the `i`-th range of `n` numbers from `a` on.
-/

namespace RdmaRpc.Lib

/-- The first `k` intervals of a monotone sequence make up one. -/
theorem biUnion_lt_Ico_succ {α : Type} [LinearOrder α] {f : ℕ → α} (hf : Monotone f) (k : ℕ) :
    ⋃ i < k, Set.Ico (f i) (f (i + 1)) = Set.Ico (f 0) (f k) := by
  induction k with
  | zero => simp
  | succ k ih =>
      rw [Set.biUnion_lt_succ, ih]
      exact Set.Ico_union_Ico_eq_Ico (hf (Nat.zero_le k)) (hf (Nat.le_succ k))

/-- The `i`-th range of `n` numbers from `a` on. -/
def tile (a n i : ℕ) : Set ℕ := Set.Ico (a + i * n) (a + (i + 1) * n)

section
variable {a n i j k : ℕ}

theorem monotone_tile : Monotone fun i => a + i * n :=
  fun _ _ h => Nat.add_le_add_left (Nat.mul_le_mul_right n h) a

theorem tile_eq : tile a n i = Set.Ico (a + i * n) (a + i * n + n) := by
  rw [tile, Nat.succ_mul, Nat.add_assoc]

/-- A tile ends where the next begins, at the latest. -/
theorem tile_end_le (h : i < j) : a + i * n + n ≤ a + j * n := by
  rw [Nat.add_assoc, ← Nat.succ_mul]
  exact monotone_tile (Nat.succ_le_of_lt h)

/-- The first `k` tiles make up one interval. -/
theorem biUnion_tile : ⋃ i < k, tile a n i = Set.Ico a (a + k * n) := by
  have h := biUnion_lt_Ico_succ (monotone_tile (a := a) (n := n)) k
  rwa [Nat.zero_mul, Nat.add_zero] at h

theorem disjoint_tile (h : i ≠ j) : Disjoint (tile a n i) (tile a n j) :=
  monotone_tile.pairwise_disjoint_on_Ico_succ h

end

end RdmaRpc.Lib
