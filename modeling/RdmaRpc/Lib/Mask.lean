import Mathlib.Data.Set.Insert
import Mathlib.Order.Interval.Set.Defs

/-!
# Lib — Mask

A bit vector as the set of the bits that are set in it: the mask of the first `n` bits, the mask
without a bit, and the empty mask.
-/

namespace RdmaRpc.Lib

section
variable {w : ℕ} {m : BitVec w} {i n : ℕ}

/-- The bits that are set. -/
def bits (m : BitVec w) : Set ℕ := {i | m.getLsbD i = true}

theorem mem_bits : i ∈ bits m ↔ m.getLsbD i = true := Iff.rfl

theorem lt_of_mem_bits (h : i ∈ bits m) : i < w := BitVec.lt_of_getLsbD h

/-- A mask is zero when it has no bit. -/
theorem bits_eq_empty : bits m = ∅ ↔ m = 0#w := by
  constructor
  · intro h
    refine BitVec.eq_of_getLsbD_eq fun i _ => ?_
    rw [BitVec.getLsbD_zero]
    exact Bool.eq_false_iff.mpr fun hi => Set.eq_empty_iff_forall_notMem.mp h i hi
  · rintro rfl
    ext i
    simp [mem_bits]

/-- `(1 << n) - 1` -/
theorem bits_low (h : n < w) : bits ((1#w <<< n) - 1#w) = Set.Iio n := by
  have hpow : 2 ^ n < 2 ^ w := Nat.pow_lt_pow_right (by decide) h
  have hpos : 0 < 2 ^ n := Nat.two_pow_pos n
  have hval : ((1#w <<< n) - 1#w).toNat = 2 ^ n - 1 := by
    have hone : 1 % 2 ^ w = 1 := Nat.mod_eq_of_lt (Nat.lt_of_le_of_lt hpos hpow)
    have hshift : (1#w <<< n).toNat = 2 ^ n := by
      rw [BitVec.toNat_shiftLeft, BitVec.toNat_ofNat, hone, Nat.one_shiftLeft, Nat.mod_eq_of_lt hpow]
    rw [BitVec.toNat_sub_of_le, hshift, BitVec.toNat_ofNat, hone]
    rw [BitVec.le_def, hshift, BitVec.toNat_ofNat, hone]
    exact hpos
  ext i
  rw [mem_bits, ← BitVec.testBit_toNat, hval, Nat.testBit_two_pow_sub_one, decide_eq_true_iff]
  exact Iff.rfl

/-- `m & ~(1 << i)` -/
theorem bits_clear : bits (m &&& ~~~(1#w <<< i)) = bits m \ {i} := by
  ext j
  rw [← BitVec.twoPow_eq]
  simp only [mem_bits, Set.mem_sdiff, Set.mem_singleton_iff, BitVec.getLsbD_and, BitVec.getLsbD_not,
    BitVec.getLsbD_twoPow, Bool.and_eq_true]
  refine and_congr_right fun hj => ?_
  have hlt := lt_of_mem_bits hj
  simp only [hlt, decide_true, true_and, Bool.not_eq_true', Bool.and_eq_false_iff,
    decide_eq_false_iff_not]
  omega

end

end RdmaRpc.Lib
