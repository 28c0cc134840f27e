/-
  LinuxLearning.Lib.PowerOfTwo

  Powers of two by bit tricks: the test `(x - 1) & x`, and rounding up by
  copying every bit to the bits below it, over twice the distance each time.
-/

import Mathlib.Data.Nat.Log
import Mathlib.Data.Nat.Bitwise

namespace LinuxLearning.Lib

variable {w m : Nat} {x y : BitVec w}

/-- Only powers of two have no bit in common with their predecessor. -/
theorem exists_two_pow_of_sub_one_and (hx : x ≠ 0#w) (h : (x - 1#w) &&& x = 0#w) :
    ∃ k, x.toNat = 2 ^ k := by
  have hpos : x.toNat ≠ 0 := fun h0 => hx (BitVec.eq_of_toNat_eq (by simpa using h0))
  have hone : 1 < 2 ^ w := by
    have := x.isLt
    rcases Nat.eq_zero_or_pos w with rfl | hw
    · omega
    · exact Nat.one_lt_two_pow (by omega)
  have hsub : (x - 1#w).toNat = x.toNat - 1 := by
    rw [BitVec.toNat_sub_of_le]
    · simp [Nat.mod_eq_of_lt hone]
    · rw [BitVec.le_def]
      simp only [BitVec.toNat_ofNat, Nat.mod_eq_of_lt hone]
      omega
  have hand := congrArg BitVec.toNat h
  rw [BitVec.toNat_and, hsub, Nat.and_comm] at hand
  exact (Nat.and_sub_one_eq_zero_iff_isPowerOfTwo hpos).mp (by simpa using hand)

/-- `y` has the bits of `x`, each copied to the `m - 1` bits below it. -/
def Filled (m : Nat) (x y : BitVec w) : Prop :=
  ∀ i, y.getLsbD i = true ↔ ∃ j, j < m ∧ x.getLsbD (i + j) = true

theorem filled_one (x : BitVec w) : Filled 1 x x := by
  intro i
  constructor
  · exact fun h => ⟨0, by omega, h⟩
  · rintro ⟨j, hj, h⟩
    obtain rfl : j = 0 := by omega
    exact h

/-- Copying everything by `m` doubles the distance. -/
theorem Filled.double (h : Filled m x y) : Filled (2 * m) x (y ||| y >>> m) := by
  intro i
  rw [BitVec.getLsbD_or, BitVec.getLsbD_ushiftRight, Bool.or_eq_true, h i, h (m + i)]
  constructor
  · rintro (⟨j, hj, hx⟩ | ⟨j, hj, hx⟩)
    · exact ⟨j, by omega, hx⟩
    · exact ⟨m + j, by omega, by rwa [show i + (m + j) = m + i + j by omega]⟩
  · rintro ⟨j, hj, hx⟩
    by_cases hlow : j < m
    · exact .inl ⟨j, hlow, hx⟩
    · exact .inr ⟨j - m, by omega, by rwa [show m + i + (j - m) = i + j by omega]⟩

/-- Copied all the way down, everything below the highest bit is set. -/
theorem Filled.toNat (h : Filled w x y) (hx : x.toNat ≠ 0) :
    y.toNat = 2 ^ (x.toNat.log2 + 1) - 1 := by
  have hlt : x.toNat < 2 ^ (x.toNat.log2 + 1) := (Nat.log2_lt hx).mp (Nat.lt_succ_self _)
  have htop : x.toNat.log2 < w := (Nat.log2_lt hx).mpr x.isLt
  apply Nat.eq_of_testBit_eq
  intro i
  rw [Nat.testBit_two_pow_sub_one, BitVec.testBit_toNat]
  by_cases hi : i < x.toNat.log2 + 1
  · rw [decide_eq_true hi, h i]
    refine ⟨x.toNat.log2 - i, by omega, ?_⟩
    rw [show i + (x.toNat.log2 - i) = x.toNat.log2 by omega, ← BitVec.testBit_toNat]
    exact Nat.testBit_log2 hx
  · rw [decide_eq_false hi, Bool.eq_false_iff, ne_eq, h i]
    rintro ⟨j, -, hbit⟩
    rw [← BitVec.testBit_toNat, Nat.testBit_lt_two_pow] at hbit
    · cases hbit
    · exact Nat.lt_of_lt_of_le hlt (Nat.pow_le_pow_right (by decide) (by omega))

end LinuxLearning.Lib
