/-
  LinuxLearning.Lib.WrappingCounter

  Free-running counters of `w` bits.  A position is a natural number that only
  grows; a counter shows it modulo `2 ^ w`.  Differences of counters are
  differences of positions as long as the positions are less than `2 ^ w`
  apart, and the low bits of a counter are the slot of its position in a table
  of `2 ^ k` slots.
-/

import Mathlib.Data.Nat.ModEq

namespace LinuxLearning.Lib

variable {w k a b c : Nat}

/-- The counter that shows position `a`. -/
abbrev counter (w a : Nat) : BitVec w := BitVec.ofNat w a

theorem counter_add (w a b : Nat) : counter w a + counter w b = counter w (a + b) := by
  apply BitVec.eq_of_toNat_eq
  simp [BitVec.toNat_add]

theorem counter_add_bits (w a : Nat) (x : BitVec w) :
    counter w a + x = counter w (a + x.toNat) := by
  rw [← counter_add]
  simp [counter]

/-- Counters subtract as positions do. -/
theorem counter_sub (hle : a ≤ b) : counter w b - counter w a = counter w (b - a) := by
  rw [show counter w b = counter w (b - a) + counter w a by
    rw [counter_add, Nat.sub_add_cancel hle], BitVec.add_sub_cancel]

theorem toNat_counter (h : a < 2 ^ w) : (counter w a).toNat = a := by
  rw [counter, BitVec.toNat_ofNat, Nat.mod_eq_of_lt h]

/-- A counter tells positions apart that are less than `2 ^ w` away from each
    other. -/
theorem eq_of_counter_eq (hle : a ≤ b) (hlt : b < a + 2 ^ w) (h : counter w a = counter w b) :
    a = b := by
  have hsub : counter w (b - a) = 0#w := by
    rw [← counter_sub hle, h, BitVec.sub_self]
  have hval := congrArg BitVec.toNat hsub
  rw [toNat_counter (by omega)] at hval
  simp at hval
  omega

/-- The slot of a position, from its counter. -/
theorem toNat_counter_and_mask {mask : BitVec w} (hk : k ≤ w) (hmask : mask.toNat = 2 ^ k - 1) :
    (counter w a &&& mask).toNat = a % 2 ^ k := by
  rw [BitVec.toNat_and, hmask, Nat.and_two_pow_sub_one_eq_mod, counter, BitVec.toNat_ofNat,
    Nat.mod_mod_of_dvd a (Nat.pow_dvd_pow 2 hk)]

/-- Positions less than a table length apart have different slots. -/
theorem mod_ne_of_window {n : Nat} (hne : a ≠ b) (hab : a < b + n) (hba : b < a + n) :
    a % n ≠ b % n := by
  intro h
  have ha := Nat.div_add_mod a n
  have hb := Nat.div_add_mod b n
  rw [h] at ha
  rcases Nat.lt_trichotomy (a / n) (b / n) with hlt | heq | hgt
  · have := Nat.mul_le_mul_left n hlt
    rw [Nat.succ_eq_add_one, Nat.mul_add, Nat.mul_one] at this
    omega
  · rw [heq] at ha
    omega
  · have := Nat.mul_le_mul_left n hgt
    rw [Nat.succ_eq_add_one, Nat.mul_add, Nat.mul_one] at this
    omega

end LinuxLearning.Lib
