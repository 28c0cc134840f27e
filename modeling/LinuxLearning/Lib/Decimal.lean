/-
  LinuxLearning.Lib.Decimal

  Numbers as `printf` writes them with `%d`, `%ld` and their like.
-/

import Mathlib.Data.Nat.Digits.Lemmas

namespace LinuxLearning.Lib

/-- The character of a decimal digit. -/
def digitChar (d : Nat) : UInt8 := 48 + UInt8.ofNat d

/-- The decimal digits of a number. -/
def decimal (n : Nat) : List UInt8 :=
  if n = 0 then [48] else (Nat.digits 10 n).reverse.map digitChar

/-- `%ld` -/
def printInt (n : Int) : List UInt8 :=
  if n < 0 then 45 :: decimal n.natAbs else decimal n.natAbs

theorem toNat_digitChar {d : Nat} (hd : d < 10) : (digitChar d).toNat = 48 + d := by
  simp only [digitChar, UInt8.toNat_add, UInt8.toNat_ofNat', UInt8.reduceToNat]
  omega

theorem toNat_mem_decimal {n : Nat} {b : UInt8} (hb : b ∈ decimal n) :
    48 ≤ b.toNat ∧ b.toNat < 58 := by
  unfold decimal at hb
  split at hb
  · obtain rfl := List.mem_singleton.mp hb
    decide
  · obtain ⟨d, hd, rfl⟩ := List.mem_map.mp hb
    have hlt := Nat.digits_lt_base (by decide) (List.mem_reverse.mp hd)
    rw [toNat_digitChar hlt]
    omega

/-- Only digits and the sign are written. -/
theorem toNat_mem_printInt {n : Int} {b : UInt8} (hb : b ∈ printInt n) :
    45 ≤ b.toNat ∧ b.toNat < 58 := by
  unfold printInt at hb
  split at hb
  · rcases List.mem_cons.mp hb with rfl | hb
    · decide
    · have := toNat_mem_decimal hb
      omega
  · have := toNat_mem_decimal hb
    omega

theorem length_decimal_le {n k : Nat} (hk : 0 < k) (hn : n < 10 ^ k) :
    (decimal n).length ≤ k := by
  unfold decimal
  split
  · exact hk
  · simpa using (Nat.digits_length_le_iff (by decide) n).mpr hn

theorem length_printInt_le {n : Int} {k : Nat} (hk : 0 < k) (hn : n.natAbs < 10 ^ k) :
    (printInt n).length ≤ k + 1 := by
  have hlen := length_decimal_le hk hn
  unfold printInt
  split
  · simpa using hlen
  · omega

/-- The number that a row of digits stands for. -/
def readDecimal (digits : List UInt8) : Nat :=
  Nat.ofDigits 10 (digits.reverse.map fun b => b.toNat - 48)

theorem readDecimal_decimal (n : Nat) : readDecimal (decimal n) = n := by
  unfold decimal
  split
  next h => simp [h, readDecimal]
  next h =>
    have hmap : (Nat.digits 10 n).map (fun d => (digitChar d).toNat - 48) = Nat.digits 10 n := by
      refine (List.map_congr_left fun d hd => ?_).trans (List.map_id _)
      rw [toNat_digitChar (Nat.digits_lt_base (by decide) hd), Nat.add_sub_cancel_left, id]
    rw [readDecimal, ← List.map_reverse, List.reverse_reverse, List.map_map]
    exact (congrArg _ hmap).trans (Nat.ofDigits_digits 10 n)

/-- The number can be read off what is written. -/
theorem printInt_injective : Function.Injective printInt := by
  intro m n h
  unfold printInt at h
  have hsign : ∀ k, 45 ∉ decimal k := fun k hk => absurd (toNat_mem_decimal hk).1 (by decide)
  by_cases hm : m < 0 <;> by_cases hn : n < 0
  · rw [if_pos hm, if_pos hn] at h
    have habs := congrArg readDecimal (List.cons_inj_right _ |>.mp h)
    rw [readDecimal_decimal, readDecimal_decimal] at habs
    omega
  · rw [if_pos hm, if_neg hn] at h
    exact absurd (h ▸ List.mem_cons_self ..) (hsign _)
  · rw [if_neg hm, if_pos hn] at h
    exact absurd (h ▸ List.mem_cons_self ..) (hsign _)
  · rw [if_neg hm, if_neg hn] at h
    have habs := congrArg readDecimal h
    rw [readDecimal_decimal, readDecimal_decimal] at habs
    omega

end LinuxLearning.Lib
