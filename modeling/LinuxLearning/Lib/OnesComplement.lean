/-
  LinuxLearning.Lib.OnesComplement

  Sums with end-around carry, as the Internet checksum takes them.  A sum is
  reduced to a word of at most `m` by adding what overflows to the rest; two
  sums have the same reduction exactly if they are congruent modulo `m` and
  both zero or both not.
-/

import Mathlib.Data.Nat.ModEq

namespace LinuxLearning.Lib

variable {m x y : Nat}

/-- The reduction of `x` to a word of at most `m`: its residue modulo `m`,
    where `m` stands for 0 unless `x` is 0. -/
def onesReduce (m x : Nat) : Nat := if x = 0 then 0 else (x - 1) % m + 1

@[simp] theorem onesReduce_zero : onesReduce m 0 = 0 := rfl

theorem onesReduce_eq_zero_iff : onesReduce m x = 0 ↔ x = 0 := by
  unfold onesReduce
  split
  · rename_i h
    exact ⟨fun _ => h, fun _ => rfl⟩
  · rename_i h
    exact ⟨nofun, fun h' => absurd h' h⟩

theorem onesReduce_modEq (m x : Nat) : onesReduce m x ≡ x [MOD m] := by
  unfold onesReduce
  split
  · rename_i h
    rw [h]
  · rename_i h
    calc (x - 1) % m + 1 ≡ x - 1 + 1 [MOD m] := (Nat.mod_modEq _ _).add_right 1
      _ = x := Nat.sub_one_add_one h

/-- The reduction depends on the residue, and on whether there is anything. -/
theorem onesReduce_congr (hmod : x ≡ y [MOD m]) (hzero : x = 0 ↔ y = 0) :
    onesReduce m x = onesReduce m y := by
  unfold onesReduce
  by_cases hx : x = 0
  · rw [if_pos hx, if_pos (hzero.mp hx)]
  · have hy : y ≠ 0 := fun h => hx (hzero.mpr h)
    rw [if_neg hx, if_neg hy]
    have hpred : x - 1 + 1 ≡ y - 1 + 1 [MOD m] := by
      rw [Nat.sub_one_add_one hx, Nat.sub_one_add_one hy]
      exact hmod
    rw [(Nat.ModEq.add_right_cancel' 1 hpred : (x - 1) % m = (y - 1) % m)]

/-- A word is its own reduction. -/
theorem onesReduce_of_le (h : x ≤ m) : onesReduce m x = x := by
  unfold onesReduce
  split
  · rename_i h
    exact h.symm
  · rw [Nat.mod_eq_of_lt (by omega)]
    omega

/-- Adding the overflow to the rest does not change the reduction. -/
theorem onesReduce_fold (m x : Nat) :
    onesReduce m (x / (m + 1) + x % (m + 1)) = onesReduce m x := by
  have hx : (m + 1) * (x / (m + 1)) + x % (m + 1) = x := Nat.div_add_mod x (m + 1)
  apply onesReduce_congr
  · calc x / (m + 1) + x % (m + 1)
        ≡ m * (x / (m + 1)) + (x / (m + 1) + x % (m + 1)) [MOD m] := by
          rw [Nat.ModEq, Nat.mul_add_mod]
      _ = (m + 1) * (x / (m + 1)) + x % (m + 1) := by rw [Nat.succ_mul, Nat.add_assoc]
      _ = x := hx
  · constructor
    · intro h
      obtain ⟨hdiv, hmod⟩ := Nat.add_eq_zero_iff.mp h
      rw [← hx, hdiv, hmod, Nat.mul_zero]
    · rintro rfl
      rw [Nat.zero_div, Nat.zero_mod]

/-- The parts of a sum may be reduced before they are added. -/
theorem onesReduce_add (m x y : Nat) :
    onesReduce m (onesReduce m x + onesReduce m y) = onesReduce m (x + y) := by
  apply onesReduce_congr
  · exact (onesReduce_modEq m x).add (onesReduce_modEq m y)
  · rw [Nat.add_eq_zero_iff, Nat.add_eq_zero_iff, onesReduce_eq_zero_iff, onesReduce_eq_zero_iff]

/-- A sum verifies, that is, its reduction is `m`, if it is a multiple of `m`
    and not zero. -/
theorem onesReduce_eq_of_dvd (hpos : 0 < x) (hdvd : m ∣ x) : onesReduce m x = m := by
  have hm : m ≠ 0 := by
    rintro rfl
    exact absurd (Nat.eq_zero_of_zero_dvd hdvd) (Nat.ne_of_gt hpos)
  have hmod : x ≡ m [MOD m] :=
    (Nat.modEq_zero_iff_dvd.mpr hdvd).trans (Nat.modEq_zero_iff_dvd.mpr (Nat.dvd_refl m)).symm
  calc onesReduce m x = onesReduce m m :=
        onesReduce_congr hmod ⟨fun h => absurd h (Nat.ne_of_gt hpos), fun h => absurd h hm⟩
    _ = m := onesReduce_of_le (Nat.le_refl m)

/-- Only those verify. -/
theorem onesReduce_eq_iff (hm : 0 < m) : onesReduce m x = m ↔ 0 < x ∧ m ∣ x := by
  constructor
  · intro h
    have hmod : m ≡ x [MOD m] := by
      have hx := onesReduce_modEq m x
      rwa [h] at hx
    have hzero : x ≠ 0 := by
      rintro rfl
      exact absurd h (Nat.ne_of_lt hm)
    exact ⟨Nat.pos_of_ne_zero hzero, (hmod.dvd_iff (Nat.dvd_refl m)).mp (Nat.dvd_refl m)⟩
  · rintro ⟨hpos, hdvd⟩
    exact onesReduce_eq_of_dvd hpos hdvd

/-- What completes the reduced sum completes the sum. -/
theorem onesReduce_add_eq {c : Nat} (hpos : 0 < x + c) (hdvd : m ∣ onesReduce m x + c) :
    onesReduce m (x + c) = m := by
  apply onesReduce_eq_of_dvd hpos
  have hmod : onesReduce m x + c ≡ x + c [MOD m] := (onesReduce_modEq m x).add_right c
  exact Nat.modEq_zero_iff_dvd.mp (hmod.symm.trans (Nat.modEq_zero_iff_dvd.mpr hdvd))

/-! ## Addition with end-around carry -/

/-- The sum of two words of at most `m`, a carry added at the low end. -/
def onesAdd (m x y : Nat) : Nat := if x + y ≤ m then x + y else x + y - m

theorem onesAdd_eq (hx : x ≤ m) (hy : y ≤ m) : onesAdd m x y = onesReduce m (x + y) := by
  unfold onesAdd
  split
  · rename_i h
    exact (onesReduce_of_le h).symm
  · rename_i h
    have hle : x + y - m ≤ m := by omega
    calc x + y - m = onesReduce m (x + y - m) := (onesReduce_of_le hle).symm
      _ = onesReduce m (x + y) := by
          apply onesReduce_congr
          · have hsum : x + y - m + m ≡ x + y - m [MOD m] := Nat.add_mod_right _ _
            rw [Nat.sub_add_cancel (by omega)] at hsum
            exact hsum.symm
          · omega

/-- Adding words one by one reduces their sum. -/
theorem foldl_onesAdd {ws : List Nat} (hws : ∀ w ∈ ws, w ≤ m) (hx : x ≤ m) :
    ws.foldl (onesAdd m) x = onesReduce m (x + ws.sum) := by
  induction ws generalizing x with
  | nil => exact (onesReduce_of_le hx).symm
  | cons w ws ih =>
      rw [List.forall_mem_cons] at hws
      have hle : onesAdd m x w ≤ m := by
        unfold onesAdd
        split <;> omega
      rw [List.foldl_cons, ih hws.2 hle, onesAdd_eq hx hws.1, List.sum_cons, ← Nat.add_assoc]
      -- the sum so far is reduced already
      apply onesReduce_congr
      · exact (onesReduce_modEq m (x + w)).add_right _
      · rw [Nat.add_eq_zero_iff, onesReduce_eq_zero_iff, ← Nat.add_eq_zero_iff]

end LinuxLearning.Lib
