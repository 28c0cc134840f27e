/-
  LinuxLearning.Ring.Creation

  What `rte_ring_init` sets up.  `Sound` is what the ring code relies on: a
  table whose length is a power of two, the mask that goes with it, and a
  capacity below it.  The initialisation checks its arguments for this, but
  not for all of it: a count of 0 passes as a power of two, and an exact size
  is not bounded before it is rounded up.  On a sound ring the copy loops come
  to the slots of consecutive positions, wherever the table wraps.
-/

import LinuxLearning.Lib.PowerOfTwo
import LinuxLearning.Lib.WrappingCounter
import LinuxLearning.Ring.State

namespace LinuxLearning.Ring

open Lib

variable {α : Type}

/-- The table has `2 ^ k` slots, one of which stays free. -/
structure RteRing.Sound (r : RteRing α) (k : Nat) : Prop where
  le : k ≤ 31
  size : r.size.toNat = 2 ^ k
  mask : r.mask.toNat = 2 ^ k - 1
  capacity : r.capacity.toNat < 2 ^ k
  slots : r.slots.length = 2 ^ k

/-! ## Rounding up -/

theorem filled_rteCombine32ms1b (x : BitVec 32) : Filled 32 x (rteCombine32ms1b x) := by
  have h₁ := (filled_one x).double
  have h₂ := h₁.double
  have h₄ := h₂.double
  have h₈ := h₄.double
  exact h₈.double

theorem rteAlign32pow2_zero : rteAlign32pow2 0 = 0 := by decide

/-- Up to `2 ^ 31`, `rte_align32pow2` gives the least power of two that is
    not below its argument. -/
theorem rteAlign32pow2_spec {x : BitVec 32} (hpos : 0 < x.toNat) (hle : x.toNat ≤ 2 ^ 31) :
    ∃ k, k ≤ 31 ∧ (rteAlign32pow2 x).toNat = 2 ^ k ∧ x.toNat ≤ 2 ^ k ∧
      ∀ j, x.toNat ≤ 2 ^ j → k ≤ j := by
  have hsub : (x - 1).toNat = x.toNat - 1 := by bv_omega
  by_cases hone : x.toNat = 1
  · obtain rfl : x = 1 := BitVec.eq_of_toNat_eq hone
    exact ⟨0, by decide, by decide, by decide, fun j _ => Nat.zero_le j⟩
  · have hne : (x - 1).toNat ≠ 0 := by omega
    have hfill := (filled_rteCombine32ms1b (x - 1)).toNat hne
    have hlt : (x - 1).toNat.log2 < 31 := (Nat.log2_lt hne).mpr (by omega)
    have hlow := Nat.log2_self_le hne
    have hhigh : (x - 1).toNat < 2 ^ ((x - 1).toNat.log2 + 1) :=
      (Nat.log2_lt hne).mp (Nat.lt_succ_self _)
    have hpow : 2 ^ ((x - 1).toNat.log2 + 1) ≤ 2 ^ 31 := Nat.pow_le_pow_right (by decide) hlt
    refine ⟨(x - 1).toNat.log2 + 1, hlt, ?_, by omega, fun j hj => ?_⟩
    · rw [rteAlign32pow2, BitVec.toNat_add, hfill, show (1 : BitVec 32).toNat = 1 from rfl]
      omega
    · by_contra hjlt
      have := Nat.pow_le_pow_right (show 0 < 2 by decide) (show j ≤ (x - 1).toNat.log2 by omega)
      omega

/-- Beyond `2 ^ 31` it gives 0. -/
theorem rteAlign32pow2_of_large {x : BitVec 32} (h : 2 ^ 31 < x.toNat) : rteAlign32pow2 x = 0 := by
  have hsub : (x - 1).toNat = x.toNat - 1 := by bv_omega
  have hne : (x - 1).toNat ≠ 0 := by omega
  have hfill := (filled_rteCombine32ms1b (x - 1)).toNat hne
  have hlog : (x - 1).toNat.log2 = 31 := by
    have hge : 31 ≤ (x - 1).toNat.log2 := (Nat.le_log2 hne).mpr (by omega)
    have hlt : (x - 1).toNat.log2 < 32 := (Nat.log2_lt hne).mpr (x - 1).isLt
    omega
  apply BitVec.eq_of_toNat_eq
  rw [rteAlign32pow2, BitVec.toNat_add, hfill, hlog]
  decide

theorem rteAlign32pow2_ne_zero_iff {x : BitVec 32} :
    rteAlign32pow2 x ≠ 0 ↔ 0 < x.toNat ∧ x.toNat ≤ 2 ^ 31 := by
  constructor
  · intro hne
    refine ⟨?_, ?_⟩
    · rcases Nat.eq_zero_or_pos x.toNat with hzero | hpos
      · obtain rfl : x = 0 := BitVec.eq_of_toNat_eq hzero
        exact absurd rteAlign32pow2_zero hne
      · exact hpos
    · by_contra hlarge
      exact hne (rteAlign32pow2_of_large (by omega))
  · rintro ⟨hpos, hle⟩ hzero
    obtain ⟨k, -, hpow, -⟩ := rteAlign32pow2_spec hpos hle
    have := Nat.two_pow_pos k
    rw [← hpow, hzero] at this
    exact absurd this (by decide)

/-! ## `rte_ring_init` -/

/-- The ring is one of those that `rte_ring_init` sets up. -/
theorem rteRingInit_ok {name : List Char} {count flags : BitVec 32} {r : RteRing α}
    (h : rteRingInit α name count flags = .ok r) :
    r.mask = r.size - 1 ∧ r.slots = List.replicate r.size.toNat none ∧
      (∀ sd, (r.ht sd).head = 0 ∧ (r.ht sd).tail = 0) ∧
      if hasFlag flags RING_F_EXACT_SZ then
        r.size = rteAlign32pow2 (count + 1) ∧ r.capacity = count
      else POWEROF2 count = true ∧ count ≤ RTE_RING_SZ_MASK ∧ r.size = count ∧
        r.capacity = count - 1 := by
  unfold rteRingInit at h
  split at h
  · cases h
  · split at h
    · rename_i hexact
      obtain rfl := Except.ok.inj h
      rw [if_pos hexact]
      exact ⟨rfl, rfl, fun sd => by cases sd <;> exact ⟨rfl, rfl⟩, rfl, rfl⟩
    · rename_i hexact
      split at h
      · cases h
      · rename_i hcheck
        obtain rfl := Except.ok.inj h
        rw [if_neg hexact]
        rw [Bool.or_eq_true, not_or, decide_eq_true_iff] at hcheck
        refine ⟨rfl, rfl, fun sd => by cases sd <;> exact ⟨rfl, rfl⟩, ?_, ?_, rfl, rfl⟩
        · simpa using hcheck.1
        · exact BitVec.not_lt.mp hcheck.2

/-- A ring as `rte_ring_init` leaves it is sound if its table has a power of
    two of slots and the capacity is below. -/
theorem sound_of_init {name : List Char} {count flags : BitVec 32} {r : RteRing α} {k : Nat}
    (h : rteRingInit α name count flags = .ok r) (hk : k ≤ 31) (hsize : r.size.toNat = 2 ^ k)
    (hcap : r.capacity.toNat < 2 ^ k) : r.Sound k := by
  obtain ⟨hmask, hslots, -⟩ := rteRingInit_ok h
  have hpos := Nat.two_pow_pos k
  refine ⟨hk, hsize, ?_, hcap, ?_⟩
  · rw [hmask]
    bv_omega
  · rw [hslots, List.length_replicate, hsize]

theorem RteRing.Sound.pos {r : RteRing α} {k : Nat} (h : r.Sound k) : 0 < r.size.toNat := by
  rw [h.size]
  exact Nat.two_pow_pos k

/-- A ring that was set up is sound just if it has any slots. -/
theorem sound_iff_of_init {name : List Char} {count flags : BitVec 32} {r : RteRing α}
    (h : rteRingInit α name count flags = .ok r) : (∃ k, r.Sound k) ↔ r.size ≠ 0 := by
  constructor
  · rintro ⟨k, hsound⟩ hzero
    have := hsound.pos
    rw [hzero] at this
    exact absurd this (by decide)
  · intro hne
    obtain ⟨-, -, -, hrest⟩ := rteRingInit_ok h
    split at hrest
    · obtain ⟨hsize, hcap⟩ := hrest
      obtain ⟨hpos, hle⟩ := rteAlign32pow2_ne_zero_iff.mp (hsize ▸ hne)
      obtain ⟨k, hk, hsize', hxle, -⟩ := rteAlign32pow2_spec hpos hle
      refine ⟨k, sound_of_init h hk (by rw [hsize, hsize']) ?_⟩
      have hcount : (count + 1).toNat = count.toNat + 1 := by bv_omega
      rw [hcap]
      omega
    · obtain ⟨hpow, hmax, hsize, hcap⟩ := hrest
      obtain ⟨k, hk⟩ := exists_two_pow_of_sub_one_and (x := count) (fun h0 => hne (hsize.trans h0))
        (by simpa [POWEROF2] using hpow)
      have hbound : count.toNat ≤ 0x7fffffff := hmax
      have hk31 : k ≤ 31 := by
        by_contra hlarge
        have := Nat.pow_le_pow_right (show 0 < 2 by decide) (show 32 ≤ k by omega)
        omega
      have hpos := Nat.two_pow_pos k
      refine ⟨k, sound_of_init h hk31 (by rw [hsize, hk]) ?_⟩
      rw [hcap]
      bv_omega

/-- Which rings are sound: with an exact size all up to `2 ^ 31 - 1`, and else
    all but that of size 0, which passes the check for a power of two.  On a
    sound ring the table is the smallest that is larger than the capacity, and
    the capacity is the count asked for, or one less where the count is the
    size of the table. -/
theorem rteRingInit_sound_iff {name : List Char} {count flags : BitVec 32} {r : RteRing α}
    (h : rteRingInit α name count flags = .ok r) :
    ((∃ k, r.Sound k) ↔
        if hasFlag flags RING_F_EXACT_SZ then count.toNat < 2 ^ 31 else count ≠ 0) ∧
      ∀ k, r.Sound k → (∀ j, r.capacity.toNat < 2 ^ j → k ≤ j) ∧
        r.capacity.toNat + (if hasFlag flags RING_F_EXACT_SZ then 0 else 1) = count.toNat := by
  rw [sound_iff_of_init h]
  obtain ⟨-, -, -, hrest⟩ := rteRingInit_ok h
  cases hexact : hasFlag flags RING_F_EXACT_SZ with
  | true =>
      rw [hexact, if_pos rfl] at hrest
      obtain ⟨hsize, hcap⟩ := hrest
      rw [if_pos rfl, if_pos rfl, hsize, rteAlign32pow2_ne_zero_iff]
      refine ⟨⟨fun ⟨hpos, hle⟩ => by bv_omega, fun hlt => ⟨by bv_omega, by bv_omega⟩⟩,
        fun k hsound => ⟨fun j hj => ?_, by rw [hcap, Nat.add_zero]⟩⟩
      have hne : rteAlign32pow2 (count + 1) ≠ 0 := hsize ▸ (sound_iff_of_init h).mp ⟨k, hsound⟩
      obtain ⟨hpos, hle⟩ := rteAlign32pow2_ne_zero_iff.mp hne
      obtain ⟨k', hk', hpow, -, hleast⟩ := rteAlign32pow2_spec hpos hle
      have hkk : k = k' := by
        have := hsound.size
        rw [hsize, hpow] at this
        exact (Nat.pow_right_injective (Nat.le_refl 2) this).symm
      rw [hkk]
      rw [hcap] at hj
      exact hleast j (by bv_omega)
  | false =>
      rw [hexact, if_neg (by decide)] at hrest
      obtain ⟨-, -, hsize, hcap⟩ := hrest
      rw [if_neg (by decide), if_neg (by decide), hsize]
      refine ⟨Iff.rfl, fun k hsound => ?_⟩
      have hpow := hsound.size
      have hpos := Nat.two_pow_pos k
      rw [hsize] at hpow
      have hval : r.capacity.toNat + 1 = count.toNat := by
        rw [hcap]
        bv_omega
      refine ⟨fun j hj => ?_, hval⟩
      exact (Nat.pow_le_pow_iff_right (a := 2) (by decide)).mp (by omega)

/-- A ring of size 0 is set up, with all 32-bit indexes for its capacity; one
    of size 4 is sound. -/
theorem rteRingInit_zero : ∃ r r' : RteRing Nat, rteRingInit Nat ['q'] 0 0 = .ok r ∧
    r.capacity = 0xffffffff ∧ (¬ ∃ k, r.Sound k) ∧ rteRingInit Nat ['q'] 4 0 = .ok r' ∧
    r'.capacity = 3 ∧ ∃ k, r'.Sound k := by
  obtain ⟨r, hinit, hcap⟩ : ∃ r : RteRing Nat, rteRingInit Nat ['q'] 0 0 = .ok r ∧
      r.capacity = 0xffffffff := ⟨_, rfl, by decide⟩
  obtain ⟨r', hinit', hcap'⟩ : ∃ r : RteRing Nat, rteRingInit Nat ['q'] 4 0 = .ok r ∧
      r.capacity = 3 := ⟨_, rfl, by decide⟩
  refine ⟨r, r', hinit, hcap, fun hsound => ?_, hinit', hcap', ?_⟩
  · exact absurd ((rteRingInit_sound_iff hinit).1.mp hsound) (by decide)
  · exact (rteRingInit_sound_iff hinit').1.mpr (by decide)

/-! ## The copy loops -/

theorem switchIndexes_eq (idx : Nat) {m : Nat} (h : m < 4) :
    switchIndexes idx m = List.range' idx m := by
  match m with
  | 0 | 1 | 2 | 3 => rfl

/-- The unrolled loop copies what the plain loop would. -/
theorem unrolledIndexes_eq (idx n : Nat) : unrolledIndexes idx n = List.range' idx n := by
  have hmain : ∀ m, (List.range m).flatMap
      (fun j => [idx + 4 * j, idx + 4 * j + 1, idx + 4 * j + 2, idx + 4 * j + 3]) =
        List.range' idx (4 * m) := by
    intro m
    induction m with
    | zero => rfl
    | succ m ih =>
        rw [List.range_succ, List.flatMap_append, ih, List.flatMap_singleton,
          show 4 * (m + 1) = 4 * m + 4 by omega, ← List.range'_append_1]
        rfl
  calc unrolledIndexes idx n
      = List.range' idx (4 * (n / 4)) ++ List.range' (idx + 4 * (n / 4)) (n % 4) := by
        rw [unrolledIndexes, hmain, switchIndexes_eq _ (Nat.mod_lt n (by decide))]
    _ = List.range' idx n := by rw [List.range'_append_1, Nat.div_add_mod]

/-- The `i`-th copy goes to the slot of the `i`-th position from the head. -/
theorem getElem?_ptrIndexes {r : RteRing α} {k a : Nat} {n : BitVec 32} (h : r.Sound k)
    (hn : n.toNat ≤ 2 ^ k) (i : Nat) :
    (r.ptrIndexes (counter 32 a) n)[i]? =
      if i < n.toNat then some ((a + i) % 2 ^ k) else none := by
  have hidx : (counter 32 a &&& r.mask).toNat = a % 2 ^ k :=
    toNat_counter_and_mask (by have := h.le; omega) h.mask
  have hmod := Nat.mod_lt a (Nat.two_pow_pos k)
  have hpow : 2 ^ k ≤ 2 ^ 31 := Nat.pow_le_pow_right (by decide) h.le
  have hadd : ((counter 32 a &&& r.mask) + n).toNat = a % 2 ^ k + n.toNat := by
    rw [BitVec.toNat_add, hidx, Nat.mod_eq_of_lt (by omega)]
  -- the slot of position `a + i`, before and after the end of the table
  have hslot : ∀ i, a % 2 ^ k + i < 2 ^ k → (a + i) % 2 ^ k = a % 2 ^ k + i := fun i hi => by
    rw [Nat.add_mod, Nat.mod_eq_of_lt (show i < 2 ^ k by omega), Nat.mod_eq_of_lt hi]
  have hwrap : ∀ i, i < 2 ^ k → 2 ^ k ≤ a % 2 ^ k + i →
      (a + i) % 2 ^ k = a % 2 ^ k + i - 2 ^ k := fun i hi hge => by
    rw [Nat.add_mod, Nat.mod_eq_of_lt hi, Nat.mod_eq_sub_mod hge, Nat.mod_eq_of_lt (by omega)]
  unfold RteRing.ptrIndexes
  simp only [BitVec.lt_def, hadd, hidx, h.size]
  split
  · rename_i hin
    rw [unrolledIndexes_eq]
    split
    · rename_i hi
      rw [List.getElem?_range' (by simpa using hi), hslot i (by omega), Nat.one_mul]
    · rename_i hi
      exact List.getElem?_eq_none (by simpa using Nat.not_lt.mp hi)
  · rename_i hout
    by_cases hend : i < 2 ^ k - a % 2 ^ k
    · rw [List.getElem?_append_left (by simpa using hend),
        List.getElem?_range' (by simpa using hend), if_pos (by omega), hslot i (by omega),
        Nat.one_mul]
    · rw [List.getElem?_append_right (by simpa using Nat.not_lt.mp hend), List.length_range']
      split
      · rename_i hi
        rw [List.getElem?_range (by omega), hwrap i (by omega) (by omega)]
        congr 1
        omega
      · rename_i hi
        exact List.getElem?_eq_none (by simp; omega)

end LinuxLearning.Ring
