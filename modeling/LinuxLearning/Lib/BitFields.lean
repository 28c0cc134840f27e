/-
  LinuxLearning.Lib.BitFields

  Words made of bit fields of one width, and arithmetic on all fields at
  once.  The fields of `k` bits of a word are its digits in base `2 ^ k`.
  Masks, shifts and additions put neighbouring fields together to fields of
  twice the width, as long as no field outgrows its bits, and one
  multiplication adds up all fields in the highest one.
-/

import Mathlib.Data.Nat.Digits.Defs
import Mathlib.Tactic.Ring

namespace LinuxLearning.Lib

variable {k n c s x : Nat}

/-! ## A low and a high part -/

/-- Words that consist of a low and a high part are combined part by part. -/
theorem and_add_mul {a b y : Nat} (ha : a < 2 ^ k) (hb : b < 2 ^ k) :
    (a + 2 ^ k * x) &&& (b + 2 ^ k * y) = (a &&& b) + 2 ^ k * (x &&& y) := by
  have hpos : 0 < 2 ^ k := Nat.two_pow_pos k
  rw [← Nat.mod_add_div ((a + 2 ^ k * x) &&& (b + 2 ^ k * y)) (2 ^ k), Nat.and_mod_two_pow,
    Nat.and_div_two_pow, Nat.add_mul_mod_self_left, Nat.add_mul_mod_self_left,
    Nat.mod_eq_of_lt ha, Nat.mod_eq_of_lt hb, Nat.add_mul_div_left _ _ hpos,
    Nat.add_mul_div_left _ _ hpos, Nat.div_eq_of_lt ha, Nat.div_eq_of_lt hb, Nat.zero_add,
    Nat.zero_add]

/-- The mask of the low halves of `n` fields of `2 * k` bits. -/
def lowMask (k n : Nat) : Nat := Nat.ofDigits (2 ^ (2 * k)) (List.replicate n (2 ^ k - 1))

/-- The word with a one in each of `n` fields of `k` bits. -/
def ones (k n : Nat) : Nat := Nat.ofDigits (2 ^ k) (List.replicate n 1)

/-- The mask leaves of the lowest field its low half. -/
theorem and_lowMask_succ {l h : Nat} (hl : l < 2 ^ k) (hh : h < 2 ^ k) :
    (l + 2 ^ k * h + 2 ^ (2 * k) * x) &&& lowMask k (n + 1) =
      l + 2 ^ (2 * k) * (x &&& lowMask k n) := by
  have hsq : 2 ^ (2 * k) = 2 ^ k * 2 ^ k := by rw [Nat.two_mul, Nat.pow_add]
  -- both words have a lowest field of `2 * k` bits, so the rest can be taken apart
  have hlow : l + 2 ^ k * h < 2 ^ (2 * k) := by
    have hmul : 2 ^ k * h ≤ 2 ^ k * (2 ^ k - 1) := Nat.mul_le_mul_left _ (by omega)
    rw [Nat.mul_sub, Nat.mul_one, ← hsq] at hmul
    have hle : 2 ^ k ≤ 2 ^ (2 * k) := Nat.pow_le_pow_right (by decide) (by omega)
    omega
  have hmask : 2 ^ k - 1 < 2 ^ (2 * k) := by
    have hle : 2 ^ k ≤ 2 ^ (2 * k) := Nat.pow_le_pow_right (by decide) (by omega)
    have hpos : 0 < 2 ^ k := Nat.two_pow_pos k
    omega
  rw [lowMask, List.replicate_succ, Nat.ofDigits_cons, and_add_mul hlow hmask,
    Nat.and_two_pow_sub_one_eq_mod, Nat.add_mul_mod_self_left, Nat.mod_eq_of_lt hl]
  rfl

/-- Shifting by half a field moves a half of each field down. -/
theorem shiftRight_half {l h : Nat} (hl : l < 2 ^ k) :
    (l + 2 ^ k * h + 2 ^ (2 * k) * x) >>> k =
      h + 2 ^ k * (x % 2 ^ k) + 2 ^ (2 * k) * (x >>> k) := by
  have hsq : 2 ^ (2 * k) = 2 ^ k * 2 ^ k := by rw [Nat.two_mul, Nat.pow_add]
  have hpos : 0 < 2 ^ k := Nat.two_pow_pos k
  rw [Nat.shiftRight_eq_div_pow, Nat.shiftRight_eq_div_pow, hsq, Nat.add_assoc, Nat.mul_assoc,
    ← Nat.mul_add, Nat.add_mul_div_left _ _ hpos, Nat.div_eq_of_lt hl, Nat.zero_add, Nat.add_assoc,
    Nat.mul_assoc, ← Nat.mul_add, Nat.mod_add_div]

/-! ## Neighbouring fields -/

/-- Two fields of `k` bits as one of `2 * k`. -/
def join (k : Nat) (p : Nat × Nat) : Nat := p.1 + 2 ^ k * p.2

section Pairs

variable {ps : List (Nat × Nat)}

/-- Words are added field by field. -/
theorem ofDigits_map_add {α : Type*} (b : Nat) (f g : α → Nat) (l : List α) :
    Nat.ofDigits b (l.map f) + Nat.ofDigits b (l.map g) =
      Nat.ofDigits b (l.map fun a => f a + g a) := by
  rw [Nat.ofDigits_add_ofDigits_eq_ofDigits_zipWith_of_length_eq (by simp), List.zipWith_map,
    List.zipWith_self]

/-- The lowest half field. -/
theorem mod_two_pow_lt (hc : 2 * c < 2 ^ k) (h : ∀ p ∈ ps, p.1 ≤ c) :
    2 * (Nat.ofDigits (2 ^ (2 * k)) (ps.map (join k)) % 2 ^ k) < 2 ^ k := by
  cases ps with
  | nil =>
      rw [List.map_nil, Nat.ofDigits_nil, Nat.zero_mod]
      exact Nat.two_pow_pos k
  | cons p ps =>
      have hle : p.1 ≤ c := h p (List.mem_cons_self ..)
      -- it is the lower half of the first pair
      rw [List.map_cons, Nat.ofDigits_cons, join, Nat.two_mul k, Nat.pow_add, Nat.add_assoc,
        Nat.mul_assoc, ← Nat.mul_add, Nat.add_mul_mod_self_left, Nat.mod_eq_of_lt (by omega)]
      omega

/-- The low halves. -/
theorem and_lowMask (h : ∀ p ∈ ps, p.1 < 2 ^ k ∧ p.2 < 2 ^ k) :
    Nat.ofDigits (2 ^ (2 * k)) (ps.map (join k)) &&& lowMask k ps.length =
      Nat.ofDigits (2 ^ (2 * k)) (ps.map Prod.fst) := by
  induction ps with
  | nil => simp
  | cons p ps ih =>
      rw [List.forall_mem_cons] at h
      rw [List.map_cons, List.length_cons, Nat.ofDigits_cons, join, and_lowMask_succ h.1.1 h.1.2,
        ih h.2, List.map_cons, Nat.ofDigits_cons]

/-- The high halves. -/
theorem shiftRight_and_lowMask (h : ∀ p ∈ ps, p.1 < 2 ^ k ∧ p.2 < 2 ^ k) :
    (Nat.ofDigits (2 ^ (2 * k)) (ps.map (join k))) >>> k &&& lowMask k ps.length =
      Nat.ofDigits (2 ^ (2 * k)) (ps.map Prod.snd) := by
  induction ps with
  | nil => simp
  | cons p ps ih =>
      rw [List.forall_mem_cons] at h
      rw [List.map_cons, List.length_cons, Nat.ofDigits_cons, join, shiftRight_half h.1.1,
        and_lowMask_succ h.1.2 (Nat.mod_lt _ (Nat.two_pow_pos k)), ih h.2, List.map_cons,
        Nat.ofDigits_cons]

/-- The sums of the halves, where a half field has a bit to spare. -/
theorem add_shiftRight_and_lowMask (hc : 2 * c < 2 ^ k) (h : ∀ p ∈ ps, p.1 ≤ c ∧ p.2 ≤ c) :
    (Nat.ofDigits (2 ^ (2 * k)) (ps.map (join k)) +
        (Nat.ofDigits (2 ^ (2 * k)) (ps.map (join k))) >>> k) &&& lowMask k ps.length =
      Nat.ofDigits (2 ^ (2 * k)) (ps.map fun p => p.1 + p.2) := by
  induction ps with
  | nil => simp
  | cons p ps ih =>
      rw [List.forall_mem_cons] at h
      obtain ⟨⟨hfst, hsnd⟩, hps⟩ := h
      -- the shift moves the lowest half of the next field into this one's upper half
      have hnext := mod_two_pow_lt hc fun q hq => (hps q hq).1
      rw [List.map_cons, List.length_cons, List.map_cons, Nat.ofDigits_cons, Nat.ofDigits_cons,
        join, shiftRight_half (by omega), ← ih hps]
      -- the lower half of the sum is what counts, the upper one does not run over
      rw [← @and_lowMask_succ k ps.length _ (p.1 + p.2) _ (by omega)
        (show p.2 + Nat.ofDigits (2 ^ (2 * k)) (ps.map (join k)) % 2 ^ k < 2 ^ k by omega)]
      congr 1
      ring

end Pairs

/-! ## Sums of fields -/

/-- `x` is made of `n` fields of `k` bits; each holds at most `c`, and
    together they hold `s`. -/
def Fields (k n c s x : Nat) : Prop :=
  ∃ fs : List Nat, fs.length = n ∧ (∀ f ∈ fs, f ≤ c) ∧ fs.sum = s ∧ x = Nat.ofDigits (2 ^ k) fs

namespace Fields

/-- A word is made of its bits. -/
theorem of_bitVec {w : Nat} (v : BitVec w) : Fields 1 w 1 v.cpop.toNat v.toNat := by
  induction w with
  | zero =>
      obtain rfl := BitVec.of_length_zero (x := v)
      exact ⟨[], rfl, by simp, by simp, by simp⟩
  | succ w ih =>
      -- the highest bit is a field more, behind those of the other bits
      obtain ⟨fs, hlen, hle, hsum, hv⟩ := ih (v.setWidth w)
      refine ⟨fs ++ [v.msb.toNat], by simp [hlen], ?_, ?_, ?_⟩
      · rw [List.forall_mem_append, List.forall_mem_singleton]
        exact ⟨hle, Bool.toNat_le _⟩
      · rw [List.sum_append, List.sum_singleton, hsum, Nat.add_comm, ← BitVec.toNat_cpop_cons,
          BitVec.cons_msb_setWidth]
      · have hcons := congrArg BitVec.toNat (BitVec.cons_msb_setWidth v)
        rw [BitVec.toNat_cons', Nat.shiftLeft_eq] at hcons
        rw [Nat.ofDigits_append, Nat.ofDigits_singleton, hlen, ← hv, ← hcons, Nat.pow_one]
        ring

/-- The word has no bits above its fields. -/
theorem lt_two_pow (h : Fields k n c s x) (hk : 0 < k) (hc : c < 2 ^ k) : x < 2 ^ (k * n) := by
  obtain ⟨fs, rfl, hle, -, rfl⟩ := h
  rw [Nat.pow_mul]
  exact Nat.ofDigits_lt_base_pow_length (Nat.one_lt_two_pow (by omega)) fun f hf =>
    Nat.lt_of_le_of_lt (hle f hf) hc

/-- Fields taken two by two. -/
theorem exists_pairs (h : Fields k (2 * n) c s x) :
    ∃ ps : List (Nat × Nat), ps.length = n ∧ (∀ p ∈ ps, p.1 ≤ c ∧ p.2 ≤ c) ∧
      (ps.map fun p => p.1 + p.2).sum = s ∧ x = Nat.ofDigits (2 ^ (2 * k)) (ps.map (join k)) := by
  induction n generalizing s x with
  | zero =>
      obtain ⟨fs, hlen, -, rfl, rfl⟩ := h
      obtain rfl := List.eq_nil_of_length_eq_zero hlen
      exact ⟨[], rfl, by simp, rfl, by simp⟩
  | succ n ih =>
      obtain ⟨fs, hlen, hle, rfl, rfl⟩ := h
      obtain ⟨a, b, rest, rfl⟩ : ∃ a b rest, fs = a :: b :: rest := by
        match fs, hlen with
        | a :: b :: rest, _ => exact ⟨a, b, rest, rfl⟩
      simp only [List.forall_mem_cons, List.length_cons] at hle hlen
      obtain ⟨ps, hps, hbound, hsum, hx⟩ := ih ⟨rest, by omega, hle.2.2, rfl, rfl⟩
      refine ⟨(a, b) :: ps, congrArg _ hps, ?_, ?_, ?_⟩
      · exact List.forall_mem_cons.mpr ⟨⟨hle.1, hle.2.1⟩, hbound⟩
      · rw [List.map_cons, List.sum_cons, List.sum_cons, List.sum_cons, hsum, Nat.add_assoc]
      · rw [List.map_cons, Nat.ofDigits_cons, Nat.ofDigits_cons, Nat.ofDigits_cons, hx, join]
        ring

/-- What the sums of neighbours are again. -/
theorem of_pairs {ps : List (Nat × Nat)} (hlen : ps.length = n)
    (hle : ∀ p ∈ ps, p.1 ≤ c ∧ p.2 ≤ c) (hsum : (ps.map fun p => p.1 + p.2).sum = s) :
    Fields k n (2 * c) s (Nat.ofDigits (2 ^ k) (ps.map fun p => p.1 + p.2)) := by
  refine ⟨_, by rw [List.length_map, hlen], fun f hf => ?_, hsum, rfl⟩
  obtain ⟨p, hp, rfl⟩ := List.mem_map.mp hf
  obtain ⟨hfst, hsnd⟩ := hle p hp
  omega

/-- Low and high halves are masked out and added. -/
theorem add_halves (h : Fields k (2 * n) c s x) (hc : c < 2 ^ k) :
    Fields (2 * k) n (2 * c) s ((x &&& lowMask k n) + (x >>> k &&& lowMask k n)) := by
  obtain ⟨ps, rfl, hle, hsum, rfl⟩ := h.exists_pairs
  have hlt : ∀ p ∈ ps, p.1 < 2 ^ k ∧ p.2 < 2 ^ k := fun p hp =>
    ⟨Nat.lt_of_le_of_lt (hle p hp).1 hc, Nat.lt_of_le_of_lt (hle p hp).2 hc⟩
  rw [and_lowMask hlt, shiftRight_and_lowMask hlt, ofDigits_map_add]
  exact of_pairs rfl hle hsum

/-- Of two bits `a` and `b`, `a + 2 * b` less `b` is the sum. -/
theorem sub_halves (h : Fields 1 (2 * n) 1 s x) :
    (x >>> 1 &&& lowMask 1 n) ≤ x ∧ Fields 2 n 2 s (x - (x >>> 1 &&& lowMask 1 n)) := by
  obtain ⟨ps, rfl, hle, hsum, rfl⟩ := h.exists_pairs
  have hlt : ∀ p ∈ ps, p.1 < 2 ^ 1 ∧ p.2 < 2 ^ 1 := fun p hp =>
    ⟨Nat.lt_of_le_of_lt (hle p hp).1 (by decide), Nat.lt_of_le_of_lt (hle p hp).2 (by decide)⟩
  have hsplit : Nat.ofDigits (2 ^ (2 * 1)) (ps.map (join 1)) =
      Nat.ofDigits (2 ^ (2 * 1)) (ps.map fun p => p.1 + p.2) +
        Nat.ofDigits (2 ^ (2 * 1)) (ps.map Prod.snd) := by
    rw [ofDigits_map_add]
    congr 2
    funext p
    rw [join]
    ring
  rw [shiftRight_and_lowMask hlt, hsplit, Nat.add_sub_cancel]
  exact ⟨Nat.le_add_left .., of_pairs rfl hle hsum⟩

/-- Shifted and added first, masked then. -/
theorem add_shiftRight (h : Fields k (2 * n) c s x) (hc : 2 * c < 2 ^ k) :
    Fields (2 * k) n (2 * c) s ((x + x >>> k) &&& lowMask k n) := by
  obtain ⟨ps, rfl, hle, hsum, rfl⟩ := h.exists_pairs
  rw [add_shiftRight_and_lowMask hc hle]
  exact of_pairs rfl hle hsum

end Fields

/-! ## All fields in the highest one -/

/-- The sums of the first fields, of the first two, and so on. -/
def partialSums : List Nat → List Nat
  | [] => []
  | f :: fs => f :: (partialSums fs).map (f + ·)

@[simp] theorem length_partialSums (fs : List Nat) : (partialSums fs).length = fs.length := by
  induction fs with
  | nil => rfl
  | cons f fs ih => simp [partialSums, ih]

theorem le_sum_of_mem_partialSums {fs : List Nat} {p : Nat} (hp : p ∈ partialSums fs) :
    p ≤ fs.sum := by
  induction fs generalizing p with
  | nil => cases hp
  | cons f fs ih =>
      rw [List.sum_cons]
      rcases List.mem_cons.mp hp with rfl | hp
      · exact Nat.le_add_right ..
      · obtain ⟨q, hq, rfl⟩ := List.mem_map.mp hp
        exact Nat.add_le_add_left (ih hq) f

/-- The last of the partial sums is the sum. -/
theorem exists_partialSums {fs : List Nat} (h : fs ≠ []) :
    ∃ init, partialSums fs = init ++ [fs.sum] := by
  induction fs with
  | nil => exact absurd rfl h
  | cons f fs ih =>
      rw [partialSums, List.sum_cons]
      by_cases hfs : fs = []
      · subst hfs
        exact ⟨[], rfl⟩
      · obtain ⟨init, hinit⟩ := ih hfs
        exact ⟨f :: init.map (f + ·), by simp [hinit]⟩

/-- A number added to every field. -/
theorem ofDigits_map_add_left (k f : Nat) (fs : List Nat) :
    Nat.ofDigits (2 ^ k) (fs.map (f + ·)) = f * ones k fs.length + Nat.ofDigits (2 ^ k) fs := by
  induction fs with
  | nil => simp [ones]
  | cons g fs ih =>
      have hones : ones k (fs.length + 1) = 1 + 2 ^ k * ones k fs.length := rfl
      rw [List.map_cons, Nat.ofDigits_cons, Nat.ofDigits_cons, List.length_cons, hones, ih]
      ring

/-- Multiplied by ones, the fields are the partial sums; what lies above them
    is lost where the word ends. -/
theorem ofDigits_mul_ones (k : Nat) (fs : List Nat) :
    ∃ q, Nat.ofDigits (2 ^ k) fs * ones k fs.length =
      Nat.ofDigits (2 ^ k) (partialSums fs) + (2 ^ k) ^ fs.length * q := by
  induction fs with
  | nil => exact ⟨0, by simp [partialSums]⟩
  | cons f fs ih =>
      obtain ⟨q, hq⟩ := ih
      refine ⟨q + Nat.ofDigits (2 ^ k) fs, ?_⟩
      -- the new field comes to each of the places, the others go one place up
      have htop : ones k (fs.length + 1) = ones k fs.length + (2 ^ k) ^ fs.length := by
        rw [ones, List.replicate_succ', Nat.ofDigits_append, List.length_replicate,
          Nat.ofDigits_singleton, Nat.mul_one]
        rfl
      have hlow : ones k (fs.length + 1) = 1 + 2 ^ k * ones k fs.length := rfl
      rw [partialSums, Nat.ofDigits_cons, Nat.ofDigits_cons, List.length_cons,
        ofDigits_map_add_left, length_partialSums]
      calc (f + 2 ^ k * Nat.ofDigits (2 ^ k) fs) * ones k (fs.length + 1)
          = f * ones k (fs.length + 1) +
              2 ^ k * Nat.ofDigits (2 ^ k) fs * ones k (fs.length + 1) := Nat.add_mul ..
        _ = f * (1 + 2 ^ k * ones k fs.length) +
              2 ^ k * (Nat.ofDigits (2 ^ k) fs * ones k fs.length) +
              2 ^ k * Nat.ofDigits (2 ^ k) fs * (2 ^ k) ^ fs.length := by
            rw [← hlow, htop]
            ring
        _ = _ := by
            rw [hq]
            ring

/-- The highest field is the sum of all, if it can hold that. -/
theorem Fields.mul_ones (h : Fields k (n + 1) c s x) (hk : 0 < k) (hs : s < 2 ^ k) :
    x * ones k (n + 1) % 2 ^ (k * (n + 1)) / 2 ^ (k * n) = s := by
  obtain ⟨fs, hlen, -, rfl, rfl⟩ := h
  have hbase : 1 < 2 ^ k := Nat.one_lt_two_pow (by omega)
  have hlt : ∀ p ∈ partialSums fs, p < 2 ^ k := fun p hp =>
    Nat.lt_of_le_of_lt (le_sum_of_mem_partialSums hp) hs
  obtain ⟨init, hinit⟩ := exists_partialSums (List.ne_nil_of_length_eq_add_one hlen)
  have hlast : init.length = n := by
    have hlen' := congrArg List.length hinit
    simp only [length_partialSums, hlen, List.length_append, List.length_singleton] at hlen'
    omega
  obtain ⟨q, hq⟩ := ofDigits_mul_ones k fs
  -- the partial sums fit their fields: cut to the word they are all that is left
  have hword := Nat.ofDigits_lt_base_pow_length hbase hlt
  rw [hinit, List.forall_mem_append] at hlt
  -- and those below the highest field do not reach into it
  have hbelow := Nat.ofDigits_lt_base_pow_length hbase hlt.1
  rw [length_partialSums, hlen] at hword
  rw [hlast] at hbelow
  rw [hlen] at hq
  rw [hq, Nat.pow_mul, Nat.pow_mul, Nat.add_mul_mod_self_left, Nat.mod_eq_of_lt hword, hinit,
    Nat.ofDigits_append, Nat.ofDigits_singleton, hlast,
    Nat.add_mul_div_left _ _ (Nat.pow_pos (Nat.two_pow_pos k)), Nat.div_eq_of_lt hbelow,
    Nat.zero_add]

end LinuxLearning.Lib
