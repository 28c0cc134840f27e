/-
  LinuxLearning.Ddos.BitCount

  `count_bit` of `tcp_from_king.c`: the number of one bits in a buffer, read
  as 64-bit words.  The word step adds up bits, then pairs, then nibbles in
  place, and one multiplication adds up the bytes.

  The loop tests behind its body, so it reads a first word whatever the
  length is, and a last one whole.
-/

import LinuxLearning.Lib.BitFields
import LinuxLearning.Ustack.Memory

namespace LinuxLearning.Ddos

open Lib Ustack

/-! ## The code -/

/-- A 64-bit load. -/
def load64 (p : Ptr) (off : Nat) : BitVec 64 := p.load32 (off + 4) ++ p.load32 off

/-- What the loop does to a word before it adds it to `set_bits`;
    `sizeof(v)` is 8. -/
def wordStep (v : BitVec 64) : BitVec 64 :=
  let v := v - ((v >>> 1) &&& 0x5555555555555555)
  let v := (v &&& 0x3333333333333333) + ((v >>> 2) &&& 0x3333333333333333)
  let v := (v + (v >>> 4)) &&& 0x0F0F0F0F0F0F0F0F
  (v * 0x0101010101010101) >>> ((8 - 1) * 8)

/-- The loop, with `ptr` at byte `off` behind `msg` and `end` at byte
    `length`: `set_bits` behind it, and at which bytes words were read. -/
def countBitLoop (msg : Ptr) (length off : Nat) (setBits : BitVec 64) : BitVec 64 × List Nat :=
  let setBits := setBits + wordStep (load64 msg off)
  -- `while(end > ptr)`, when `ptr` has moved on
  if length > off + 8 then
    let r := countBitLoop msg length (off + 8) setBits
    (r.1, off :: r.2)
  else (setBits, [off])
termination_by length - off

/-- What `count_bit` returns, and at which bytes of the buffer it read a word. -/
structure BitCount where
  setBits : BitVec 32
  reads : List Nat

/-- `count_bit(msg, length)`; the sum is cut to 32 bits when it is returned. -/
def countBit (msg : Ptr) (length : BitVec 32) : BitCount :=
  let r := countBitLoop msg length.toNat 0 0
  { setBits := r.1.setWidth 32, reads := r.2 }

/-! ## The word step -/

/-- A mask of the word hides that a sum ran over. -/
theorem mod_and_of_lt {a m n : Nat} (hm : m < 2 ^ n) : a % 2 ^ n &&& m = a &&& m := by
  have hlt : a &&& m < 2 ^ n := Nat.lt_of_le_of_lt Nat.and_le_right hm
  rw [← Nat.mod_eq_of_lt hlt, Nat.and_mod_two_pow, Nat.mod_eq_of_lt hm]

theorem lowMask_one : lowMask 1 32 = 0x5555555555555555 := by decide
theorem lowMask_two : lowMask 2 16 = 0x3333333333333333 := by decide
theorem lowMask_four : lowMask 4 8 = 0x0F0F0F0F0F0F0F0F := by decide
theorem ones_eight : ones 8 8 = 0x0101010101010101 := by decide

section Steps

variable {v : BitVec 64}

theorem toNat_pairs (h : v.toNat >>> 1 &&& lowMask 1 32 ≤ v.toNat) :
    (v - ((v >>> 1) &&& 0x5555555555555555)).toNat =
      v.toNat - (v.toNat >>> 1 &&& lowMask 1 32) := by
  have hmask : ((v >>> 1) &&& 0x5555555555555555#64).toNat = v.toNat >>> 1 &&& lowMask 1 32 := by
    rw [BitVec.toNat_and, BitVec.toNat_ushiftRight, lowMask_one]
    rfl
  rw [← hmask] at h ⊢
  exact BitVec.toNat_sub_of_le (BitVec.le_def.mpr h)

theorem toNat_nibbles
    (h : (v.toNat &&& lowMask 2 16) + (v.toNat >>> 2 &&& lowMask 2 16) < 2 ^ 64) :
    ((v &&& 0x3333333333333333) + ((v >>> 2) &&& 0x3333333333333333)).toNat =
      (v.toNat &&& lowMask 2 16) + (v.toNat >>> 2 &&& lowMask 2 16) := by
  rw [lowMask_two] at h ⊢
  rw [BitVec.toNat_add, BitVec.toNat_and, BitVec.toNat_and, BitVec.toNat_ushiftRight]
  exact Nat.mod_eq_of_lt h

theorem toNat_bytes (v : BitVec 64) :
    ((v + (v >>> 4)) &&& 0x0F0F0F0F0F0F0F0F).toNat =
      (v.toNat + v.toNat >>> 4) &&& lowMask 4 8 := by
  rw [lowMask_four, BitVec.toNat_and, BitVec.toNat_add, BitVec.toNat_ushiftRight]
  exact mod_and_of_lt (by decide)

theorem toNat_sum (v : BitVec 64) :
    ((v * 0x0101010101010101) >>> ((8 - 1) * 8)).toNat =
      v.toNat * ones 8 8 % 2 ^ (8 * 8) / 2 ^ (8 * 7) := by
  rw [ones_eight, BitVec.toNat_ushiftRight, BitVec.toNat_mul, Nat.shiftRight_eq_div_pow]
  rfl

end Steps

/-- The word step is the population count. -/
theorem wordStep_eq (v : BitVec 64) : wordStep v = v.cpop := by
  have hcpop : v.cpop.toNat < 2 ^ 8 := Nat.lt_of_le_of_lt (BitVec.toNat_cpop_le v) (by decide)
  -- pairs of two bits, nibbles of two pairs, bytes of two nibbles
  obtain ⟨hle, hpairs⟩ := @Fields.sub_halves 32 _ _ (Fields.of_bitVec v)
  have hnibbles := @Fields.add_halves 2 16 _ _ _ hpairs (by decide)
  have hbytes := @Fields.add_shiftRight 4 8 _ _ _ hnibbles (by decide)
  have hlt := hnibbles.lt_two_pow (by decide) (by decide)
  -- the same numbers, as the words of the code
  rw [← toNat_pairs hle] at hnibbles hbytes hlt
  rw [← toNat_nibbles hlt, ← toNat_bytes] at hbytes
  apply BitVec.eq_of_toNat_eq
  -- a byte can hold the sum of all eight, which is at most 64
  exact (toNat_sum _).trans (@Fields.mul_ones 8 7 _ _ _ hbytes (by decide) hcpop)

/-! ## The loop -/

/-- The number of one bits in the first `n` bytes behind `msg`. -/
def oneBits (msg : Ptr) (n : Nat) : Nat := ((List.range n).map fun i => (msg i).cpop.toNat).sum

theorem oneBits_add (msg : Ptr) (m n : Nat) :
    oneBits msg (m + n) = oneBits msg m + oneBits (msg.offset m) n := by
  rw [oneBits, List.range_add, List.map_append, List.sum_append, List.map_map]
  rfl

theorem oneBits_le (msg : Ptr) (n : Nat) : oneBits msg n ≤ 8 * n := by
  induction n with
  | zero => exact Nat.le_refl 0
  | succ n ih =>
      have hbyte : oneBits (msg.offset n) 1 ≤ 8 := by
        simpa [oneBits] using BitVec.toNat_cpop_le (msg n)
      rw [oneBits_add]
      omega

/-- A word has the one bits of its eight bytes. -/
theorem cpop_load64 (msg : Ptr) (off : Nat) :
    (load64 msg off).cpop.toNat = oneBits (msg.offset off) 8 := by
  simp only [load64, Ptr.load32, Ptr.load16, BitVec.toNat_cpop_append, oneBits, Ptr.offset,
    Nat.add_assoc]
  simp [List.range_succ]
  omega

/-- Every word from `off` on is read once and counted. -/
theorem countBitLoop_eq (msg : Ptr) (m off : Nat) (setBits : BitVec 64) :
    (countBitLoop msg (off + 8 * (m + 1)) off setBits).1 =
        setBits + BitVec.ofNat 64 (oneBits (msg.offset off) (8 * (m + 1))) ∧
      (countBitLoop msg (off + 8 * (m + 1)) off setBits).2.flatMap (List.range' · 8) =
        List.range' off (8 * (m + 1)) := by
  have hword : ∀ off, wordStep (load64 msg off) = BitVec.ofNat 64 (oneBits (msg.offset off) 8) :=
    fun off => by rw [wordStep_eq, ← cpop_load64, BitVec.ofNat_toNat, BitVec.setWidth_eq]
  induction m generalizing off setBits with
  | zero =>
      rw [countBitLoop, if_neg (by omega), hword]
      exact ⟨rfl, rfl⟩
  | succ m ih =>
      obtain ⟨hbits, hreads⟩ := ih (off + 8) (setBits + wordStep (load64 msg off))
      have hlen : off + 8 * (m + 1 + 1) = off + 8 + 8 * (m + 1) := by omega
      have hsplit : 8 * (m + 1 + 1) = 8 + 8 * (m + 1) := by omega
      rw [countBitLoop, if_pos (by omega), hlen]
      constructor
      · rw [hbits, hword, BitVec.add_assoc, ← BitVec.ofNat_add, hsplit, oneBits_add,
          Ptr.offset_offset]
      · rw [List.flatMap_cons, hreads, hsplit, List.range'_append_1]

/-- A buffer of whole words that is not empty. -/
structure WholeWords (length : Nat) : Prop where
  pos : 0 < length
  dvd : 8 ∣ length

/-- Over the whole buffer. -/
theorem countBitLoop_of_wholeWords (msg : Ptr) {length : Nat} (h : WholeWords length) :
    (countBitLoop msg length 0 0).1 = BitVec.ofNat 64 (oneBits msg length) ∧
      (countBitLoop msg length 0 0).2.flatMap (List.range' · 8) = List.range length := by
  obtain ⟨k, rfl⟩ := h.dvd
  obtain ⟨m, rfl⟩ : ∃ m, k = m + 1 := Nat.exists_eq_add_one.mpr (Nat.pos_of_mul_pos_left h.pos)
  have hself : msg.offset 0 = msg := funext fun i => congrArg msg (Nat.zero_add i)
  have hloop := countBitLoop_eq msg m 0 0
  rw [Nat.zero_add, hself] at hloop
  exact ⟨hloop.1.trans (BitVec.zero_add _), hloop.2.trans List.range_eq_range'.symm⟩

/-- The number of one bits of the buffer, where 32 bits can hold it. -/
theorem toNat_setBits (msg : Ptr) {length : BitVec 32} (h : WholeWords length.toNat)
    (hlt : length.toNat < 2 ^ 29) :
    (countBit msg length).setBits.toNat = oneBits msg length.toNat := by
  -- at most eight for each of the bytes, which 32 bits can hold
  have hle := oneBits_le msg length.toNat
  rw [countBit, (countBitLoop_of_wholeWords msg h).1, BitVec.toNat_setWidth, BitVec.toNat_ofNat,
    Nat.mod_mod_of_dvd _ (by decide), Nat.mod_eq_of_lt (by omega)]

/-- The word step is the population count of every word; of a buffer of whole
    words each byte is read once, from the first to the last, no other byte is
    read, and the number of its one bits is returned. -/
theorem count_bit_counts :
    (∀ v, wordStep v = v.cpop) ∧
      ∀ (msg : Ptr) (length : BitVec 32), WholeWords length.toNat → length.toNat < 2 ^ 29 →
        (countBit msg length).reads.flatMap (List.range' · 8) = List.range length.toNat ∧
          (countBit msg length).setBits.toNat = oneBits msg length.toNat :=
  ⟨wordStep_eq, fun msg _ h hlt => ⟨(countBitLoop_of_wholeWords msg h).2, toNat_setBits msg h hlt⟩⟩

/-- A buffer of 16 bytes: 255, fourteen zeros, and 7. -/
theorem count_bit_counts_sixteen :
    (countBit (Ptr.ofList (255 :: List.replicate 14 0 ++ [7])) 16).setBits.toNat = 11 := by
  rw [(count_bit_counts.2 _ 16 ⟨by decide, by decide⟩ (by decide)).2]
  decide

end LinuxLearning.Ddos
