/-
  LinuxLearning.Kni.NgChecksum

  `ng_checksum` of `kni.c` (`udp.c`, `tcp.c`, `netarch.c` and `ustack.c` have
  the same function), with its `int` accumulator and its two folding steps,
  and the version of `tcp_from_king.c`, which folds in a loop.  Both are the
  Internet checksum.
-/

import LinuxLearning.Ustack.Checksum

namespace LinuxLearning.Kni

open Lib Ustack

/-! ## The two versions -/

/-- The sum of two `int`s; `none` where it overflows. -/
def addInt (x y : BitVec 32) : Option (BitVec 32) :=
  if x.saddOverflow y then none else some (x + y)

/-- The loop of `ng_checksum` and the odd byte behind it, on the `len` bytes
    at `off`. -/
def ngChecksumSum (addr : Ptr) : Nat → Nat → BitVec 32 → Option (BitVec 32)
  | off, len + 2, sum =>
      (addInt sum ((addr.load16 off).setWidth 32)).bind (ngChecksumSum addr (off + 2) len)
  | off, 1, sum => addInt sum ((addr off).setWidth 32)
  | _, 0, sum => some sum

/-- `ng_checksum`; `none` where its accumulator overflows. -/
def ngChecksum (addr : Ptr) (len : Nat) : Option (BitVec 16) := do
  let sum ← ngChecksumSum addr 0 len 0
  let sum ← addInt (sum.sshiftRight 16) (sum &&& 0xffff)
  -- the carry of this addition is not folded again
  let sum ← addInt sum (sum.sshiftRight 16)
  return (~~~sum).setWidth 16

/-- The sum of `ng_checksum` in `tcp_from_king.c`, whose `long` has room for
    any buffer. -/
def ngChecksumKingSum (addr : Ptr) : Nat → Nat → Nat → Nat
  | off, count + 2, sum =>
      ngChecksumKingSum addr (off + 2) count (sum + (addr.load16 off).toNat)
  | off, 1, sum => sum + (addr off).toNat
  | _, 0, sum => sum

/-- `while (sum >> 16) sum = (sum & 0xffff) + (sum >> 16)` -/
def foldCarries (sum : Nat) : Nat :=
  if sum / 65536 = 0 then sum else foldCarries (sum % 65536 + sum / 65536)
termination_by sum
decreasing_by omega

/-- `ng_checksum` of `tcp_from_king.c`. -/
def ngChecksumKing (addr : Ptr) (count : Nat) : BitVec 16 :=
  ~~~BitVec.ofNat 16 (foldCarries (ngChecksumKingSum addr 0 count 0))

/-! ## The Internet checksum -/

/-- The little-endian 16-bit words of the `len` bytes at `off`, an odd last
    byte padded with zero. -/
def words (addr : Ptr) : Nat → Nat → List Nat
  | off, len + 2 => (addr.load16 off).toNat :: words addr (off + 2) len
  | off, 1 => [(addr off).toNat]
  | _, 0 => []

/-- The complement of the one's complement sum of the words. -/
def internetChecksum (addr : Ptr) (len : Nat) : BitVec 16 :=
  ~~~BitVec.ofNat 16 ((words addr 0 len).foldl (onesAdd 65535) 0)

theorem sum_words (addr : Ptr) (off len : Nat) :
    (words addr off len).sum = wordSum addr off len := by
  induction off, len using words.induct with
  | case1 off len ih => rw [words, wordSum, List.sum_cons, ih]
  | case2 off => rw [words, wordSum, List.sum_singleton]
  | case3 off => rw [words, wordSum, List.sum_nil]

theorem le_of_mem_words {addr : Ptr} {off len w : Nat} (h : w ∈ words addr off len) :
    w ≤ 65535 := by
  induction off, len using words.induct with
  | case1 off len ih =>
      rw [words, List.mem_cons] at h
      obtain rfl | hrest := h
      · have := (addr.load16 off).isLt
        omega
      · exact ih hrest
  | case2 off =>
      rw [words, List.mem_singleton] at h
      have := (addr off).isLt
      omega
  | case3 off => cases h

theorem internetChecksum_eq (addr : Ptr) (len : Nat) :
    internetChecksum addr len = ~~~BitVec.ofNat 16 (onesReduce 65535 (wordSum addr 0 len)) := by
  rw [internetChecksum, foldl_onesAdd (fun _ => le_of_mem_words) (Nat.zero_le _), Nat.zero_add,
    sum_words]

/-- An odd byte adds less than a word. -/
theorem wordSum_le_words (addr : Ptr) (off len : Nat) :
    wordSum addr off len ≤ 65535 * (len / 2) + 255 * (len % 2) := by
  induction off, len using words.induct with
  | case1 off len ih =>
      have hword := (addr.load16 off).isLt
      rw [wordSum]
      omega
  | case2 off =>
      have hbyte := (addr off).isLt
      rw [wordSum]
      omega
  | case3 off => exact Nat.zero_le _

/-! ## The loop version -/

theorem ngChecksumKingSum_eq (addr : Ptr) (off count sum : Nat) :
    ngChecksumKingSum addr off count sum = sum + wordSum addr off count := by
  induction off, count, sum using ngChecksumKingSum.induct addr with
  | case1 off count sum ih => rw [ngChecksumKingSum, ih, wordSum, Nat.add_assoc]
  | case2 off sum => rw [ngChecksumKingSum, wordSum]
  | case3 off sum => rw [ngChecksumKingSum, wordSum, Nat.add_zero]

/-- Folding until no carry remains reduces the sum. -/
theorem foldCarries_eq (sum : Nat) : foldCarries sum = onesReduce 65535 sum := by
  induction sum using foldCarries.induct with
  | case1 sum h =>
      rw [foldCarries, if_pos h]
      exact (onesReduce_of_le (by omega)).symm
  | case2 sum h ih =>
      rw [foldCarries, if_neg h, ih, Nat.add_comm]
      exact onesReduce_fold 65535 sum

theorem ngChecksumKing_eq (addr : Ptr) (count : Nat) :
    ngChecksumKing addr count = internetChecksum addr count := by
  rw [ngChecksumKing, ngChecksumKingSum_eq, foldCarries_eq, Nat.zero_add, internetChecksum_eq]

/-! ## The version with two folding steps -/

/-- A sum that stays below 2^31 is taken. -/
theorem addInt_of_lt {x y : BitVec 32} (h : x.toNat + y.toNat < 2 ^ 31) :
    addInt x y = some (x + y) ∧ (x + y).toNat = x.toNat + y.toNat := by
  have hx : x.toInt = x.toNat := BitVec.toInt_eq_toNat_of_lt (by omega)
  have hy : y.toInt = y.toNat := BitVec.toInt_eq_toNat_of_lt (by omega)
  have hno : x.saddOverflow y = false := by
    rw [BitVec.saddOverflow, hx, hy]
    simp only [Bool.or_eq_false_iff, decide_eq_false_iff_not]
    omega
  refine ⟨by simp [addInt, hno], ?_⟩
  rw [BitVec.toNat_add]
  omega

/-- The accumulator does not overflow where the sum of the largest words that
    there can be stays below 2^31. -/
theorem ngChecksumSum_ok {addr : Ptr} {off len : Nat} {sum : BitVec 32}
    (h : sum.toNat + wordSum addr off len < 2 ^ 31) :
    ∃ s, ngChecksumSum addr off len sum = some s ∧ s.toNat = sum.toNat + wordSum addr off len := by
  induction off, len using words.induct generalizing sum with
  | case1 off len ih =>
      rw [wordSum] at h
      have hword : ((addr.load16 off).setWidth 32).toNat = (addr.load16 off).toNat := by
        have := (addr.load16 off).isLt
        rw [BitVec.toNat_setWidth]
        omega
      obtain ⟨hadd, hnat⟩ := addInt_of_lt
        (show sum.toNat + ((addr.load16 off).setWidth 32).toNat < 2 ^ 31 by omega)
      rw [hword] at hnat
      obtain ⟨s, hs, hval⟩ := @ih (sum + (addr.load16 off).setWidth 32) (by omega)
      refine ⟨s, by rw [ngChecksumSum, hadd, Option.bind_some, hs], ?_⟩
      rw [hval, hnat, wordSum, Nat.add_assoc]
  | case2 off =>
      rw [wordSum] at h
      have hbyte : ((addr off).setWidth 32).toNat = (addr off).toNat := by
        have := (addr off).isLt
        rw [BitVec.toNat_setWidth]
        omega
      obtain ⟨hadd, hnat⟩ := addInt_of_lt
        (show sum.toNat + ((addr off).setWidth 32).toNat < 2 ^ 31 by omega)
      exact ⟨_, by rw [ngChecksumSum, hadd], by rw [hnat, hbyte, wordSum]⟩
  | case3 off => exact ⟨sum, by rw [ngChecksumSum], by rw [wordSum, Nat.add_zero]⟩

/-- `sum >> 16` of a sum that is not negative. -/
theorem toNat_sshiftRight16 {x : BitVec 32} (h : x.toNat < 2 ^ 31) :
    (x.sshiftRight 16).toNat = x.toNat / 65536 := by
  have hmsb : x.msb = false := by
    rw [BitVec.msb_eq_false_iff_two_mul_lt]
    omega
  rw [BitVec.toNat_sshiftRight_of_msb_false hmsb, Nat.shiftRight_eq_div_pow]

theorem toNat_and_ffff (x : BitVec 32) : (x &&& 0xffff).toNat = x.toNat % 65536 := by
  rw [BitVec.toNat_and]
  exact Nat.and_two_pow_sub_one_eq_mod x.toNat 16

/-- The first fold leaves at most one carry, and then the low half is too small
    for the second one to carry again. -/
theorem ngChecksum_of_sum {addr : Ptr} {len : Nat} (h : wordSum addr 0 len < 2 ^ 31) :
    ngChecksum addr len = some (internetChecksum addr len) := by
  have hzero : (0 : BitVec 32).toNat = 0 := rfl
  obtain ⟨s, hs, hval⟩ : ∃ s, ngChecksumSum addr 0 len 0 = some s ∧
      s.toNat = (0 : BitVec 32).toNat + wordSum addr 0 len := ngChecksumSum_ok (by omega)
  rw [hzero, Nat.zero_add] at hval
  have hhigh := toNat_sshiftRight16 (x := s) (by omega)
  have hlow := toNat_and_ffff s
  obtain ⟨hfirst, hfirstVal⟩ := addInt_of_lt
    (show (s.sshiftRight 16).toNat + (s &&& 0xffff).toNat < 2 ^ 31 by omega)
  generalize s.sshiftRight 16 + (s &&& 0xffff) = t at hfirst hfirstVal
  have hcarry := toNat_sshiftRight16 (x := t) (by omega)
  obtain ⟨hsecond, hsecondVal⟩ := addInt_of_lt
    (show t.toNat + (t.sshiftRight 16).toNat < 2 ^ 31 by omega)
  generalize t + t.sshiftRight 16 = u at hsecond hsecondVal
  -- modulo 2^16 the second addition is a fold
  have hfold : u.toNat % 65536 = onesReduce 65535 (wordSum addr 0 len) := by
    have hle : t.toNat / 65536 + t.toNat % 65536 ≤ 65535 := by omega
    calc u.toNat % 65536 = t.toNat / 65536 + t.toNat % 65536 := by omega
      _ = onesReduce 65535 (t.toNat / 65536 + t.toNat % 65536) := (onesReduce_of_le hle).symm
      _ = onesReduce 65535 (s.toNat / 65536 + s.toNat % 65536) := by
          rw [onesReduce_fold 65535 t.toNat]
          congr 1
          omega
      _ = onesReduce 65535 (wordSum addr 0 len) := by rw [onesReduce_fold 65535 s.toNat, hval]
  have hresult : (~~~u).setWidth 16 = internetChecksum addr len := by
    rw [internetChecksum_eq, ← hfold]
    apply BitVec.eq_of_toNat_eq
    have hu := u.isLt
    rw [BitVec.toNat_setWidth, BitVec.toNat_not, BitVec.toNat_not, BitVec.toNat_ofNat]
    omega
  simp only [ngChecksum, hs, hfirst, hsecond, Option.bind_eq_bind, Option.bind_some, hresult,
    Option.pure_def]

/-- The largest sum is that of 32767 words and an odd byte. -/
theorem wordSum_lt {addr : Ptr} {len : Nat} (h : len ≤ 65535) : wordSum addr 0 len < 2 ^ 31 := by
  have hle : wordSum addr 0 len ≤ 65535 * (len / 2) + 255 * (len % 2) := wordSum_le_words addr 0 len
  omega

/-! ## Checksums that verify -/

/-- Stored in a field that was zero, the checksum completes the sum to all
    ones. -/
theorem internetChecksum_store16 {addr : Ptr} {len k : Nat} (heven : k % 2 = 0)
    (hk : k + 2 ≤ len) (hclear : addr.load16 k = 0) :
    internetChecksum (addr.store16 k (internetChecksum addr len)) len = 0 := by
  generalize hc : internetChecksum addr len = c
  have hsum : wordSum (addr.store16 k c) 0 len = wordSum addr 0 len + c.toNat := by
    have hstore : wordSum (addr.store16 k c) 0 len + (addr.load16 k).toNat =
        wordSum addr 0 len + c.toNat :=
      wordSum_store16 (Nat.zero_le k) (by omega) (by omega)
    rwa [hclear] at hstore
  have hle : onesReduce 65535 (wordSum addr 0 len) ≤ 65535 := by
    unfold onesReduce
    split <;> omega
  have hcval : c.toNat = 65535 - onesReduce 65535 (wordSum addr 0 len) := by
    rw [← hc, internetChecksum_eq, BitVec.toNat_not, BitVec.toNat_ofNat]
    omega
  have hpos : 0 < wordSum addr 0 len + c.toNat := by
    by_cases hzero : wordSum addr 0 len = 0
    · rw [hzero, onesReduce_zero] at hcval
      omega
    · omega
  rw [internetChecksum_eq, hsum, onesReduce_add_eq hpos (by rw [hcval]; omega)]
  rfl

/-- `ng_checksum` is the Internet checksum: on every buffer of up to 65535
    bytes its accumulator does not overflow, its two folding steps answer what
    the loop of the other version does, the complement of the one's complement
    sum of the words, and the buffer with that answer in a field that was zero
    has the checksum 0. -/
theorem ng_checksum_internet (addr : Ptr) (len : Nat) (hlen : len ≤ 65535) :
    ∃ c, ngChecksum addr len = some c ∧ c = ngChecksumKing addr len ∧
      c = internetChecksum addr len ∧
      ∀ k, k % 2 = 0 → k + 2 ≤ len → addr.load16 k = 0 →
        ngChecksum (addr.store16 k c) len = some 0 := by
  refine ⟨_, ngChecksum_of_sum (wordSum_lt hlen), (ngChecksumKing_eq addr len).symm, rfl, ?_⟩
  intro k heven hk hclear
  rw [ngChecksum_of_sum (wordSum_lt hlen), internetChecksum_store16 heven hk hclear]

/-- An echo reply's header with its checksum field, which lies at offset 2,
    cleared. -/
theorem ng_checksum_internet_icmp :
    ∃ c, ngChecksum (Ptr.ofList [0, 0, 0, 0, 0x12, 0x34, 0, 1]) 8 = some c ∧
      c = ngChecksumKing (Ptr.ofList [0, 0, 0, 0, 0x12, 0x34, 0, 1]) 8 ∧
      c = internetChecksum (Ptr.ofList [0, 0, 0, 0, 0x12, 0x34, 0, 1]) 8 ∧
      ∀ k, k % 2 = 0 → k + 2 ≤ 8 → (Ptr.ofList [0, 0, 0, 0, 0x12, 0x34, 0, 1]).load16 k = 0 →
        ngChecksum ((Ptr.ofList [0, 0, 0, 0, 0x12, 0x34, 0, 1]).store16 k c) 8 = some 0 :=
  ng_checksum_internet _ 8 (by decide)

end LinuxLearning.Kni
