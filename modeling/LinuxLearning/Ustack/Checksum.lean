/-
  LinuxLearning.Ustack.Checksum

  The checksum routines of `rte_ip.h`: the sums they take do not overflow,
  they are sums with end-around carry, and the checksums they answer verify.
-/

import LinuxLearning.Lib.OnesComplement
import LinuxLearning.Ustack.Memory

namespace LinuxLearning.Ustack

open Lib

/-! ## Sums -/

/-- The sum of the 16-bit words of the `len` bytes at `off`, an odd last byte
    counting as a word. -/
def wordSum (buf : Ptr) : Nat → Nat → Nat
  | off, len + 2 => (buf.load16 off).toNat + wordSum buf (off + 2) len
  | off, 1 => (buf off).toNat
  | _, 0 => 0

theorem wordSum_le (buf : Ptr) (off len : Nat) : wordSum buf off len ≤ 65535 * ((len + 1) / 2) := by
  induction off, len using wordSum.induct with
  | case1 off len ih =>
      have hword := (buf.load16 off).isLt
      rw [wordSum]
      omega
  | case2 off =>
      have hbyte := (buf off).isLt
      rw [wordSum]
      omega
  | case3 off =>
      exact Nat.zero_le _

/-- The 32 bits hold the sum of up to 65536 words. -/
theorem toNat_rteRawCksumSum {buf : Ptr} {off len : Nat} {sum : BitVec 32}
    (h : sum.toNat + 65535 * ((len + 1) / 2) < 2 ^ 32) :
    (rteRawCksumSum buf off len sum).toNat = sum.toNat + wordSum buf off len := by
  induction off, len, sum using rteRawCksumSum.induct buf with
  | case1 off len sum ih =>
      have hword := (buf.load16 off).isLt
      have hsum : (sum + (buf.load16 off).setWidth 32).toNat =
          sum.toNat + (buf.load16 off).toNat := by
        rw [BitVec.toNat_add, BitVec.toNat_setWidth]
        omega
      rw [rteRawCksumSum, wordSum, ih (by omega), hsum, Nat.add_assoc]
  | case2 off sum =>
      have hbyte := (buf off).isLt
      rw [rteRawCksumSum, wordSum, BitVec.toNat_add, BitVec.toNat_setWidth]
      omega
  | case3 off sum => rw [rteRawCksumSum, wordSum, Nat.add_zero]

theorem wordSum_congr {p q : Ptr} {off len : Nat} (h : ∀ i, off ≤ i → i < off + len → p i = q i) :
    wordSum p off len = wordSum q off len := by
  induction off, len using wordSum.induct with
  | case1 off len ih =>
      rw [wordSum, wordSum, Ptr.load16_congr fun i hi hi' => h i hi (by omega),
        ih fun i hi hi' => h i (by omega) (by omega)]
  | case2 off => rw [wordSum, wordSum, h off (by omega) (by omega)]
  | case3 off => rw [wordSum, wordSum]

/-- A word that is stored takes the place of the one that was there. -/
theorem wordSum_store16 {p : Ptr} {k off len : Nat} {v : BitVec 16} (hlow : off ≤ k)
    (hhigh : k + 2 ≤ off + len) (heven : (k - off) % 2 = 0) :
    wordSum (p.store16 k v) off len + (p.load16 k).toNat = wordSum p off len + v.toNat := by
  induction off, len using wordSum.induct with
  | case1 off len ih =>
      rw [wordSum, wordSum]
      by_cases hk : k = off
      · subst hk
        have hrest : wordSum (p.store16 k v) (k + 2) len = wordSum p (k + 2) len :=
          wordSum_congr fun i hi _ => Ptr.store16_apply_of_ne (by omega) (by omega)
        rw [Ptr.load16_store16, hrest]
        omega
      · have hword : (p.store16 k v).load16 off = p.load16 off :=
          Ptr.load16_store16_of_disjoint (by omega)
        have hrest := ih (by omega) (by omega) (by omega)
        rw [hword]
        omega
  | case2 off => omega
  | case3 off => omega

/-! ## Reduction -/

theorem toNat_foldCarry (x : BitVec 32) :
    (foldCarry x).toNat = x.toNat / 65536 + x.toNat % 65536 := by
  have hx := x.isLt
  have hhigh : ((x &&& 0xffff0000) >>> 16).toNat = x.toNat / 65536 := by
    have hmask : (0xffff0000 : BitVec 32).toNat >>> 16 = 2 ^ 16 - 1 := rfl
    rw [BitVec.toNat_ushiftRight, BitVec.toNat_and, Nat.shiftRight_and_distrib, hmask,
      Nat.and_two_pow_sub_one_eq_mod, Nat.shiftRight_eq_div_pow]
    omega
  have hlow : (x &&& 0xffff).toNat = x.toNat % 65536 := by
    rw [BitVec.toNat_and]
    exact Nat.and_two_pow_sub_one_eq_mod x.toNat 16
  rw [foldCarry, BitVec.toNat_add, hhigh, hlow]
  omega

/-- Two folds are enough. -/
theorem toNat_rteRawCksumReduce (x : BitVec 32) :
    (rteRawCksumReduce x).toNat = onesReduce 65535 x.toNat := by
  have hx := x.isLt
  have honce := toNat_foldCarry x
  have htwice := toNat_foldCarry (foldCarry x)
  have hle : (foldCarry (foldCarry x)).toNat ≤ 65535 := by omega
  calc (rteRawCksumReduce x).toNat = (foldCarry (foldCarry x)).toNat := by
        rw [rteRawCksumReduce, BitVec.toNat_setWidth]
        omega
    _ = onesReduce 65535 (foldCarry (foldCarry x)).toNat := (onesReduce_of_le hle).symm
    _ = onesReduce 65535 (foldCarry x).toNat := by rw [htwice, onesReduce_fold]
    _ = onesReduce 65535 x.toNat := by rw [honce, onesReduce_fold]

/-- `rte_raw_cksum` is the reduced sum. -/
theorem toNat_rteRawCksum {buf : Ptr} {len : Nat} (h : len < 2 ^ 16) :
    (rteRawCksum buf len).toNat = onesReduce 65535 (wordSum buf 0 len) := by
  have hzero : (0 : BitVec 32).toNat = 0 := rfl
  rw [rteRawCksum, toNat_rteRawCksumReduce, toNat_rteRawCksumSum (by omega), hzero, Nat.zero_add]

/-! ## Checksums that verify -/

/-- The IP header's checksum verifies: the header, checksum included, sums up
    to all ones. -/
def IpCksumVerifies (ip : Ptr) : Prop := rteRawCksum ip sizeofIpv4Hdr = 0xffff

/-- The TCP checksum verifies: the pseudo header and the segment, checksum
    included, sum up to all ones. -/
def TcpCksumVerifies (ip l4 : Ptr) : Prop :=
  let l4Len := (ntohs (Ipv4Hdr.totalLength ip)).toNat - sizeofIpv4Hdr
  rteRawCksumReduce (rteRawCksumSum l4 0 l4Len (rteRawCksumSum (psdHdr ip) 0 12 0)) = 0xffff

theorem eq_ones_of_toNat {v : BitVec 16} (h : v.toNat = 65535) : v = 0xffff :=
  BitVec.eq_of_toNat_eq h

/-- The answer of `rte_ipv4_cksum` completes the sum over the header. -/
theorem rteIpv4Cksum_completes (ip : Ptr) : 0 < (rteIpv4Cksum ip).toNat ∧
    65535 ∣ onesReduce 65535 (wordSum ip 0 20) + (rteIpv4Cksum ip).toNat := by
  have hraw : (rteRawCksum ip 20).toNat = onesReduce 65535 (wordSum ip 0 20) :=
    toNat_rteRawCksum (by omega)
  have hlt := (rteRawCksum ip 20).isLt
  rw [← hraw, rteIpv4Cksum, sizeofIpv4Hdr]
  by_cases hones : rteRawCksum ip 20 = 0xffff
  · simp only [if_pos hones]
    rw [hones]
    decide
  · simp only [if_neg hones]
    have hne : (rteRawCksum ip 20).toNat ≠ 65535 := fun h => hones (eq_ones_of_toNat h)
    rw [BitVec.toNat_not]
    omega

/-- Written to the cleared field, it verifies. -/
theorem ipCksumVerifies_store {ip : Ptr} (hclear : ip.load16 10 = 0) :
    IpCksumVerifies (ip.store16 10 (rteIpv4Cksum ip)) := by
  obtain ⟨hpos, hdvd⟩ := rteIpv4Cksum_completes ip
  have hsum : wordSum (ip.store16 10 (rteIpv4Cksum ip)) 0 20 =
      wordSum ip 0 20 + (rteIpv4Cksum ip).toNat := by
    have hstore : wordSum (ip.store16 10 (rteIpv4Cksum ip)) 0 20 + (ip.load16 10).toNat =
        wordSum ip 0 20 + (rteIpv4Cksum ip).toNat :=
      wordSum_store16 (by omega) (by omega) (by omega)
    rwa [hclear] at hstore
  apply eq_ones_of_toNat
  rw [sizeofIpv4Hdr, toNat_rteRawCksum (by omega), hsum]
  exact onesReduce_add_eq (by omega) hdvd

/-- The complement in 16 of 32 bits. -/
theorem toNat_not_and {y : BitVec 32} (h : y.toNat ≤ 65535) :
    (~~~y &&& 0xffff).toNat = 65535 - y.toNat := by
  have hmask : (0xffff : BitVec 32).toNat = 2 ^ 16 - 1 := rfl
  rw [BitVec.toNat_and, BitVec.toNat_not, hmask, Nat.and_two_pow_sub_one_eq_mod]
  omega

/-- The answer of `rte_ipv4_udptcp_cksum` completes the sum over the segment
    and the pseudo header. -/
theorem rteIpv4UdptcpCksum_completes {ip l4 : Ptr} {len : Nat}
    (hlen : (ntohs (Ipv4Hdr.totalLength ip)).toNat = sizeofIpv4Hdr + len) :
    0 < (rteIpv4UdptcpCksum ip l4).toNat ∧
    65535 ∣ onesReduce 65535 (wordSum (psdHdr ip) 0 12 + wordSum l4 0 len) +
      (rteIpv4UdptcpCksum ip l4).toNat := by
  have hlt := (ntohs (Ipv4Hdr.totalLength ip)).isLt
  have hraw : (rteRawCksum l4 len).toNat = onesReduce 65535 (wordSum l4 0 len) :=
    toNat_rteRawCksum (by omega)
  have hphdr : (rteIpv4PhdrCksum ip).toNat = onesReduce 65535 (wordSum (psdHdr ip) 0 12) :=
    toNat_rteRawCksum (by omega)
  have hrawLt := (rteRawCksum l4 len).isLt
  have hphdrLt := (rteIpv4PhdrCksum ip).isLt
  have hsum : ((rteRawCksum l4 len).setWidth 32 + (rteIpv4PhdrCksum ip).setWidth 32 :
      BitVec 32).toNat = (rteRawCksum l4 len).toNat + (rteIpv4PhdrCksum ip).toNat := by
    rw [BitVec.toNat_add, BitVec.toNat_setWidth, BitVec.toNat_setWidth]
    omega
  have hfold := toNat_foldCarry
    ((rteRawCksum l4 len).setWidth 32 + (rteIpv4PhdrCksum ip).setWidth 32)
  rw [hsum] at hfold
  have hle : (foldCarry ((rteRawCksum l4 len).setWidth 32 +
      (rteIpv4PhdrCksum ip).setWidth 32)).toNat ≤ 65535 := by omega
  -- one fold has reduced the sum of the two words
  have hreduced : (foldCarry ((rteRawCksum l4 len).setWidth 32 +
      (rteIpv4PhdrCksum ip).setWidth 32)).toNat =
      onesReduce 65535 (wordSum (psdHdr ip) 0 12 + wordSum l4 0 len) := by
    rw [← onesReduce_of_le hle, hfold, onesReduce_fold, hraw, hphdr, onesReduce_add,
      Nat.add_comm]
  have hnot := toNat_not_and hle
  have hnshort : ¬ (ntohs (Ipv4Hdr.totalLength ip)).toNat < sizeofIpv4Hdr := by omega
  have hl4Len : (ntohs (Ipv4Hdr.totalLength ip)).toNat - sizeofIpv4Hdr = len := by omega
  simp only [rteIpv4UdptcpCksum, if_neg hnshort, hl4Len, ← hreduced]
  rw [BitVec.toNat_setWidth]
  split
  · rename_i hzero
    rw [hzero] at hnot
    have hones : (0 : BitVec 32).toNat = 0 := rfl
    have h16 : (0xffff : BitVec 32).toNat = 65535 := rfl
    rw [h16]
    omega
  · rename_i hnz
    have hne : (~~~foldCarry ((rteRawCksum l4 len).setWidth 32 +
        (rteIpv4PhdrCksum ip).setWidth 32) &&& 0xffff).toNat ≠ 0 :=
      fun h => hnz (BitVec.eq_of_toNat_eq h)
    omega

/-- Written to the cleared field, it verifies. -/
theorem tcpCksumVerifies_store {ip l4 : Ptr} {len : Nat} (hclear : l4.load16 16 = 0)
    (hhdr : 18 ≤ len) (hlen : (ntohs (Ipv4Hdr.totalLength ip)).toNat = sizeofIpv4Hdr + len) :
    TcpCksumVerifies ip (l4.store16 16 (rteIpv4UdptcpCksum ip l4)) := by
  obtain ⟨hpos, hdvd⟩ : 0 < (rteIpv4UdptcpCksum ip l4).toNat ∧ _ :=
    rteIpv4UdptcpCksum_completes hlen
  have hlt := (ntohs (Ipv4Hdr.totalLength ip)).isLt
  have hsum : wordSum (l4.store16 16 (rteIpv4UdptcpCksum ip l4)) 0 len =
      wordSum l4 0 len + (rteIpv4UdptcpCksum ip l4).toNat := by
    have hstore : wordSum (l4.store16 16 (rteIpv4UdptcpCksum ip l4)) 0 len +
        (l4.load16 16).toNat = wordSum l4 0 len + (rteIpv4UdptcpCksum ip l4).toNat :=
      wordSum_store16 (by omega) (by omega) (by omega)
    rwa [hclear] at hstore
  have hpsd : (rteRawCksumSum (psdHdr ip) 0 12 0).toNat = wordSum (psdHdr ip) 0 12 := by
    rw [toNat_rteRawCksumSum (by decide)]
    exact Nat.zero_add _
  have hpsdLe := wordSum_le (psdHdr ip) 0 12
  have hl4Len : (ntohs (Ipv4Hdr.totalLength ip)).toNat - sizeofIpv4Hdr = len := by omega
  apply eq_ones_of_toNat
  rw [hl4Len, toNat_rteRawCksumReduce, toNat_rteRawCksumSum (by omega), hpsd, hsum,
    ← Nat.add_assoc]
  exact onesReduce_add_eq (by omega) hdvd

end LinuxLearning.Ustack
