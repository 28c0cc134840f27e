/-
  LinuxLearning.Ustack.ChecksumTest

  Which segments pass the checksum test of `ng_tcp_process`.  The test
  compares the transmitted checksum with what `rte_ipv4_udptcp_cksum` makes of
  the segment with that field cleared, where RFC 1071 sums the segment up as
  it was received.  The two differ on a transmitted checksum of zero: the
  helper never answers zero for a segment, and answers it for a length that
  is too small.
-/

import LinuxLearning.Ustack.TcpOutput
import LinuxLearning.Ustack.Checksum

namespace LinuxLearning.Ustack

open Lib

/-! ## The check of RFC 1071 -/

/-- The 16-bit words of a sequence of bytes in network order, an odd last byte
    padded with zero. -/
def netWords : List Byte → List Nat
  | hi :: lo :: rest => (256 * hi.toNat + lo.toNat) :: netWords rest
  | [hi] => [256 * hi.toNat]
  | [] => []

/-- `total_length`, in host order. -/
def totalLen (ip : Ptr) : Nat := (ntohs (Ipv4Hdr.totalLength ip)).toNat

/-- The pseudo header of a TCP segment: the addresses, a zero byte, the
    protocol and the length of the segment. -/
def pseudoHeader (ip : Ptr) : List Byte :=
  let tcpLen := BitVec.ofNat 16 (totalLen ip - sizeofIpv4Hdr)
  ip.bytes 12 8 ++ [0, Ipv4Hdr.nextProtoId ip, tcpLen.extractLsb' 8 8, tcpLen.extractLsb' 0 8]

/-- The one's complement sum of the pseudo header and the segment is
    0xffff. -/
def SumsToOnes (ip l4 : Ptr) : Prop :=
  (netWords (pseudoHeader ip ++ l4.bytes 0 (totalLen ip - sizeofIpv4Hdr))).foldl
    (onesAdd 65535) 0 = 0xffff

instance (ip l4 : Ptr) : Decidable (SumsToOnes ip l4) := inferInstanceAs (Decidable (_ = _))

/-- The segment as it was received, its checksum included, verifies. -/
def Mbuf.Verifies (m : Mbuf) : Prop := SumsToOnes m.iphdr m.l4hdr

instance (m : Mbuf) : Decidable m.Verifies := inferInstanceAs (Decidable (SumsToOnes _ _))

/-- All of the segment but its checksum sums up to 0xffff already. -/
def Mbuf.RestSumsToOnes (m : Mbuf) : Prop := SumsToOnes m.iphdr (TcpHdr.setCksum m.l4hdr 0)

/-! ## Sums in network order -/

theorem le_of_mem_netWords {bytes : List Byte} {w : Nat} (h : w ∈ netWords bytes) :
    w ≤ 65535 := by
  induction bytes using netWords.induct with
  | case1 hi lo rest ih =>
      rw [netWords, List.mem_cons] at h
      obtain rfl | hrest := h
      · have hhi := hi.isLt
        have hlo := lo.isLt
        omega
      · exact ih hrest
  | case2 hi =>
      rw [netWords, List.mem_singleton] at h
      have hhi := hi.isLt
      omega
  | case3 => cases h

theorem netWords_append {xs : List Byte} (ys : List Byte) (heven : xs.length % 2 = 0) :
    netWords (xs ++ ys) = netWords xs ++ netWords ys := by
  induction xs using netWords.induct with
  | case1 hi lo rest ih =>
      simp only [List.length_cons] at heven
      rw [List.cons_append, List.cons_append, netWords, netWords, ih (by omega), List.cons_append]
  | case2 hi => simp at heven
  | case3 => rfl

theorem Ptr.bytes_add_two (p : Ptr) (off len : Nat) :
    p.bytes off (len + 2) = p off :: p (off + 1) :: p.bytes (off + 2) len := by
  rw [Ptr.bytes_cons, Ptr.bytes_cons]

theorem toNat_load16 (p : Ptr) (off : Nat) :
    (p.load16 off).toNat = 256 * (p (off + 1)).toNat + (p off).toNat := by
  have hlo := (p off).isLt
  rw [Ptr.load16, BitVec.toNat_append, ← Nat.shiftLeft_add_eq_or_of_lt hlo, Nat.shiftLeft_eq]
  omega

/-- Storing what is there changes nothing. -/
theorem Ptr.store16_load16 (p : Ptr) (off : Nat) : p.store16 off (p.load16 off) = p := by
  funext i
  simp only [Ptr.store16, Ptr.load16, BitVec.extractLsb'_append_eq_left,
    BitVec.extractLsb'_append_eq_right]
  split
  · rename_i h
    rw [h]
  · split
    · rename_i h
      rw [h]
    · rfl

/-- The sum in network order is the sum in host order with its bytes swapped,
    up to multiples of 65535. -/
theorem sum_netWords_modEq (p : Ptr) (off len : Nat) :
    (netWords (p.bytes off len)).sum ≡ 256 * wordSum p off len [MOD 65535] := by
  induction off, len using wordSum.induct with
  | case1 off len ih =>
      rw [Ptr.bytes_add_two, netWords, List.sum_cons, wordSum, toNat_load16, Nat.mul_add]
      refine Nat.ModEq.add ?_ ih
      show (_ % _ = _ % _)
      omega
  | case2 off => rfl
  | case3 off => rfl

theorem sum_netWords_eq_zero_iff (p : Ptr) (off len : Nat) :
    (netWords (p.bytes off len)).sum = 0 ↔ wordSum p off len = 0 := by
  induction off, len using wordSum.induct with
  | case1 off len ih =>
      rw [Ptr.bytes_add_two, netWords, List.sum_cons, wordSum, toNat_load16, Nat.add_eq_zero_iff,
        ih]
      omega
  | case2 off =>
      simp [netWords, wordSum, Ptr.bytes]
  | case3 off => simp [netWords, wordSum, Ptr.bytes]

theorem bytes_ofList (bs : List Byte) : (Ptr.ofList bs).bytes 0 bs.length = bs := by
  apply List.ext_getElem (Ptr.length_bytes ..)
  intro i hi hi'
  simp only [Ptr.bytes, Ptr.ofList, List.getElem_map, List.getElem_range, Nat.zero_add]
  exact List.getD_eq_getElem _ _ hi'

/-! ## The sum over a segment -/

/-- The sum of the words of the pseudo header and the segment, as the target
    loads them. -/
def segmentSum (ip l4 : Ptr) : Nat :=
  wordSum (psdHdr ip) 0 12 + wordSum l4 0 (totalLen ip - sizeofIpv4Hdr)

/-- `rte_ipv4_phdr_cksum` sums up the pseudo header. -/
theorem psdHdr_eq {ip : Ptr} (h : 20 ≤ totalLen ip) : psdHdr ip = .ofList (pseudoHeader ip) := by
  have hlt := (ntohs (Ipv4Hdr.totalLength ip)).isLt
  have hlen : ntohs (Ipv4Hdr.totalLength ip) - BitVec.ofNat 16 sizeofIpv4Hdr =
      BitVec.ofNat 16 (totalLen ip - sizeofIpv4Hdr) := by
    apply BitVec.eq_of_toNat_eq
    simp only [totalLen, sizeofIpv4Hdr] at h ⊢
    rw [BitVec.toNat_sub_of_le (by rw [BitVec.le_def]; exact h), BitVec.toNat_ofNat,
      BitVec.toNat_ofNat]
    omega
  simp only [psdHdr, pseudoHeader, hlen]
  simp only [htons, ntohs, BitVec.extractLsb'_append_eq_left, BitVec.extractLsb'_append_eq_right]

theorem length_pseudoHeader (ip : Ptr) : (pseudoHeader ip).length = 12 := by
  simp [pseudoHeader]

/-- The check of RFC 1071 in terms of the sum that the target takes: the byte
    order does not matter. -/
theorem sumsToOnes_iff {ip l4 : Ptr} (h : 20 ≤ totalLen ip) :
    SumsToOnes ip l4 ↔ 0 < segmentSum ip l4 ∧ 65535 ∣ segmentSum ip l4 := by
  have hpsd : (pseudoHeader ip) = (psdHdr ip).bytes 0 12 := by
    rw [psdHdr_eq h, ← length_pseudoHeader ip, bytes_ofList]
  have hmod := (sum_netWords_modEq (psdHdr ip) 0 12).add
    (sum_netWords_modEq l4 0 (totalLen ip - sizeofIpv4Hdr))
  have hzero : (netWords ((psdHdr ip).bytes 0 12)).sum +
      (netWords (l4.bytes 0 (totalLen ip - sizeofIpv4Hdr))).sum = 0 ↔ segmentSum ip l4 = 0 := by
    rw [Nat.add_eq_zero_iff, sum_netWords_eq_zero_iff, sum_netWords_eq_zero_iff, segmentSum,
      Nat.add_eq_zero_iff]
  have heven : ((psdHdr ip).bytes 0 12).length % 2 = 0 := by rw [Ptr.length_bytes]
  rw [SumsToOnes, hpsd, foldl_onesAdd (fun _ => le_of_mem_netWords) (Nat.zero_le _), Nat.zero_add,
    netWords_append _ heven, List.sum_append, onesReduce_eq_iff (by decide),
    Nat.pos_iff_ne_zero, Nat.pos_iff_ne_zero, ne_eq, ne_eq, hzero]
  refine and_congr_right fun _ => ?_
  rw [← Nat.mul_add] at hmod
  rw [hmod.dvd_iff (Nat.dvd_refl 65535)]
  -- 256 has an inverse modulo 65535
  exact (Nat.Coprime.dvd_mul_left (by decide : Nat.Coprime 65535 256))

/-- The sum with the checksum field cleared is less by that checksum. -/
theorem segmentSum_setCksum {ip : Ptr} (l4 : Ptr) (h : 40 ≤ totalLen ip) :
    segmentSum ip (TcpHdr.setCksum l4 0) + (TcpHdr.cksum l4).toNat = segmentSum ip l4 := by
  have hstore : wordSum (l4.store16 16 0) 0 (totalLen ip - sizeofIpv4Hdr) +
      (l4.load16 16).toNat = wordSum l4 0 (totalLen ip - sizeofIpv4Hdr) + (0 : BitVec 16).toNat :=
    wordSum_store16 (Nat.zero_le _) (by rw [sizeofIpv4Hdr]; omega) (by decide)
  rw [segmentSum, segmentSum, TcpHdr.setCksum, TcpHdr.cksum, Nat.add_assoc, hstore]
  rfl

/-- The protocol number keeps the sum from being zero. -/
theorem segmentSum_pos {ip : Ptr} (l4 : Ptr) (hproto : Ipv4Hdr.nextProtoId ip ≠ 0) :
    0 < segmentSum ip l4 := by
  have hword : ((psdHdr ip).load16 8).toNat = 256 * (Ipv4Hdr.nextProtoId ip).toNat := by
    have hnine : (psdHdr ip) 9 = Ipv4Hdr.nextProtoId ip := by
      simp [psdHdr, Ptr.ofList, Ptr.bytes, List.range_succ]
    have height : (psdHdr ip) 8 = 0 := by
      simp [psdHdr, Ptr.ofList, Ptr.bytes, List.range_succ]
    rw [toNat_load16, hnine, height]
    rfl
  have hpos : 0 < (Ipv4Hdr.nextProtoId ip).toNat :=
    Nat.pos_of_ne_zero fun h => hproto (BitVec.eq_of_toNat_eq h)
  have hsum : ((psdHdr ip).load16 8).toNat ≤ wordSum (psdHdr ip) 0 12 := by
    simp only [wordSum, Nat.reduceAdd]
    omega
  rw [segmentSum]
  omega

/-! ## The test -/

/-- A segment of full length passes the test exactly if it verifies and its
    checksum is not zero. -/
theorem tcpCksumOk_iff {m : Mbuf} (hproto : Ipv4Hdr.nextProtoId m.iphdr = IPPROTO_TCP)
    (hlen : 40 ≤ totalLen m.iphdr) :
    tcpCksumOk m = true ↔ m.Verifies ∧ TcpHdr.cksum m.l4hdr ≠ 0 := by
  obtain ⟨hpos, hdvd⟩ := @rteIpv4UdptcpCksum_completes m.iphdr (TcpHdr.setCksum m.l4hdr 0)
    (totalLen m.iphdr - sizeofIpv4Hdr) (by rw [sizeofIpv4Hdr, ← totalLen]; omega)
  have hrest := segmentSum_pos (TcpHdr.setCksum m.l4hdr 0) (by rw [hproto]; decide)
  have hsum := segmentSum_setCksum m.l4hdr hlen
  have hmod := onesReduce_modEq 65535 (segmentSum m.iphdr (TcpHdr.setCksum m.l4hdr 0))
  have hreduced : 0 < onesReduce 65535 (segmentSum m.iphdr (TcpHdr.setCksum m.l4hdr 0)) :=
    Nat.pos_of_ne_zero fun h => Nat.ne_of_gt hrest (onesReduce_eq_zero_iff.mp h)
  rw [← segmentSum] at hdvd
  generalize segmentSum m.iphdr (TcpHdr.setCksum m.l4hdr 0) = rest at *
  have hle : onesReduce 65535 rest ≤ 65535 := by
    unfold onesReduce
    split <;> omega
  generalize onesReduce 65535 rest = r at *
  rw [tcpCksumOk, beq_iff_eq, Mbuf.Verifies, sumsToOnes_iff (by omega), ← hsum,
    (hmod.symm.add_right (TcpHdr.cksum m.l4hdr).toNat).dvd_iff (Nat.dvd_refl 65535)]
  have hclt := (rteIpv4UdptcpCksum m.iphdr (TcpHdr.setCksum m.l4hdr 0)).isLt
  have htlt := (TcpHdr.cksum m.l4hdr).isLt
  have hne : TcpHdr.cksum m.l4hdr ≠ 0 ↔ (TcpHdr.cksum m.l4hdr).toNat ≠ 0 :=
    not_congr (BitVec.toNat_inj (y := 0)).symm
  rw [← BitVec.toNat_inj, hne]
  generalize (rteIpv4UdptcpCksum m.iphdr (TcpHdr.setCksum m.l4hdr 0)).toNat = c at *
  generalize (TcpHdr.cksum m.l4hdr).toNat = t at *
  -- both checksums complete the same word between 1 and 65535
  constructor
  · rintro rfl
    exact ⟨⟨by omega, hdvd⟩, by omega⟩
  · rintro ⟨⟨-, htdvd⟩, ht⟩
    omega

/-- For a length below that of the IP header the helper answers zero. -/
theorem tcpCksumOk_of_short {m : Mbuf} (hlen : totalLen m.iphdr < 20) :
    tcpCksumOk m = true ↔ TcpHdr.cksum m.l4hdr = 0 := by
  have hzero : rteIpv4UdptcpCksum m.iphdr (TcpHdr.setCksum m.l4hdr 0) = 0 := by
    rw [rteIpv4UdptcpCksum]
    exact if_pos hlen
  rw [tcpCksumOk, hzero, beq_iff_eq, eq_comm]

/-- A checksum of zero is no part of the sum. -/
theorem restSumsToOnes_of_zero {m : Mbuf} (h : TcpHdr.cksum m.l4hdr = 0) :
    m.RestSumsToOnes ↔ m.Verifies := by
  have hsame : TcpHdr.setCksum m.l4hdr 0 = m.l4hdr := by
    rw [← h]
    exact Ptr.store16_load16 m.l4hdr 16
  rw [Mbuf.RestSumsToOnes, hsame, Mbuf.Verifies]

/-! ## `ng_tcp_process` -/

/-- What `ng_tcp_process` does behind the checksum test. -/
def connectionLookup (env : Env) (s : State) (m : Mbuf) : Except Halt (State × Out) :=
  let tcphdr := TcpHdr.setCksum m.l4hdr 0
  match ngTcpStreamSearch s.tcbSet (Ipv4Hdr.srcAddr m.iphdr) (Ipv4Hdr.dstAddr m.iphdr)
      (TcpHdr.srcPort tcphdr) (TcpHdr.dstPort tcphdr) with
  | none => .ok (s, .ofRet (-2))
  | some (a, stream) => do
      let (s, ops) ← dispatchSegment env s a stream m.iphdr tcphdr
      return (s, { Out.ofRet 0 with ops := (a, .segment stream.status m.segment) :: ops })

/-- The segment goes on to the connection lookup. -/
def GoesOn (env : Env) (s : State) (m : Mbuf) : Prop :=
  ngTcpProcess env s m = connectionLookup env s m

/-- The segment is dropped for its checksum. -/
def Dropped (env : Env) (s : State) (m : Mbuf) : Prop :=
  ngTcpProcess env s m = .ok (s, .ofRet (-1))

/-- Behind the test no call answers −1. -/
theorem connectionLookup_ne_dropped (env : Env) (s : State) (m : Mbuf) :
    connectionLookup env s m ≠ .ok (s, .ofRet (-1)) := by
  intro h
  simp only [connectionLookup] at h
  split at h
  · injection h with h
    have hret : (-2 : Int) = -1 := congrArg (·.2.ret) h
    exact absurd hret (by decide)
  · obtain ⟨r, -, hr⟩ := bind_eq_ok_iff.mp h
    injection hr with hr
    have hret : (0 : Int) = -1 := congrArg (·.2.ret) hr
    exact absurd hret (by decide)

theorem goesOn_iff {env : Env} {s : State} {m : Mbuf} : GoesOn env s m ↔ tcpCksumOk m = true := by
  by_cases h : tcpCksumOk m = true
  · exact iff_of_true (if_pos h) h
  · refine iff_of_false (fun hgoes => connectionLookup_ne_dropped env s m ?_) h
    rw [← hgoes, ngTcpProcess, if_neg h]

theorem dropped_iff {env : Env} {s : State} {m : Mbuf} :
    Dropped env s m ↔ tcpCksumOk m = false := by
  cases h : tcpCksumOk m with
  | true =>
      refine iff_of_false (fun hdropped => ?_) (by decide)
      exact connectionLookup_ne_dropped env s m ((goesOn_iff.mpr h).symm.trans hdropped)
  | false => simp [Dropped, ngTcpProcess, h]

/-- The test is that of RFC 1071, and drops what is shorter than an IP header,
    exactly for the segments whose checksum is not zero, and for those with
    checksum zero that are neither so short nor sum up to 0xffff without it. -/
theorem checksum_test_iff {env : Env} {s : State} {m : Mbuf}
    (hproto : Ipv4Hdr.nextProtoId m.iphdr = IPPROTO_TCP) :
    ((40 ≤ totalLen m.iphdr → (GoesOn env s m ↔ m.Verifies)) ∧
      (totalLen m.iphdr < 20 → Dropped env s m)) ↔
    (TcpHdr.cksum m.l4hdr = 0 →
      20 ≤ totalLen m.iphdr ∧ (40 ≤ totalLen m.iphdr → ¬ m.RestSumsToOnes)) := by
  by_cases hlong : 40 ≤ totalLen m.iphdr
  · have hshort : ¬ totalLen m.iphdr < 20 := by omega
    have htwenty : 20 ≤ totalLen m.iphdr := by omega
    simp only [hlong, hshort, htwenty, true_implies, false_implies, and_true, true_and]
    rw [goesOn_iff, tcpCksumOk_iff hproto hlong]
    by_cases hzero : TcpHdr.cksum m.l4hdr = 0
    · simp [hzero, restSumsToOnes_of_zero hzero]
    · exact ⟨fun _ h => absurd h hzero, fun _ => ⟨And.left, fun h => ⟨h, hzero⟩⟩⟩
  · simp only [hlong, false_implies, true_and, and_true]
    by_cases hshort : totalLen m.iphdr < 20
    · have htwenty : ¬ 20 ≤ totalLen m.iphdr := by omega
      simp only [hshort, htwenty, true_implies, imp_false]
      rw [dropped_iff, Bool.eq_false_iff, ne_eq, tcpCksumOk_of_short hshort]
    · have htwenty : 20 ≤ totalLen m.iphdr := by omega
      simp [hshort, htwenty]

/-! ## Checksums of zero -/

/-- A SYN from port 40000 of 10.0.0.2 to port 9999 of 10.0.0.1, of the given
    length, with the checksum zero: for the length 40 that is the one that
    RFC 1071 has a sender transmit. -/
def zeroCksumFrame (len : Byte) : Mbuf := .ofFrame
  (List.replicate 12 0 ++ [0x08, 0x00] ++
    [0x45, 0, 0, len, 0, 0, 0, 0, 64, IPPROTO_TCP, 0x66, 0xce, 10, 0, 0, 2, 10, 0, 0, 1] ++
    [0x9c, 0x40, 0x27, 0x0f, 0, 0, 0x9f, 0x88, 0, 0, 0, 0, 0x50, 0x02, 0x39, 0x08, 0, 0, 0, 0])

/-- The SYN verifies and sums up to 0xffff without its checksum. -/
theorem checksum_test_iff_syn :
    ((40 ≤ totalLen (zeroCksumFrame 40).iphdr →
        (GoesOn .plain (State.init []) (zeroCksumFrame 40) ↔ (zeroCksumFrame 40).Verifies)) ∧
      (totalLen (zeroCksumFrame 40).iphdr < 20 →
        Dropped .plain (State.init []) (zeroCksumFrame 40))) ↔
    (TcpHdr.cksum (zeroCksumFrame 40).l4hdr = 0 →
      20 ≤ totalLen (zeroCksumFrame 40).iphdr ∧
        (40 ≤ totalLen (zeroCksumFrame 40).iphdr → ¬ (zeroCksumFrame 40).RestSumsToOnes)) :=
  checksum_test_iff (by decide)

/-- The SYN with the checksum zero verifies and is dropped, and the segment
    that claims 19 bytes is not dropped. -/
theorem zero_checksum_misjudged :
    (40 ≤ totalLen (zeroCksumFrame 40).iphdr ∧ (zeroCksumFrame 40).Verifies ∧
      Dropped .plain (State.init []) (zeroCksumFrame 40)) ∧
    totalLen (zeroCksumFrame 19).iphdr < 20 ∧
      ¬ Dropped .plain (State.init []) (zeroCksumFrame 19) := by
  refine ⟨⟨by decide, by decide, dropped_iff.mpr (by decide)⟩, by decide, ?_⟩
  rw [dropped_iff, Bool.not_eq_false]
  exact (tcpCksumOk_of_short (by decide)).mpr (by decide)

end LinuxLearning.Ustack
