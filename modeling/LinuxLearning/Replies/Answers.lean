/-
  LinuxLearning.Replies.Answers

  Whether `ustack.c` answers the sender with a valid packet.  For UDP, the
  checksum is taken before the payload is there, and the payload's length is
  read with its bytes exchanged; for TCP, the hardware addresses are those of
  the received frame.
-/

import LinuxLearning.Replies.Ustack
import LinuxLearning.Ustack.ChecksumTest

namespace LinuxLearning.Replies

open Lib Ustack

variable {g : Globals} {msg : Ptr} {p q ip l4 : Ptr}

/-! ## Sums -/

theorem wordSum_offset (p : Ptr) (k off len : Nat) :
    wordSum (p.offset k) off len = wordSum p (k + off) len := by
  induction off, len using wordSum.induct with
  | case1 off len ih => rw [wordSum, wordSum, ih, Ptr.load16_offset, Nat.add_assoc]
  | case2 off => rw [wordSum, wordSum, Ptr.offset_apply]
  | case3 off => rw [wordSum, wordSum]

/-- Equal copies are of equal bytes. -/
theorem apply_eq_of_bytes_eq {off n i : Nat} (h : p.bytes off n = q.bytes off n) (hlow : off ≤ i)
    (hhigh : i < off + n) : p i = q i := by
  have hi : off + (i - off) = i := Nat.add_sub_of_le hlow
  have hbyte := List.map_inj_left.mp h (i - off) (List.mem_range.mpr (by omega))
  rwa [hi] at hbyte

/-- The sum over a UDP header and its payload. -/
theorem wordSum_udp (p : Ptr) (n : Nat) :
    wordSum p 0 (n + 8) = wordSum p 0 8 + wordSum p 8 n := by
  simp only [wordSum, Nat.reduceAdd]
  omega

/-- The checksum, stored in a field that was 0, makes the sum a multiple of
    65535. -/
theorem dvd_segmentSum_store {k len : Nat} (hclear : l4.load16 k = 0) (heven : k % 2 = 0)
    (hk : k + 2 ≤ len) (hlen : (ntohs (Ipv4Hdr.totalLength ip)).toNat = sizeofIpv4Hdr + len) :
    65535 ∣ segmentSum ip (l4.store16 k (rteIpv4UdptcpCksum ip l4)) := by
  obtain ⟨-, hdvd⟩ : 0 < (rteIpv4UdptcpCksum ip l4).toNat ∧ _ := rteIpv4UdptcpCksum_completes hlen
  have hstore : wordSum (l4.store16 k (rteIpv4UdptcpCksum ip l4)) 0 len + (l4.load16 k).toNat =
      wordSum l4 0 len + (rteIpv4UdptcpCksum ip l4).toNat :=
    wordSum_store16 (Nat.zero_le k) (by omega) (by omega)
  rw [hclear] at hstore
  have hl4Len : totalLen ip - sizeofIpv4Hdr = len := by
    rw [totalLen, hlen]
    omega
  have hsum : segmentSum ip (l4.store16 k (rteIpv4UdptcpCksum ip l4)) =
      wordSum (psdHdr ip) 0 12 + wordSum l4 0 len + (rteIpv4UdptcpCksum ip l4).toNat := by
    rw [segmentSum, hl4Len, Nat.add_assoc, ← hstore]
    rfl
  have hmod := (onesReduce_modEq 65535 (wordSum (psdHdr ip) 0 12 + wordSum l4 0 len)).add_right
    (rteIpv4UdptcpCksum ip l4).toNat
  rw [hsum]
  exact (hmod.dvd_iff (Nat.dvd_refl 65535)).mp hdvd

/-- The sum depends on the IP header and on what it is taken over. -/
theorem segmentSum_congr {ip' : Ptr} (l4 : Ptr) (hip : Ptr.Agrees 20 ip ip') :
    segmentSum ip l4 = segmentSum ip' l4 := by
  have htotal : Ipv4Hdr.totalLength ip = Ipv4Hdr.totalLength ip' := hip.load16 (by omega)
  rw [segmentSum, segmentSum, hip.psdHdr (by omega), totalLen, totalLen, htotal]

/-- A sum that was a multiple of 65535 remains one just if what takes the place
    of one of its parts is congruent to it. -/
theorem dvd_add_iff_modEq {a x y : Nat} (h : 65535 ∣ a + x) :
    65535 ∣ a + y ↔ y ≡ x [MOD 65535] := by
  have hx : a + x ≡ 0 [MOD 65535] := Nat.modEq_zero_iff_dvd.mpr h
  rw [← Nat.modEq_zero_iff_dvd]
  constructor
  · exact fun hy => Nat.ModEq.add_left_cancel' a (hy.trans hx.symm)
  · exact fun hy => (hy.add_left a).trans hx

/-! ## What is received and what is sent -/

/-- An IPv4 frame without options that carries a datagram, with lengths that
    agree. -/
structure UdpFrame where
  frame : Mbuf
  etherType : EtherHdr.etherType frame.data = htons RTE_ETHER_TYPE_IPV4
  versionIhl : Ipv4Hdr.versionIhl frame.iphdr = 0x45
  nextProtoId : Ipv4Hdr.nextProtoId frame.iphdr = IPPROTO_UDP
  header : sizeofUdpHdr ≤ (ntohs (UdpHdr.dgramLen frame.l4hdr)).toNat
  whole : sizeofEtherHdr + sizeofIpv4Hdr + (ntohs (UdpHdr.dgramLen frame.l4hdr)).toNat ≤
    frame.dataLen
  /-- `data_len` has 16 bits. -/
  dataLen_lt : frame.dataLen < 65536

/-- `dgram_len`, in host order. -/
def UdpFrame.dgramLen (f : UdpFrame) : Nat := (ntohs (UdpHdr.dgramLen f.frame.l4hdr)).toNat

/-- An IPv4 frame without options that carries a TCP SYN. -/
structure SynFrame where
  frame : Mbuf
  etherType : EtherHdr.etherType frame.data = htons RTE_ETHER_TYPE_IPV4
  versionIhl : Ipv4Hdr.versionIhl frame.iphdr = 0x45
  nextProtoId : Ipv4Hdr.nextProtoId frame.iphdr = IPPROTO_TCP
  syn : hasFlag (TcpHdr.tcpFlags frame.l4hdr) RTE_TCP_SYN_FLAG = true
  whole : sizeofEtherHdr + sizeofIpv4Hdr + sizeofTcpHdr ≤ frame.dataLen

inductive Received where
  | udp (f : UdpFrame)
  | syn (f : SynFrame)

/-- The frame of a reply. -/
def Reply.frame (r : Reply) : Mbuf where
  data := r.buffer.mem
  dataLen := r.dataLen

/-- The reply is a packet to the sender of the frame, of the same protocol: its
    addresses and ports are exchanged, its checksums verify, and it lies in its
    buffer's `data_len` bytes. -/
structure ValidReply (r : Reply) (frame : Mbuf) : Prop where
  etherType : EtherHdr.etherType r.frame.data = htons RTE_ETHER_TYPE_IPV4
  versionIhl : Ipv4Hdr.versionIhl r.frame.iphdr = 0x45
  nextProtoId : Ipv4Hdr.nextProtoId r.frame.iphdr = Ipv4Hdr.nextProtoId frame.iphdr
  whole : r.dataLen = sizeofEtherHdr + (ntohs (Ipv4Hdr.totalLength r.frame.iphdr)).toNat
  dAddr : r.frame.data.bytes 0 6 = EtherHdr.sAddr frame.data
  sAddr : EtherHdr.sAddr r.frame.data = frame.data.bytes 0 6
  dstAddr : Ipv4Hdr.dstAddr r.frame.iphdr = Ipv4Hdr.srcAddr frame.iphdr
  srcAddr : Ipv4Hdr.srcAddr r.frame.iphdr = Ipv4Hdr.dstAddr frame.iphdr
  -- TCP has its ports where UDP has them
  dstPort : UdpHdr.dstPort r.frame.l4hdr = UdpHdr.srcPort frame.l4hdr
  srcPort : UdpHdr.srcPort r.frame.l4hdr = UdpHdr.dstPort frame.l4hdr
  ipCksum : IpCksumVerifies r.frame.iphdr
  l4Cksum : SumsToOnes r.frame.iphdr r.frame.l4hdr
  within : r.buffer.WrittenWithin r.dataLen

/-- The reply to a datagram carries its payload. -/
structure SamePayload (r : Reply) (f : UdpFrame) : Prop where
  dgramLen : UdpHdr.dgramLen r.frame.l4hdr = UdpHdr.dgramLen f.frame.l4hdr
  payload : r.frame.data.bytes 42 (f.dgramLen - sizeofUdpHdr) =
    f.frame.data.bytes 42 (f.dgramLen - sizeofUdpHdr)

/-- What is received is answered with a valid packet: a datagram always, a SYN
    while the server listens. -/
def Answers (g : Globals) (msg : Ptr) : Received → Prop
  | .udp f => ∃ r, (ustackMain g f.frame msg).2 = some r ∧ ValidReply r f.frame ∧ SamePayload r f
  | .syn f => g.tcpStatus = .listen →
      ∃ r, (ustackMain g f.frame msg).2 = some r ∧ ValidReply r f.frame

/-! ## Datagrams -/

/-- The bytes of a number of 16 bits, exchanged. -/
theorem toNat_htons (v : BitVec 16) :
    (htons v).toNat = 256 * (v.toNat % 256) + v.toNat / 256 := by
  have hv := v.isLt
  have hlow : (v.extractLsb' 0 8).toNat = v.toNat % 256 := by
    rw [BitVec.extractLsb'_toNat, Nat.shiftRight_zero]
  have hhigh : (v.extractLsb' 8 8).toNat = v.toNat / 256 := by
    rw [BitVec.extractLsb'_toNat, Nat.shiftRight_eq_div_pow]
    omega
  have hlt : (v.extractLsb' 8 8).toNat < 2 ^ 8 := (v.extractLsb' 8 8).isLt
  rw [htons, ntohs, BitVec.toNat_append, ← Nat.shiftLeft_add_eq_or_of_lt hlt, Nat.shiftLeft_eq,
    hlow, hhigh]
  omega

/-- How many bytes of the payload are copied. -/
def UdpFrame.copied (f : UdpFrame) : Nat := 256 * (f.dgramLen % 256) + f.dgramLen / 256

/-- They are inside the datagram if its length has the greater byte in front. -/
theorem UdpFrame.copied_le_iff (f : UdpFrame) :
    42 + f.copied ≤ 34 + f.dgramLen ↔ f.dgramLen % 256 < f.dgramLen / 256 := by
  have hlen := f.header
  simp only [UdpFrame.copied, UdpFrame.dgramLen, sizeofUdpHdr] at hlen ⊢
  omega

/-- What the encoder leaves in a buffer that held `msg`, for a header and
    `n` copied bytes: the checksum is that of the buffer without them. -/
structure IsUdpPkt (b : Buffer) (g : Globals) (msg data : Ptr) (totalLength udplen : BitVec 16)
    (n : Nat) : Prop where
  headers : IpHeaders b.mem g.smac g.dmac g.sip g.dip IPPROTO_UDP totalLength
  srcPort : b.mem.load16 34 = g.sport
  dstPort : b.mem.load16 36 = g.dport
  dgramLen : b.mem.load16 38 = htons udplen
  within : ∀ m, 42 ≤ m → (b.WrittenWithin m ↔ 42 + n ≤ m)
  copied : b.mem.bytes 42 n = data.bytes 0 n
  behind : ∀ i, 42 + n ≤ i → b.mem i = msg i
  /-- The sum was taken over what the buffer held in place of the payload. -/
  summed : ∀ len, 8 ≤ len → totalLength.toNat = sizeofIpv4Hdr + len →
    ∃ p : Ptr, 65535 ∣ segmentSum (b.mem.offset 14) p ∧
      (∀ i < 8, p i = b.mem (34 + i)) ∧ ∀ i, 8 ≤ i → p i = msg (34 + i)

theorem isUdpPkt_encode (g : Globals) (msg data : Ptr) (tolLen : BitVec 16) :
    IsUdpPkt (ustackEncodeUdpPkt g (.alloc msg) data tolLen) g msg data
      (tolLen - BitVec.ofNat 16 sizeofEtherHdr)
      (tolLen - BitVec.ofNat 16 sizeofEtherHdr - BitVec.ofNat 16 sizeofIpv4Hdr)
      (htons (tolLen - BitVec.ofNat 16 sizeofEtherHdr - BitVec.ofNat 16 sizeofIpv4Hdr)).toNat := by
  obtain ⟨hsport, hdport, hdgramLen, hclear⟩ := udpFields_encodeUdpHdr g (.alloc msg) tolLen
  have hheaders := ipHeaders_encodeUdpHdr g (.alloc msg) tolLen
  have hbehind : ∀ i, 42 ≤ i → (encodeUdpHdr g (.alloc msg) tolLen).mem i = msg i := fun i hi =>
    encodeUdpHdr_behind g _ tolLen hi
  have hwithin : ∀ m, 42 ≤ m → (encodeUdpHdr g (.alloc msg) tolLen).WrittenWithin m := fun m hm =>
    writtenWithin_encodeUdpHdr g _ tolLen hm (Buffer.writtenWithin_alloc m msg)
  rw [ustackEncodeUdpPkt_eq]
  simp only [UdpHdr.srcPort, UdpHdr.dstPort, UdpHdr.dgramLen, Ptr.load16_offset]
    at hsport hdport hdgramLen
  generalize encodeUdpHdr g (.alloc msg) tolLen = b at *
  generalize hck : rteIpv4UdptcpCksum (b.mem.offset 14) (b.mem.offset 34) = cksum
  generalize (htons (tolLen - BitVec.ofNat 16 sizeofEtherHdr -
    BitVec.ofNat 16 sizeofIpv4Hdr)).toNat = n
  -- everything but the payload
  have hkept : ∀ i < 40, ((b.store16 40 cksum).storeBytes 42 (data.bytes 0 n)).mem i = b.mem i := by
    intro i hi
    simp (disch := omega) only [Buffer.mem_storeBytes, Buffer.mem_store16,
      Ptr.storeBytes_apply_of_lt, Ptr.store16_apply_of_ne]
  have hagrees : Ptr.Agrees 34 b.mem ((b.store16 40 cksum).storeBytes 42 (data.bytes 0 n)).mem :=
    fun i hi => (hkept i (by omega)).symm
  constructor
  · exact hheaders.congr hagrees
  · exact (Ptr.load16_congr fun i _ hi => hkept i (by omega)).trans hsport
  · exact (Ptr.load16_congr fun i _ hi => hkept i (by omega)).trans hdport
  · exact (Ptr.load16_congr fun i _ hi => hkept i (by omega)).trans hdgramLen
  · intro m hm
    simp only [Buffer.writtenWithin_storeBytes, Buffer.writtenWithin_store16, Ptr.length_bytes,
      hwithin m hm, and_true]
    omega
  · have hcopy := Ptr.bytes_storeBytes (b.store16 40 cksum).mem 42 (data.bytes 0 n)
    rwa [Ptr.length_bytes] at hcopy
  · intro i hi
    have hcopy : 42 + (data.bytes 0 n).length ≤ i := by rwa [Ptr.length_bytes]
    rw [Buffer.mem_storeBytes, Ptr.storeBytes_apply_of_le hcopy, Buffer.mem_store16,
      Ptr.store16_apply_of_ne (by omega) (by omega), hbehind i (by omega)]
  · intro len hlen htotal
    have htotal' : (ntohs (Ipv4Hdr.totalLength (b.mem.offset 14))).toNat = sizeofIpv4Hdr + len := by
      rw [hheaders.totalLength, ntohs_ntohs, htotal]
    refine ⟨(b.mem.offset 34).store16 6 cksum, ?_, fun i hi => ?_, fun i hi => ?_⟩
    · have hdvd := dvd_segmentSum_store hclear (by decide) (by omega) htotal'
      rw [hck] at hdvd
      rwa [← segmentSum_congr _ (hagrees.offset 14)]
    · rw [Buffer.mem_storeBytes, Ptr.storeBytes_apply_of_lt (by omega), Buffer.mem_store16,
        ← Ptr.offset_store16]
      rfl
    · rw [Ptr.store16_apply_of_ne (by omega) (by omega), Ptr.offset_apply, hbehind _ (by omega)]

/-- The lengths that are computed from `dgram_len` do not wrap. -/
theorem totalLen_udp (f : UdpFrame) {u : BitVec 16} (hu : u.toNat = f.dgramLen) :
    (u + BitVec.ofNat 16 sizeofEtherHdr + BitVec.ofNat 16 sizeofIpv4Hdr).toNat =
        34 + f.dgramLen ∧
      (u + BitVec.ofNat 16 sizeofEtherHdr + BitVec.ofNat 16 sizeofIpv4Hdr -
        BitVec.ofNat 16 sizeofEtherHdr).toNat = sizeofIpv4Hdr + f.dgramLen ∧
      u + BitVec.ofNat 16 sizeofEtherHdr + BitVec.ofNat 16 sizeofIpv4Hdr -
        BitVec.ofNat 16 sizeofEtherHdr - BitVec.ofNat 16 sizeofIpv4Hdr = u := by
  have hwhole := f.whole
  have hlt := f.dataLen_lt
  rw [← UdpFrame.dgramLen] at hwhole
  simp only [sizeofEtherHdr, sizeofIpv4Hdr] at hwhole ⊢
  have hto : (u + BitVec.ofNat 16 14 + BitVec.ofNat 16 20).toNat = 34 + f.dgramLen := by
    simp only [BitVec.toNat_add, BitVec.toNat_ofNat, hu]
    omega
  have hip : (u + BitVec.ofNat 16 14 + BitVec.ofNat 16 20 - BitVec.ofNat 16 14).toNat =
      20 + f.dgramLen := by
    rw [BitVec.toNat_sub, hto, BitVec.toNat_ofNat]
    omega
  refine ⟨hto, hip, BitVec.eq_of_toNat_eq ?_⟩
  rw [BitVec.toNat_sub, hip, BitVec.toNat_ofNat, hu]
  omega

/-- Every datagram is answered, with what the encoder makes of it. -/
theorem ustackMain_udp (g : Globals) (msg : Ptr) (f : UdpFrame) :
    ∃ b totalLength, (ustackMain g f.frame msg).2 = some ⟨b, 34 + f.dgramLen⟩ ∧
      totalLength.toNat = sizeofIpv4Hdr + f.dgramLen ∧
      IsUdpPkt b (g.fillUdp f.frame) msg (f.frame.data.offset 42) totalLength
        (ntohs (UdpHdr.dgramLen f.frame.l4hdr)) f.copied := by
  have hheader := f.header
  obtain ⟨htotal, hip, hudp⟩ := totalLen_udp f (u := ntohs (UdpHdr.dgramLen f.frame.l4hdr)) rfl
  have hcopied : (htons (ntohs (UdpHdr.dgramLen f.frame.l4hdr))).toNat = f.copied := toNat_htons _
  have hdata : f.frame.l4hdr.offset sizeofUdpHdr = f.frame.data.offset 42 := by
    rw [Mbuf.l4hdr, Mbuf.iphdr, Ptr.offset_offset, Ptr.offset_offset]
    rfl
  have hpkt := isUdpPkt_encode (g.fillUdp f.frame) msg (f.frame.data.offset 42)
    (ntohs (UdpHdr.dgramLen f.frame.l4hdr) + BitVec.ofNat 16 sizeofEtherHdr +
      BitVec.ofNat 16 sizeofIpv4Hdr)
  rw [hudp, hcopied] at hpkt
  refine ⟨_, _, ?_, hip, hpkt⟩
  rw [ustackMain, if_pos f.etherType, if_pos f.nextProtoId, onUdp]
  simp only [if_neg (Nat.not_lt.mpr hheader), htotal, hdata]

/-- The payload of the datagram, as far as it is not copied, is what the buffer
    held already. -/
def UdpFrame.RestHeld (f : UdpFrame) (msg : Ptr) : Prop :=
  msg.bytes (42 + f.copied) (f.dgramLen - sizeofUdpHdr - f.copied) =
    f.frame.data.bytes (42 + f.copied) (f.dgramLen - sizeofUdpHdr - f.copied)

/-- What the buffer held in place of the payload has the sum of the payload. -/
def UdpFrame.SumHeld (f : UdpFrame) (msg : Ptr) : Prop :=
  wordSum f.frame.data 42 (f.dgramLen - sizeofUdpHdr) ≡
    wordSum msg 42 (f.dgramLen - sizeofUdpHdr) [MOD 65535]

/-- The payload of the reply is that of the datagram if what was not copied was
    there. -/
theorem samePayload_iff {b : Buffer} {totalLength : BitVec 16} (f : UdpFrame)
    (hpkt : IsUdpPkt b (g.fillUdp f.frame) msg (f.frame.data.offset 42) totalLength
      (ntohs (UdpHdr.dgramLen f.frame.l4hdr)) f.copied)
    (hcopied : 42 + f.copied ≤ 34 + f.dgramLen) :
    SamePayload ⟨b, 34 + f.dgramLen⟩ f ↔ f.RestHeld msg := by
  have hsplit : f.dgramLen - sizeofUdpHdr =
      f.copied + (f.dgramLen - sizeofUdpHdr - f.copied) := by
    simp only [sizeofUdpHdr]
    omega
  have hfront : b.mem.bytes 42 f.copied = f.frame.data.bytes 42 f.copied :=
    hpkt.copied.trans (Ptr.bytes_offset ..)
  have hrest : b.mem.bytes (42 + f.copied) (f.dgramLen - sizeofUdpHdr - f.copied) =
      msg.bytes (42 + f.copied) (f.dgramLen - sizeofUdpHdr - f.copied) :=
    Ptr.bytes_congr fun i hi _ => hpkt.behind i hi
  have hpayload : b.mem.bytes 42 (f.dgramLen - sizeofUdpHdr) =
      f.frame.data.bytes 42 (f.dgramLen - sizeofUdpHdr) ↔ f.RestHeld msg := by
    rw [hsplit, Ptr.bytes_add, Ptr.bytes_add, hfront, hrest, List.append_cancel_left_eq,
      UdpFrame.RestHeld]
  refine ⟨fun h => hpayload.mp h.payload, fun h => ⟨?_, hpayload.mpr h⟩⟩
  have hl4 : (Reply.frame ⟨b, 34 + f.dgramLen⟩).l4hdr = b.mem.offset 34 := Ptr.offset_offset ..
  rw [UdpHdr.dgramLen, hl4, Ptr.load16_offset, hpkt.dgramLen]
  exact ntohs_ntohs _

/-- The checksum of a reply with the payload verifies if it is that of the
    buffer. -/
theorem sumsToOnes_udp_iff {b : Buffer} {totalLength : BitVec 16} (f : UdpFrame)
    (hpkt : IsUdpPkt b (g.fillUdp f.frame) msg (f.frame.data.offset 42) totalLength
      (ntohs (UdpHdr.dgramLen f.frame.l4hdr)) f.copied)
    (htotal : totalLength.toNat = sizeofIpv4Hdr + f.dgramLen)
    (hpayload : SamePayload ⟨b, 34 + f.dgramLen⟩ f) :
    SumsToOnes (b.mem.offset 14) (b.mem.offset 34) ↔ f.SumHeld msg := by
  have hheader : 8 ≤ f.dgramLen := f.header
  have hlen : Ustack.totalLen (b.mem.offset 14) = sizeofIpv4Hdr + f.dgramLen := by
    rw [Ustack.totalLen, hpkt.headers.totalLength, ntohs_ntohs, htotal]
  have hpos : 0 < segmentSum (b.mem.offset 14) (b.mem.offset 34) :=
    segmentSum_pos _ (by rw [hpkt.headers.nextProtoId]; decide)
  obtain ⟨p, hdvd, hfront, hbehind⟩ := hpkt.summed f.dgramLen hheader htotal
  have hl4Len : Ustack.totalLen (b.mem.offset 14) - sizeofIpv4Hdr =
      f.dgramLen - sizeofUdpHdr + 8 := by
    rw [hlen, sizeofUdpHdr]
    omega
  -- the header is summed up twice alike
  have hsame : wordSum (b.mem.offset 34) 0 8 = wordSum p 0 8 :=
    wordSum_congr fun i _ hi => (hfront i (by omega)).symm
  have hheld : wordSum p 8 (f.dgramLen - sizeofUdpHdr) =
      wordSum msg 42 (f.dgramLen - sizeofUdpHdr) := by
    rw [← wordSum_offset msg 34 8]
    exact wordSum_congr fun i hi _ => hbehind i hi
  have hsent : wordSum (b.mem.offset 34) 8 (f.dgramLen - sizeofUdpHdr) =
      wordSum f.frame.data 42 (f.dgramLen - sizeofUdpHdr) := by
    rw [wordSum_offset]
    exact wordSum_congr fun i hi hi' => apply_eq_of_bytes_eq hpayload.payload hi hi'
  rw [segmentSum, hl4Len, wordSum_udp p, ← hsame, hheld, ← Nat.add_assoc] at hdvd
  rw [sumsToOnes_iff (by rw [hlen]; exact Nat.le_add_right ..), and_iff_right hpos, segmentSum,
    hl4Len, wordSum_udp (b.mem.offset 34), hsent, ← Nat.add_assoc]
  exact dvd_add_iff_modEq hdvd

/-- A datagram is answered if its length has the greater byte in front, and the
    buffer held the rest of the payload and the sum of it. -/
theorem answers_udp_iff (g : Globals) (msg : Ptr) (f : UdpFrame) :
    Answers g msg (.udp f) ↔
      f.dgramLen % 256 < f.dgramLen / 256 ∧ f.RestHeld msg ∧ f.SumHeld msg := by
  obtain ⟨b, totalLength, hmain, htotal, hpkt⟩ := ustackMain_udp g msg f
  have hheader : 8 ≤ f.dgramLen := f.header
  have hwithin : b.WrittenWithin (34 + f.dgramLen) ↔ 42 + f.copied ≤ 34 + f.dgramLen :=
    hpkt.within _ (by omega)
  have hl4 : (Reply.frame ⟨b, 34 + f.dgramLen⟩).l4hdr = b.mem.offset 34 := Ptr.offset_offset ..
  rw [← f.copied_le_iff]
  constructor
  · rintro ⟨r, hr, hvalid, hpayload⟩
    obtain rfl := Option.some.inj (hmain.symm.trans hr)
    have hcopied := hwithin.mp hvalid.within
    have hcksum := hvalid.l4Cksum
    rw [hl4] at hcksum
    exact ⟨hcopied, (samePayload_iff f hpkt hcopied).mp hpayload,
      (sumsToOnes_udp_iff f hpkt htotal hpayload).mp hcksum⟩
  · rintro ⟨hcopied, hrest, hsum⟩
    have hpayload := (samePayload_iff f hpkt hcopied).mpr hrest
    refine ⟨_, hmain, ?_, hpayload⟩
    refine ⟨hpkt.headers.etherType, hpkt.headers.versionIhl,
      hpkt.headers.nextProtoId.trans f.nextProtoId.symm, ?_,
      hpkt.headers.dAddr.trans (toList_macAt ..), hpkt.headers.sAddr.trans (toList_macAt ..),
      hpkt.headers.dstAddr, hpkt.headers.srcAddr, ?_, ?_, hpkt.headers.cksum, ?_,
      hwithin.mpr hcopied⟩
    · show 34 + f.dgramLen = 14 + (ntohs (Ipv4Hdr.totalLength (b.mem.offset 14))).toNat
      rw [hpkt.headers.totalLength, ntohs_ntohs, htotal, sizeofIpv4Hdr]
      omega
    · rw [hl4]
      exact hpkt.dstPort
    · rw [hl4]
      exact hpkt.srcPort
    · rw [hl4]
      exact (sumsToOnes_udp_iff f hpkt htotal hpayload).mpr hsum

/-! ## Segments -/

/-- What `ustack_encode_tcp_pkt` leaves in a buffer for a frame of 54 bytes. -/
structure IsTcpPkt (b : Buffer) (g : Globals) : Prop where
  headers : IpHeaders b.mem g.smac g.dmac g.sip g.dip IPPROTO_TCP 40
  srcPort : b.mem.load16 34 = g.sport
  dstPort : b.mem.load16 36 = g.dport
  cksum : SumsToOnes (b.mem.offset 14) (b.mem.offset 34)
  within : b.WrittenWithin 54

theorem isTcpPkt_encode (g : Globals) (msg : Ptr) :
    IsTcpPkt (ustackEncodeTcpPkt g (.alloc msg) 54) g := by
  obtain ⟨hsport, hdport, hclear, hurp⟩ := tcpFields_encodeTcpHdr g (.alloc msg) 54
  have hheaders := ipHeaders_encodeTcpHdr g (.alloc msg) 54
  have hwithin : (encodeTcpHdr g (.alloc msg) 54).WrittenWithin 54 :=
    writtenWithin_encodeTcpHdr g _ 54 (Nat.le_refl 54) (Buffer.writtenWithin_alloc 54 msg)
  simp only [TcpHdr.srcPort, TcpHdr.dstPort, Ptr.load16_offset] at hsport hdport
  simp only [ustackEncodeTcpPkt]
  generalize encodeTcpHdr g (.alloc msg) 54 = b at *
  generalize hck : rteIpv4UdptcpCksum (b.mem.offset 14) (b.mem.offset 34) = cksum
  -- the urgent pointer was 0 before it is stored again
  have hmem : ((b.store16 50 cksum).store16 52 0).mem = b.mem.store16 50 cksum := by
    have hurp' : (b.mem.store16 50 cksum).load16 52 = 0 :=
      (Ptr.load16_store16_of_disjoint (by decide)).trans hurp
    rw [Buffer.mem_store16, Buffer.mem_store16, ← hurp', Ptr.store16_load16]
  have hagrees : Ptr.Agrees 50 b.mem (b.mem.store16 50 cksum) := fun i hi =>
    (Ptr.store16_apply_of_ne (by omega) (by omega)).symm
  have hsent := hheaders.congr (hagrees.mono (by decide))
  have htotal : (ntohs (Ipv4Hdr.totalLength (b.mem.offset 14))).toNat = sizeofIpv4Hdr + 20 := by
    rw [hheaders.totalLength, ntohs_ntohs]
    rfl
  constructor
  · rw [hmem]
    exact hsent
  · rw [hmem]
    exact (hagrees.load16 (by decide)).symm.trans hsport
  · rw [hmem]
    exact (hagrees.load16 (by decide)).symm.trans hdport
  · rw [hmem]
    have hdvd := dvd_segmentSum_store hclear (by decide) (by decide) htotal
    rw [hck, segmentSum_congr _ ((hagrees.offset 14).mono (by decide)),
      ← Ptr.offset_store16] at hdvd
    have hproto : Ipv4Hdr.nextProtoId ((b.mem.store16 50 cksum).offset 14) ≠ 0 := by
      rw [hsent.nextProtoId]
      decide
    have hlen : 20 ≤ Ustack.totalLen ((b.mem.store16 50 cksum).offset 14) := by
      rw [Ustack.totalLen, hsent.totalLength, ntohs_ntohs]
      decide
    exact (sumsToOnes_iff hlen).mpr ⟨segmentSum_pos _ hproto, hdvd⟩
  · simp only [Buffer.writtenWithin_store16, hwithin, and_true]
    decide

/-- A SYN is answered if it was sent from the hardware address that it was sent
    to. -/
theorem answers_syn_iff (g : Globals) (msg : Ptr) (f : SynFrame) (hlisten : g.tcpStatus = .listen) :
    Answers g msg (.syn f) ↔ EtherHdr.sAddr f.frame.data = f.frame.data.bytes 0 6 := by
  have hpkt := isTcpPkt_encode (g.fillTcp f.frame) msg
  have hmain : (ustackMain g f.frame msg).2 =
      some ⟨ustackEncodeTcpPkt (g.fillTcp f.frame) (.alloc msg) 54, 54⟩ := by
    have hproto : Ipv4Hdr.nextProtoId f.frame.iphdr ≠ IPPROTO_UDP := by
      rw [f.nextProtoId]
      decide
    rw [ustackMain, if_pos f.etherType, if_neg hproto, if_pos f.nextProtoId, onTcp]
    have hsyn : hasFlag (g.fillTcp f.frame).flags RTE_TCP_SYN_FLAG = true := f.syn
    have hstatus : (g.fillTcp f.frame).tcpStatus = .listen := hlisten
    simp only [if_pos hsyn, if_pos hstatus]
    rfl
  generalize ustackEncodeTcpPkt (g.fillTcp f.frame) (.alloc msg) 54 = b at hpkt hmain
  have hl4 : (Reply.frame ⟨b, 54⟩).l4hdr = b.mem.offset 34 := Ptr.offset_offset ..
  have hdst : b.mem.bytes 0 6 = f.frame.data.bytes 0 6 :=
    hpkt.headers.dAddr.trans (toList_macAt ..)
  have hsrc : b.mem.bytes 6 6 = EtherHdr.sAddr f.frame.data :=
    hpkt.headers.sAddr.trans (toList_macAt ..)
  constructor
  · intro h
    obtain ⟨r, hr, hvalid⟩ := h hlisten
    obtain rfl := Option.some.inj (hmain.symm.trans hr)
    exact hvalid.dAddr.symm.trans hdst
  · intro hsame _
    refine ⟨_, hmain, hpkt.headers.etherType, hpkt.headers.versionIhl,
      hpkt.headers.nextProtoId.trans f.nextProtoId.symm, ?_, hdst.trans hsame.symm,
      hsrc.trans hsame, hpkt.headers.dstAddr, hpkt.headers.srcAddr, ?_, ?_, hpkt.headers.cksum, ?_,
      hpkt.within⟩
    · show 54 = 14 + (ntohs (Ipv4Hdr.totalLength (b.mem.offset 14))).toNat
      rw [hpkt.headers.totalLength, ntohs_ntohs]
      rfl
    · rw [hl4]
      exact hpkt.dstPort
    · rw [hl4]
      exact hpkt.srcPort
    · rw [hl4]
      exact hpkt.cksum

/-! ## Both -/

/-- When a frame is answered as it should be. -/
def Received.Answerable (g : Globals) (msg : Ptr) : Received → Prop
  | .udp f => f.dgramLen % 256 < f.dgramLen / 256 ∧ f.RestHeld msg ∧ f.SumHeld msg
  | .syn f => g.tcpStatus = .listen → EtherHdr.sAddr f.frame.data = f.frame.data.bytes 0 6

/-- What is received is answered with a valid packet just then: for a datagram,
    it depends on what the buffer held. -/
theorem answers_iff_answerable (g : Globals) (msg : Ptr) (received : Received) :
    Answers g msg received ↔ received.Answerable g msg := by
  cases received with
  | udp f => exact answers_udp_iff g msg f
  | syn f =>
      by_cases hlisten : g.tcpStatus = .listen
      · rw [answers_syn_iff g msg f hlisten]
        exact ⟨fun h _ => h, fun h => h hlisten⟩
      · exact iff_of_true (fun h => absurd h hlisten) fun h => absurd h hlisten

/-- The globals before anything is received. -/
def Globals.zero : Globals where
  smac := .replicate 6 0
  dmac := .replicate 6 0
  sip := 0
  dip := 0
  sport := 0
  dport := 0
  flags := 0
  seqnum := 0
  acknum := 0
  tcpStatus := .listen

/-- `hi` from port 40000 of 10.0.0.2 to port 8888 of 10.0.0.1, without a
    checksum. -/
def hiFrame : List Byte :=
  [2, 0, 0, 0, 0, 1, 2, 0, 0, 0, 0, 2, 0x08, 0x00,
   0x45, 0, 0, 30, 0, 0, 0, 0, 64, 17, 0x66, 0xcd, 10, 0, 0, 2, 10, 0, 0, 1,
   0x9c, 0x40, 0x22, 0xb8, 0, 10, 0, 0, 104, 105]

def hi : UdpFrame where
  frame := .ofFrame hiFrame
  etherType := by decide
  versionIhl := by decide
  nextProtoId := by decide
  header := by decide
  whole := by decide
  dataLen_lt := by decide

/-- 2560 bytes are copied for it into a frame of 44. -/
theorem hi_not_answered : ¬ Answers .zero (fun _ => 0) (.udp hi) := by
  rw [answers_udp_iff]
  exact fun h => absurd h.1 (by decide)

end LinuxLearning.Replies
