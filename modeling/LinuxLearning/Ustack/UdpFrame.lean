/-
  LinuxLearning.Ustack.UdpFrame

  What the receiver of a datagram reads from the frame that `ng_udp_pkt`
  builds.

  `ng_encode_udp_apppkt` gets 16 bits for the length of the frame.  As long as
  these hold it, every header field is right, both checksums verify, and the
  payload comes back; the eight bytes that are copied too many lie behind the
  frame.  Beyond, the lengths in the headers contradict each other.
-/

import LinuxLearning.Ustack.FrameRoundTrip

namespace LinuxLearning.Ustack

open Lib

namespace UdpHdr
def dgramCksum (p : Ptr) : BitVec 16 := p.load16 6
end UdpHdr

namespace EtherHdr
def dAddr (p : Ptr) : List Byte := p.bytes 0 etherAddrLen
end EtherHdr

variable (msg : Ptr) (sip dip : BitVec 32) (sport dport : BitVec 16) (srcmac dstmac : List Byte)
  (data : Ptr) (totalLen : BitVec 16)

/-! ## The stages of the encoder -/

/-- The Ethernet and IP headers before the checksum is known. -/
def unsummedUdpIpHdr (msg : Ptr) (sip dip : BitVec 32) (srcmac dstmac : List Byte)
    (totalLen : BitVec 16) : Ptr :=
  let eth := ((msg.storeBytes 6 (srcmac.take etherAddrLen)).storeBytes 0
    (dstmac.take etherAddrLen)).store16 12 (htons RTE_ETHER_TYPE_IPV4)
  let totalLength := htons (totalLen - BitVec.ofNat 16 sizeofEtherHdr)
  (((((((((eth.store8 14 0x45).store8 15 0).store16 16 totalLength).store16 18 0).store16
    20 0).store8 22 64).store8 23 IPPROTO_UDP).store32 26 sip).store32 30 dip).store16 24 0

/-- The frame before the UDP checksum is known. -/
def unsummedUdp (msg : Ptr) (sip dip : BitVec 32) (sport dport : BitVec 16)
    (srcmac dstmac : List Byte) (data : Ptr) (totalLen : BitVec 16) : Ptr :=
  let p := encodeUdpIpHdr msg sip dip srcmac dstmac totalLen
  let udplen := udplenOf totalLen
  let p := ((p.store16 34 sport).store16 36 dport).store16 38 (htons udplen)
  (p.storeBytes 42 (data.bytes 0 udplen.toNat)).store16 40 0

theorem encodeUdpIpHdr_eq : encodeUdpIpHdr msg sip dip srcmac dstmac totalLen =
    let ip := unsummedUdpIpHdr msg sip dip srcmac dstmac totalLen
    ip.store16 24 (rteIpv4Cksum (ip.offset sizeofEtherHdr)) := rfl

theorem ngEncodeUdpApppkt_eq :
    ngEncodeUdpApppkt msg sip dip sport dport srcmac dstmac data totalLen =
      let p := unsummedUdp msg sip dip sport dport srcmac dstmac data totalLen
      p.store16 40 (rteIpv4UdptcpCksum (p.offset 14) (p.offset 34)) := rfl

/-! ## Where the stages write -/

/-- The UDP part leaves the IP header alone. -/
theorem ngEncodeUdpApppkt_iphdr {i : Nat} (h : i < 34) :
    ngEncodeUdpApppkt msg sip dip sport dport srcmac dstmac data totalLen i =
      encodeUdpIpHdr msg sip dip srcmac dstmac totalLen i := by
  rw [ngEncodeUdpApppkt_eq]
  simp (disch := omega) only [unsummedUdp, Ptr.store16_apply_of_ne, Ptr.storeBytes_apply_of_lt]

/-- The IP part leaves the hardware addresses alone. -/
theorem encodeUdpIpHdr_ether {i : Nat} (h : i < 12) :
    encodeUdpIpHdr msg sip dip srcmac dstmac totalLen i =
      ((msg.storeBytes 6 (srcmac.take etherAddrLen)).storeBytes 0
        (dstmac.take etherAddrLen)) i := by
  rw [encodeUdpIpHdr_eq]
  simp (disch := omega) only [unsummedUdpIpHdr, Ptr.store16_apply_of_ne, Ptr.store8_apply_of_ne,
    Ptr.store32_apply_of_ne]

/-- The hardware addresses lie side by side. -/
theorem dAddr_ngEncodeUdpApppkt (hdst : dstmac.length = etherAddrLen) :
    EtherHdr.dAddr (ngEncodeUdpApppkt msg sip dip sport dport srcmac dstmac data totalLen) =
      dstmac := by
  have htake : dstmac.take etherAddrLen = dstmac := List.take_of_length_le (Nat.le_of_eq hdst)
  calc EtherHdr.dAddr (ngEncodeUdpApppkt msg sip dip sport dport srcmac dstmac data totalLen)
      = ((msg.storeBytes 6 (srcmac.take etherAddrLen)).storeBytes 0
          (dstmac.take etherAddrLen)).bytes 0 etherAddrLen := by
        apply Ptr.bytes_congr
        intro i _ hi
        rw [etherAddrLen] at hi
        rw [ngEncodeUdpApppkt_iphdr _ _ _ _ _ _ _ _ _ (by omega),
          encodeUdpIpHdr_ether _ _ _ _ _ _ (by omega)]
    _ = dstmac := by rw [htake, Ptr.bytes_storeBytes_of_length hdst]

theorem sAddr_ngEncodeUdpApppkt (hsrc : srcmac.length = etherAddrLen)
    (hdst : dstmac.length = etherAddrLen) :
    EtherHdr.sAddr (ngEncodeUdpApppkt msg sip dip sport dport srcmac dstmac data totalLen) =
      srcmac := by
  have htake : srcmac.take etherAddrLen = srcmac := List.take_of_length_le (Nat.le_of_eq hsrc)
  have hlen : (dstmac.take etherAddrLen).length = 6 := by
    rw [List.length_take, hdst, etherAddrLen]
    rfl
  calc EtherHdr.sAddr (ngEncodeUdpApppkt msg sip dip sport dport srcmac dstmac data totalLen)
      = ((msg.storeBytes 6 (srcmac.take etherAddrLen)).storeBytes 0
          (dstmac.take etherAddrLen)).bytes 6 etherAddrLen := by
        apply Ptr.bytes_congr
        intro i _ hi
        rw [etherAddrLen] at hi
        rw [ngEncodeUdpApppkt_iphdr _ _ _ _ _ _ _ _ _ (by omega),
          encodeUdpIpHdr_ether _ _ _ _ _ _ (by omega)]
    _ = (msg.storeBytes 6 (srcmac.take etherAddrLen)).bytes 6 etherAddrLen :=
        Ptr.bytes_storeBytes_of_disjoint (by omega)
    _ = srcmac := by rw [htake, Ptr.bytes_storeBytes_of_length hsrc]

/-- The copied bytes lie behind the UDP header. -/
theorem bytes_ngEncodeUdpApppkt {n : Nat} (hn : n ≤ (udplenOf totalLen).toNat) :
    (ngEncodeUdpApppkt msg sip dip sport dport srcmac dstmac data totalLen).bytes 42 n =
      data.bytes 0 n := by
  have hcopied : ∀ p : Ptr, (p.storeBytes 42 (data.bytes 0 (udplenOf totalLen).toNat)).bytes 42
      (udplenOf totalLen).toNat = data.bytes 0 (udplenOf totalLen).toNat :=
    fun p => Ptr.bytes_storeBytes_of_length (Ptr.length_bytes ..)
  obtain ⟨k, hk⟩ := Nat.exists_eq_add_of_le hn
  rw [ngEncodeUdpApppkt_eq]
  simp (disch := omega) only [unsummedUdp, Ptr.bytes_store16_of_lt]
  generalize ((encodeUdpIpHdr msg sip dip srcmac dstmac totalLen).store16 34 sport).store16 36
    dport = p
  have hall := hcopied (p.store16 38 (htons (udplenOf totalLen)))
  rw [hk, Ptr.bytes_add, Ptr.bytes_add] at hall
  rw [hk, Ptr.bytes_add]
  exact (List.append_inj hall (by rw [Ptr.length_bytes, Ptr.length_bytes])).1

/-! ## The fields -/

/-- What the headers of a datagram say, field by field, the ports and
    addresses as they lie in the packet. -/
structure UdpHeaderFields (p : Ptr) (sip dip : BitVec 32) (sport dport totalLen : BitVec 16) :
    Prop where
  etherType : EtherHdr.etherType p = htons RTE_ETHER_TYPE_IPV4
  versionIhl : Ipv4Hdr.versionIhl (p.offset 14) = 0x45
  totalLength : Ipv4Hdr.totalLength (p.offset 14) =
    htons (totalLen - BitVec.ofNat 16 sizeofEtherHdr)
  nextProtoId : Ipv4Hdr.nextProtoId (p.offset 14) = IPPROTO_UDP
  srcAddr : Ipv4Hdr.srcAddr (p.offset 14) = sip
  dstAddr : Ipv4Hdr.dstAddr (p.offset 14) = dip
  srcPort : UdpHdr.srcPort (p.offset 34) = sport
  dstPort : UdpHdr.dstPort (p.offset 34) = dport
  dgramLen : UdpHdr.dgramLen (p.offset 34) = htons (udplenOf totalLen)

theorem udpHeaderFields_encode : UdpHeaderFields
    (ngEncodeUdpApppkt msg sip dip sport dport srcmac dstmac data totalLen) sip dip sport dport
    totalLen := by
  rw [ngEncodeUdpApppkt_eq]
  simp only [unsummedUdp, encodeUdpIpHdr_eq, unsummedUdpIpHdr]
  constructor
  · simp [EtherHdr.etherType]
  · simp [Ipv4Hdr.versionIhl]
  · simp [Ipv4Hdr.totalLength]
  · simp [Ipv4Hdr.nextProtoId]
  · simp [Ipv4Hdr.srcAddr]
  · simp [Ipv4Hdr.dstAddr]
  · simp [UdpHdr.srcPort]
  · simp [UdpHdr.dstPort]
  · simp [UdpHdr.dgramLen]

/-! ## The checksums -/

/-- The pseudo header and the datagram, checksum included, sum up to all
    ones. -/
abbrev UdpCksumVerifies (ip l4 : Ptr) : Prop := TcpCksumVerifies ip l4

/-- The answer of `rte_ipv4_udptcp_cksum`, written to the cleared field,
    verifies. -/
theorem udpCksumVerifies_store {ip l4 : Ptr} {len : Nat} (hclear : l4.load16 6 = 0)
    (hhdr : sizeofUdpHdr ≤ len)
    (hlen : (ntohs (Ipv4Hdr.totalLength ip)).toNat = sizeofIpv4Hdr + len) :
    UdpCksumVerifies ip (l4.store16 6 (rteIpv4UdptcpCksum ip l4)) := by
  obtain ⟨hpos, hdvd⟩ : 0 < (rteIpv4UdptcpCksum ip l4).toNat ∧ _ :=
    rteIpv4UdptcpCksum_completes hlen
  have hlt := (ntohs (Ipv4Hdr.totalLength ip)).isLt
  rw [sizeofUdpHdr] at hhdr
  have hsum : wordSum (l4.store16 6 (rteIpv4UdptcpCksum ip l4)) 0 len =
      wordSum l4 0 len + (rteIpv4UdptcpCksum ip l4).toNat := by
    have hstore : wordSum (l4.store16 6 (rteIpv4UdptcpCksum ip l4)) 0 len +
        (l4.load16 6).toNat = wordSum l4 0 len + (rteIpv4UdptcpCksum ip l4).toNat :=
      wordSum_store16 (by omega) (by omega) (by omega)
    rwa [hclear] at hstore
  have hpsd : (rteRawCksumSum (psdHdr ip) 0 12 0).toNat = wordSum (psdHdr ip) 0 12 := by
    rw [toNat_rteRawCksumSum (by decide)]
    exact Nat.zero_add _
  have hpsdLe := wordSum_le (psdHdr ip) 0 12
  have hl4Len : (ntohs (Ipv4Hdr.totalLength ip)).toNat - sizeofIpv4Hdr = len := by omega
  apply eq_ones_of_toNat
  rw [hl4Len, toNat_rteRawCksumReduce, toNat_rteRawCksumSum (by omega), hpsd, hsum,
    ← Nat.add_assoc]
  exact onesReduce_add_eq (by omega) hdvd

theorem ipCksumVerifies_ngEncodeUdpApppkt : IpCksumVerifies
    ((ngEncodeUdpApppkt msg sip dip sport dport srcmac dstmac data totalLen).offset 14) := by
  have hagrees : Ptr.Agrees 20 ((encodeUdpIpHdr msg sip dip srcmac dstmac totalLen).offset 14)
      ((ngEncodeUdpApppkt msg sip dip sport dport srcmac dstmac data totalLen).offset 14) := by
    intro i hi
    exact (ngEncodeUdpApppkt_iphdr msg sip dip sport dport srcmac dstmac data totalLen
      (by omega)).symm
  -- the sum was taken while the field was 0, and stored there
  have hclear :
      ((unsummedUdpIpHdr msg sip dip srcmac dstmac totalLen).offset 14).load16 10 = 0 := by
    simp [unsummedUdpIpHdr]
  have hverifies := ipCksumVerifies_store hclear
  rw [← Ptr.offset_store16] at hverifies
  rw [IpCksumVerifies, rteRawCksum, ← hagrees.rawCksumSum (by decide)]
  exact hverifies

/-- The UDP checksum is there, and it verifies. -/
theorem udpCksumVerifies_ngEncodeUdpApppkt {len : Nat} (hhdr : sizeofUdpHdr ≤ len)
    (hlen : (totalLen - BitVec.ofNat 16 sizeofEtherHdr).toNat = sizeofIpv4Hdr + len) :
    let p := ngEncodeUdpApppkt msg sip dip sport dport srcmac dstmac data totalLen
    UdpHdr.dgramCksum (p.offset 34) ≠ 0 ∧ UdpCksumVerifies (p.offset 14) (p.offset 34) := by
  let p := unsummedUdp msg sip dip sport dport srcmac dstmac data totalLen
  have hdata : ngEncodeUdpApppkt msg sip dip sport dport srcmac dstmac data totalLen =
      p.store16 (34 + 6) (rteIpv4UdptcpCksum (p.offset 14) (p.offset 34)) := rfl
  have hagrees : Ptr.Agrees 20 (p.offset 14)
      ((ngEncodeUdpApppkt msg sip dip sport dport srcmac dstmac data totalLen).offset 14) := by
    intro i hi
    rw [hdata]
    show p (14 + i) = p.store16 (34 + 6) _ (14 + i)
    exact (Ptr.store16_apply_of_ne (by omega) (by omega)).symm
  have htotal : (ntohs (Ipv4Hdr.totalLength (p.offset 14))).toNat = sizeofIpv4Hdr + len := by
    have hfield : Ipv4Hdr.totalLength (p.offset 14) = Ipv4Hdr.totalLength
        ((ngEncodeUdpApppkt msg sip dip sport dport srcmac dstmac data totalLen).offset 14) :=
      hagrees.load16 (by omega)
    rw [hfield, (udpHeaderFields_encode msg sip dip sport dport srcmac dstmac data
      totalLen).totalLength, ntohs_ntohs, hlen]
  -- again the field was 0 while the sum was taken
  have hclear : (p.offset 34).load16 6 = 0 := by
    simp [p, unsummedUdp]
  have hpos : 0 < (rteIpv4UdptcpCksum (p.offset 14) (p.offset 34)).toNat :=
    (rteIpv4UdptcpCksum_completes htotal).1
  constructor
  · intro hzero
    rw [hdata, UdpHdr.dgramCksum, Ptr.offset_store16, Ptr.load16_store16] at hzero
    rw [hzero] at hpos
    exact absurd hpos (by decide)
  · show UdpCksumVerifies _ ((ngEncodeUdpApppkt msg sip dip sport dport srcmac dstmac data
      totalLen).offset 34)
    rw [hdata, Ptr.offset_store16]
    rw [hdata] at hagrees
    exact (udpCksumVerifies_store hclear hhdr htotal).congr hagrees

/-! ## The frame of a datagram -/

/-- The frame in `m`, parsed in network byte order, is one of Ethernet, IPv4
    and UDP for the given hardware addresses, has the lengths it claims, and
    yields the datagram back. -/
structure DatagramRoundTrips (m : Mbuf) (srcmac dstmac : List Byte) (host : Localhost)
    (buf : List Byte) (ip : BitVec 32) (port : BitVec 16) : Prop where
  udp : m.IsUdp
  dAddr : EtherHdr.dAddr m.data = dstmac
  sAddr : EtherHdr.sAddr m.data = srcmac
  version : Ipv4Hdr.versionIhl m.iphdr = 0x45
  whole : m.dataLen = sizeofEtherHdr + m.totalLength
  datagram : m.totalLength = sizeofIpv4Hdr + m.dgramLen
  srcAddr : Ipv4Hdr.srcAddr m.iphdr = host.localip
  dstAddr : Ipv4Hdr.dstAddr m.iphdr = ip
  srcPort : UdpHdr.srcPort m.l4hdr = host.localport
  dstPort : UdpHdr.dstPort m.l4hdr = port
  payload : m.l4hdr.bytes sizeofUdpHdr (m.dgramLen - sizeofUdpHdr) = buf
  ipCksum : IpCksumVerifies m.iphdr
  hasCksum : UdpHdr.dgramCksum m.l4hdr ≠ 0
  udpCksum : UdpCksumVerifies m.iphdr m.l4hdr

variable {heap : Ptr} {host : Localhost} {buf : List Byte} {ip : BitVec 32} {port : BitVec 16}

theorem toNat_udpTotalLen (length : BitVec 16) :
    (udpTotalLen length).toNat = length.toNat + 42 := by
  have hlt := length.isLt
  have h42 : BitVec.toNat (42 : BitVec 32) = 42 := rfl
  rw [udpTotalLen, BitVec.toNat_add, BitVec.toNat_setWidth, h42]
  omega

/-- What the copy of `ng_encode_udp_apppkt` sees first is the data. -/
theorem bytes_dataPtr (ol : Offload) (heap : Ptr) {n : Nat} (hn : n ≤ ol.data.length) :
    (ol.dataPtr heap).bytes 0 n = ol.data.take n := by
  apply List.ext_getElem
  · rw [Ptr.length_bytes, List.length_take, Nat.min_eq_left hn]
  · intro i hi hi'
    rw [Ptr.length_bytes] at hi
    simp only [Ptr.bytes, List.getElem_map, List.getElem_range, Nat.zero_add, Offload.dataPtr,
      List.getElem_take]
    exact List.getD_eq_getElem _ _ (by omega)

/-- The length `ng_encode_udp_apppkt` writes to the IP header. -/
theorem toNat_ipLength (length : BitVec 16) :
    ((udpTotalLen length).setWidth 16 - BitVec.ofNat 16 sizeofEtherHdr).toNat =
      (length.toNat + 28) % 2 ^ 16 := by
  have hlt := length.isLt
  rw [BitVec.toNat_sub, BitVec.toNat_setWidth, toNat_udpTotalLen]
  simp only [sizeofEtherHdr, BitVec.toNat_ofNat]
  omega

/-- The length it writes to the UDP header. -/
theorem toNat_udplen (length : BitVec 16) :
    (udplenOf ((udpTotalLen length).setWidth 16)).toNat = (length.toNat + 8) % 2 ^ 16 := by
  have hlt := length.isLt
  rw [udplenOf, BitVec.toNat_sub, BitVec.toNat_setWidth, toNat_udpTotalLen]
  simp only [sizeofEtherHdr, sizeofIpv4Hdr, BitVec.toNat_ofNat]
  omega

section NgUdpPkt

variable (msg heap : Ptr) (srcmac dstmac : List Byte) (ol : Offload)

theorem fields_ngUdpPkt : UdpHeaderFields (ngUdpPkt msg heap srcmac dstmac ol).data ol.sip ol.dip
    ol.sport ol.dport ((udpTotalLen ol.length).setWidth 16) :=
  udpHeaderFields_encode ..

theorem dataLen_ngUdpPkt :
    (ngUdpPkt msg heap srcmac dstmac ol).dataLen = (ol.length.toNat + 42) % 2 ^ 16 :=
  congrArg (· % 2 ^ 16) (toNat_udpTotalLen ol.length)

theorem totalLength_ngUdpPkt :
    (ngUdpPkt msg heap srcmac dstmac ol).totalLength = (ol.length.toNat + 28) % 2 ^ 16 := by
  have hfield : Ipv4Hdr.totalLength (ngUdpPkt msg heap srcmac dstmac ol).iphdr =
      htons ((udpTotalLen ol.length).setWidth 16 - BitVec.ofNat 16 sizeofEtherHdr) :=
    (fields_ngUdpPkt msg heap srcmac dstmac ol).totalLength
  rw [Mbuf.totalLength, hfield, ntohs_ntohs, toNat_ipLength]

theorem dgramLen_ngUdpPkt :
    (ngUdpPkt msg heap srcmac dstmac ol).dgramLen = (ol.length.toNat + 8) % 2 ^ 16 := by
  rw [Mbuf.dgramLen, l4hdr_eq, (fields_ngUdpPkt msg heap srcmac dstmac ol).dgramLen, ntohs_ntohs,
    toNat_udplen]

/-- The payload is the data, as far as it goes. -/
theorem payload_ngUdpPkt (hdata : ol.data.length = ol.length.toNat)
    (hlen : ol.length.toNat + 8 < 2 ^ 16) :
    (ngUdpPkt msg heap srcmac dstmac ol).l4hdr.bytes sizeofUdpHdr
      ((ngUdpPkt msg heap srcmac dstmac ol).dgramLen - sizeofUdpHdr) = ol.data := by
  have hn : (ngUdpPkt msg heap srcmac dstmac ol).dgramLen - sizeofUdpHdr = ol.data.length := by
    rw [dgramLen_ngUdpPkt, hdata, sizeofUdpHdr]
    omega
  have hcopied : ol.data.length ≤ (udplenOf ((udpTotalLen ol.length).setWidth 16)).toNat := by
    rw [toNat_udplen, hdata]
    omega
  rw [hn, l4hdr_eq, Ptr.bytes_offset]
  calc (ngUdpPkt msg heap srcmac dstmac ol).data.bytes 42 ol.data.length
      = (ol.dataPtr heap).bytes 0 ol.data.length :=
        bytes_ngEncodeUdpApppkt _ _ _ _ _ _ _ _ _ hcopied
    _ = ol.data := by rw [bytes_dataPtr ol heap (Nat.le_refl _), List.take_length]

/-- What `udp_process` makes of the frame: the offload again, but for a length
    that counts the UDP header in. -/
theorem offload_ngUdpPkt (hdata : ol.data.length = ol.length.toNat)
    (hlen : ol.length.toNat + 8 < 2 ^ 16) : (ngUdpPkt msg heap srcmac dstmac ol).offload =
      { ol with length := ol.length + BitVec.ofNat 16 sizeofUdpHdr } := by
  have hfields := fields_ngUdpPkt msg heap srcmac dstmac ol
  have hpayload := payload_ngUdpPkt msg heap srcmac dstmac ol hdata hlen
  have hdgram := dgramLen_ngUdpPkt msg heap srcmac dstmac ol
  rw [Mbuf.dgramLen] at hpayload hdgram
  have hlength : ntohs (UdpHdr.dgramLen (ngUdpPkt msg heap srcmac dstmac ol).l4hdr) =
      ol.length + BitVec.ofNat 16 sizeofUdpHdr := by
    apply BitVec.eq_of_toNat_eq
    rw [hdgram, BitVec.toNat_add, sizeofUdpHdr]
    rfl
  unfold Mbuf.offload
  rw [hpayload, hlength, l4hdr_eq]
  show Offload.mk (Ipv4Hdr.srcAddr _) (Ipv4Hdr.dstAddr _) _ _ _ _ = _
  rw [hfields.srcPort, hfields.dstPort]
  exact congrArg₂ (fun sip dip => Offload.mk sip dip _ _ _ _) hfields.srcAddr hfields.dstAddr

end NgUdpPkt

/-- A datagram of up to 65493 bytes comes back with all its headers, and a
    longer one does not. -/
theorem datagram_round_trip_iff (msg heap : Ptr) (srcmac dstmac : List Byte) (host : Localhost)
    (buf : List Byte) (ip : BitVec 32) (port : BitVec 16) (hsrc : srcmac.length = etherAddrLen)
    (hdst : dstmac.length = etherAddrLen) :
    DatagramRoundTrips (ngUdpPkt msg heap srcmac dstmac (sendtoOffload host buf ip port))
      srcmac dstmac host buf ip port ↔ buf.length ≤ 65493 := by
  let ol := sendtoOffload host buf ip port
  have hol : ol.length.toNat = buf.length % 2 ^ 16 := BitVec.toNat_ofNat ..
  have hdataLen := dataLen_ngUdpPkt msg heap srcmac dstmac ol
  have htotal := totalLength_ngUdpPkt msg heap srcmac dstmac ol
  have hdgram := dgramLen_ngUdpPkt msg heap srcmac dstmac ol
  have hfields := fields_ngUdpPkt msg heap srcmac dstmac ol
  have hl4 : (ngUdpPkt msg heap srcmac dstmac ol).l4hdr =
      (ngUdpPkt msg heap srcmac dstmac ol).data.offset 34 := l4hdr_eq _
  constructor
  · intro h
    -- beyond 65493 one of the three lengths wraps around before the others
    have hwhole := h.whole
    have hdatagram := h.datagram
    have hpayload := congrArg List.length h.payload
    rw [Ptr.length_bytes] at hpayload
    rw [hdataLen, htotal, hol, sizeofEtherHdr] at hwhole
    rw [htotal, hdgram, hol, sizeofIpv4Hdr] at hdatagram
    rw [hdgram, hol, sizeofUdpHdr] at hpayload
    omega
  · intro hle
    have hlen : ol.length.toNat = buf.length := by omega
    have hip : ((udpTotalLen ol.length).setWidth 16 - BitVec.ofNat 16 sizeofEtherHdr).toNat =
        sizeofIpv4Hdr + (buf.length + 8) := by
      rw [toNat_ipLength, hlen, sizeofIpv4Hdr]
      omega
    obtain ⟨hasCksum, hcksum⟩ := udpCksumVerifies_ngEncodeUdpApppkt msg ol.sip ol.dip ol.sport
      ol.dport srcmac dstmac (ol.dataPtr heap) _ (by rw [sizeofUdpHdr]; omega) hip
    exact {
      udp := ⟨hfields.etherType, hfields.nextProtoId⟩
      dAddr := dAddr_ngEncodeUdpApppkt _ _ _ _ _ _ _ _ _ hdst
      sAddr := sAddr_ngEncodeUdpApppkt _ _ _ _ _ _ _ _ _ hsrc hdst
      version := hfields.versionIhl
      whole := by
        rw [hdataLen, htotal, hlen, sizeofEtherHdr]
        omega
      datagram := by
        rw [htotal, hdgram, hlen, sizeofIpv4Hdr]
        omega
      srcAddr := hfields.srcAddr
      dstAddr := hfields.dstAddr
      srcPort := by
        rw [hl4]
        exact hfields.srcPort
      dstPort := by
        rw [hl4]
        exact hfields.dstPort
      payload := payload_ngUdpPkt msg heap srcmac dstmac ol hlen.symm (by omega)
      ipCksum := ipCksumVerifies_ngEncodeUdpApppkt ..
      hasCksum := by
        rw [hl4]
        exact hasCksum
      udpCksum := by
        rw [hl4]
        exact hcksum }

end LinuxLearning.Ustack
