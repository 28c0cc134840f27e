/-
  LinuxLearning.Ustack.Encoding

  What `ng_encode_tcp_apppkt` writes: the value of every header field, the
  payload behind the headers, and nothing behind the payload.
-/

import LinuxLearning.Ustack.TcpOutput

namespace LinuxLearning.Ustack

variable (msg : Ptr) (sip dip : BitVec 32) (srcmac dstmac : List Byte) (f : NgTcpFragment)

/-! ## The stages of the encoder -/

/-- The Ethernet and IP headers before the checksum is known. -/
def unsummedIpHdr (msg : Ptr) (sip dip : BitVec 32) (srcmac dstmac : List Byte)
    (fragment : NgTcpFragment) : Ptr :=
  let eth := ((msg.storeBytes 6 (srcmac.take etherAddrLen)).storeBytes 0
    (dstmac.take etherAddrLen)).store16 12 (htons RTE_ETHER_TYPE_IPV4)
  let totalLength := htons ((tcpTotalLen fragment - BitVec.ofNat 32 sizeofEtherHdr).setWidth 16)
  (((((((((eth.store8 14 0x45).store8 15 0).store16 16 totalLength).store16 18 0).store16
    20 0).store8 22 64).store8 23 IPPROTO_TCP).store32 26 sip).store32 30 dip).store16 24 0

/-- The frame before the TCP checksum is known. -/
def unsummedTcp (msg : Ptr) (sip dip : BitVec 32) (srcmac dstmac : List Byte)
    (fragment : NgTcpFragment) : Ptr :=
  let p := encodeTcpIpHdr msg sip dip srcmac dstmac fragment
  let p := ((((((((p.store16 34 fragment.sport).store16 36 fragment.dport).store32 38
    (ntohl fragment.seqnum)).store32 42 (ntohl fragment.acknum)).store8 46
    fragment.hdrlenOff).store16 48 fragment.windows).store16 52 fragment.tcpUrp).store8 47
    fragment.tcpFlags)
  (p.storeBytes 54 fragment.payload).store16 50 0

theorem encodeTcpIpHdr_eq : encodeTcpIpHdr msg sip dip srcmac dstmac f =
    let ip := unsummedIpHdr msg sip dip srcmac dstmac f
    ip.store16 24 (rteIpv4Cksum (ip.offset sizeofEtherHdr)) := rfl

/-- A fragment without data is one whose payload is empty. -/
theorem ngEncodeTcpApppkt_eq : ngEncodeTcpApppkt msg sip dip srcmac dstmac f =
    let p := unsummedTcp msg sip dip srcmac dstmac f
    p.store16 50 (rteIpv4UdptcpCksum (p.offset 14) (p.offset 34)) := by
  simp only [ngEncodeTcpApppkt, unsummedTcp, NgTcpFragment.payload]
  cases f.data with
  | none => simp only [Option.getD_none, List.take_nil, Ptr.storeBytes_nil]
  | some data => rfl

/-! ## Where the stages write -/

/-- The hardware addresses end before the type. -/
theorem etherHdr_apply {i : Nat} (h : 12 ≤ i) :
    ((msg.storeBytes 6 (srcmac.take etherAddrLen)).storeBytes 0 (dstmac.take etherAddrLen)) i =
      msg i := by
  have hsrc : (srcmac.take etherAddrLen).length ≤ 6 := List.length_take_le ..
  have hdst : (dstmac.take etherAddrLen).length ≤ 6 := List.length_take_le ..
  rw [Ptr.storeBytes_apply_of_le (by omega), Ptr.storeBytes_apply_of_le (by omega)]

/-- The headers of Ethernet and IP end at byte 34. -/
theorem encodeTcpIpHdr_apply {i : Nat} (h : 34 ≤ i) :
    encodeTcpIpHdr msg sip dip srcmac dstmac f i = msg i := by
  rw [encodeTcpIpHdr_eq]
  simp (disch := omega) only [unsummedIpHdr, Ptr.store16_apply_of_ne, Ptr.store8_apply_of_ne,
    Ptr.store32_apply_of_ne, etherHdr_apply]

/-- Behind the payload the buffer holds what it held before. -/
theorem ngEncodeTcpApppkt_behind {i : Nat} (h : 54 + f.payload.length ≤ i) :
    ngEncodeTcpApppkt msg sip dip srcmac dstmac f i = msg i := by
  rw [ngEncodeTcpApppkt_eq]
  simp (disch := omega) only [unsummedTcp, Ptr.store16_apply_of_ne, Ptr.store8_apply_of_ne,
    Ptr.store32_apply_of_ne, Ptr.storeBytes_apply_of_le, encodeTcpIpHdr_apply]

/-- The TCP part leaves the IP header alone. -/
theorem ngEncodeTcpApppkt_iphdr {i : Nat} (h : i < 34) :
    ngEncodeTcpApppkt msg sip dip srcmac dstmac f i =
      encodeTcpIpHdr msg sip dip srcmac dstmac f i := by
  rw [ngEncodeTcpApppkt_eq]
  simp (disch := omega) only [unsummedTcp, Ptr.store16_apply_of_ne, Ptr.store8_apply_of_ne,
    Ptr.store32_apply_of_ne, Ptr.storeBytes_apply_of_lt]

theorem bytes_ngEncodeTcpApppkt :
    (ngEncodeTcpApppkt msg sip dip srcmac dstmac f).bytes 54 f.payload.length = f.payload := by
  rw [ngEncodeTcpApppkt_eq]
  simp (disch := omega) only [unsummedTcp, Ptr.bytes_store16_of_lt, Ptr.bytes_storeBytes]

/-! ## The fields -/

/-- What the headers of a frame say, field by field, the ports and addresses
    as they lie in the packet. -/
structure HeaderFields (p : Ptr) (sip dip : BitVec 32) (f : NgTcpFragment) : Prop where
  etherType : EtherHdr.etherType p = htons RTE_ETHER_TYPE_IPV4
  versionIhl : Ipv4Hdr.versionIhl (p.offset 14) = 0x45
  totalLength : Ipv4Hdr.totalLength (p.offset 14) =
    htons ((tcpTotalLen f - BitVec.ofNat 32 sizeofEtherHdr).setWidth 16)
  nextProtoId : Ipv4Hdr.nextProtoId (p.offset 14) = IPPROTO_TCP
  srcAddr : Ipv4Hdr.srcAddr (p.offset 14) = sip
  dstAddr : Ipv4Hdr.dstAddr (p.offset 14) = dip
  srcPort : TcpHdr.srcPort (p.offset 34) = f.sport
  dstPort : TcpHdr.dstPort (p.offset 34) = f.dport
  sentSeq : TcpHdr.sentSeq (p.offset 34) = ntohl f.seqnum
  recvAck : TcpHdr.recvAck (p.offset 34) = ntohl f.acknum
  dataOff : TcpHdr.dataOff (p.offset 34) = f.hdrlenOff
  tcpFlags : TcpHdr.tcpFlags (p.offset 34) = f.tcpFlags
  rxWin : p.load16 48 = f.windows
  tcpUrp : p.load16 52 = f.tcpUrp

theorem headerFields_encode :
    HeaderFields (ngEncodeTcpApppkt msg sip dip srcmac dstmac f) sip dip f := by
  rw [ngEncodeTcpApppkt_eq]
  simp only [unsummedTcp, encodeTcpIpHdr_eq, unsummedIpHdr]
  constructor
  · simp [EtherHdr.etherType]
  · simp [Ipv4Hdr.versionIhl]
  · simp [Ipv4Hdr.totalLength]
  · simp [Ipv4Hdr.nextProtoId]
  · simp [Ipv4Hdr.srcAddr]
  · simp [Ipv4Hdr.dstAddr]
  · simp [TcpHdr.srcPort]
  · simp [TcpHdr.dstPort]
  · simp [TcpHdr.sentSeq]
  · simp [TcpHdr.recvAck]
  · simp [TcpHdr.dataOff]
  · simp [TcpHdr.tcpFlags]
  · simp
  · simp

end LinuxLearning.Ustack
