/-
  LinuxLearning.Replies.Ustack

  What `main` of `ustack.c` answers to UDP and TCP: the seven globals it fills
  from a frame, and the two encoders that read them.
-/

import LinuxLearning.Replies.Frame

namespace LinuxLearning.Replies

open Ustack

/-- `USTACK_TCP_STATUS` -/
inductive UstackTcpStatus where
  | closed
  | listen
  | synRcvd
  | synSent
  | established
  | finWait1
  | finWait2
  | closing
  | timeWait
  | closeWait
  | lastAck
deriving DecidableEq, Repr

/-- The global variables of `ustack.c`. -/
structure Globals where
  smac : Mac
  dmac : Mac
  sip : BitVec 32
  dip : BitVec 32
  sport : BitVec 16
  dport : BitVec 16
  flags : Byte
  seqnum : BitVec 32
  acknum : BitVec 32
  tcpStatus : UstackTcpStatus

/-! ## Encoders -/

/-- The UDP header of `ustack_encode_udp_pkt`, in front of its checksum. -/
def encodeUdpHdr (g : Globals) (msg : Buffer) (tolLen : BitVec 16) : Buffer :=
  let p := encodeIpHdr msg g.smac g.dmac g.sip g.dip IPPROTO_UDP
    (tolLen - BitVec.ofNat 16 sizeofEtherHdr)
  let udplen := tolLen - BitVec.ofNat 16 sizeofEtherHdr - BitVec.ofNat 16 sizeofIpv4Hdr
  (((p.store16 34 g.sport).store16 36 g.dport).store16 38 (htons udplen)).store16 40 0

/-- `ustack_encode_udp_pkt`.  The payload is copied behind the checksum, and as
    many bytes of it as `udp->dgram_len` says, which is in network order. -/
def ustackEncodeUdpPkt (g : Globals) (msg : Buffer) (data : Ptr) (tolLen : BitVec 16) : Buffer :=
  let p := encodeUdpHdr g msg tolLen
  let p := p.store16 40 (rteIpv4UdptcpCksum (p.mem.offset 14) (p.mem.offset 34))
  p.storeBytes 42 (data.bytes 0 (UdpHdr.dgramLen (p.mem.offset 34)).toNat)

/-- The TCP header of `ustack_encode_tcp_pkt`, in front of its checksum. -/
def encodeTcpHdr (g : Globals) (msg : Buffer) (tolLen : BitVec 16) : Buffer :=
  let p := encodeIpHdr msg g.smac g.dmac g.sip g.dip IPPROTO_TCP
    (tolLen - BitVec.ofNat 16 sizeofEtherHdr)
  let p := p.storeBytes 34 (List.replicate sizeofTcpHdr 0)
  let p := ((p.store16 34 g.sport).store16 36 g.dport).store32 38 (ntohl 12345)
  let p := (p.store32 42 (ntohl (g.seqnum + 1))).store8 46 0x50
  (p.store8 47 (RTE_TCP_SYN_FLAG ||| RTE_TCP_ACK_FLAG)).store16 50 0

/-- `ustack_encode_tcp_pkt` -/
def ustackEncodeTcpPkt (g : Globals) (msg : Buffer) (tolLen : BitVec 16) : Buffer :=
  let p := encodeTcpHdr g msg tolLen
  let p := p.store16 50 (rteIpv4UdptcpCksum (p.mem.offset 14) (p.mem.offset 34))
  p.store16 52 0

/-! ## `main` -/

/-- What the UDP branch copies from a frame. -/
def Globals.fillUdp (g : Globals) (frame : Mbuf) : Globals :=
  { g with
    smac := macAt frame.data 0
    dmac := macAt frame.data 6
    sip := Ipv4Hdr.dstAddr frame.iphdr
    dip := Ipv4Hdr.srcAddr frame.iphdr
    sport := UdpHdr.dstPort frame.l4hdr
    dport := UdpHdr.srcPort frame.l4hdr }

/-- What the TCP branch copies from a frame. -/
def Globals.fillTcp (g : Globals) (frame : Mbuf) : Globals :=
  { g with
    -- not the other way round, as for UDP
    smac := macAt frame.data 6
    dmac := macAt frame.data 0
    sip := Ipv4Hdr.dstAddr frame.iphdr
    dip := Ipv4Hdr.srcAddr frame.iphdr
    sport := TcpHdr.dstPort frame.l4hdr
    dport := TcpHdr.srcPort frame.l4hdr
    flags := TcpHdr.tcpFlags frame.l4hdr
    seqnum := ntohl (TcpHdr.sentSeq frame.l4hdr)
    acknum := ntohl (TcpHdr.recvAck frame.l4hdr) }

/-- The UDP branch; the reply goes to a buffer that held `msg`. -/
def onUdp (g : Globals) (frame : Mbuf) (msg : Ptr) : Globals × Option Reply :=
  let udphdr := frame.l4hdr
  let udpLen := ntohs (UdpHdr.dgramLen udphdr)
  if udpLen.toNat < sizeofUdpHdr then (g, none)
  else
    let g := g.fillUdp frame
    let totalLen := udpLen + BitVec.ofNat 16 sizeofEtherHdr + BitVec.ofNat 16 sizeofIpv4Hdr
    let buffer := ustackEncodeUdpPkt g (.alloc msg) (udphdr.offset sizeofUdpHdr) totalLen
    (g, some { buffer := buffer, dataLen := totalLen.toNat })

/-- The TCP branch.  It tests the flags that it has just put into `flags`. -/
def onTcp (g : Globals) (frame : Mbuf) (msg : Ptr) : Globals × Option Reply :=
  let g := g.fillTcp frame
  if hasFlag g.flags RTE_TCP_SYN_FLAG then
    if g.tcpStatus = .listen then
      let totalLen := BitVec.ofNat 16 (sizeofTcpHdr + sizeofEtherHdr + sizeofIpv4Hdr)
      let buffer := ustackEncodeTcpPkt g (.alloc msg) totalLen
      ({ g with tcpStatus := .synRcvd }, some { buffer := buffer, dataLen := totalLen.toNat })
    else (g, none)
  else if hasFlag g.flags RTE_TCP_ACK_FLAG then
    if g.tcpStatus = .synRcvd then ({ g with tcpStatus := .established }, none) else (g, none)
  else (g, none)

/-- What `main` does with an IPv4 frame that carries UDP or TCP. -/
def ustackMain (g : Globals) (frame : Mbuf) (msg : Ptr) : Globals × Option Reply :=
  if EtherHdr.etherType frame.data = htons RTE_ETHER_TYPE_IPV4 then
    if Ipv4Hdr.nextProtoId frame.iphdr = IPPROTO_UDP then onUdp g frame msg
    else if Ipv4Hdr.nextProtoId frame.iphdr = IPPROTO_TCP then onTcp g frame msg
    else (g, none)
  else (g, none)

/-! ## The headers of the replies -/

section Encoders

variable (g : Globals) (msg : Buffer) (data : Ptr) (tolLen : BitVec 16)

/-- What is stored for UDP is behind the headers. -/
theorem encodeUdpHdr_apply {i : Nat} (h : i < 34 ∨ 42 ≤ i) :
    (encodeUdpHdr g msg tolLen).mem i = (encodeIpHdr msg g.smac g.dmac g.sip g.dip IPPROTO_UDP
      (tolLen - BitVec.ofNat 16 sizeofEtherHdr)).mem i := by
  simp (disch := omega) only [encodeUdpHdr, Buffer.mem_store16, Ptr.store16_apply_of_ne]

theorem encodeTcpHdr_apply {i : Nat} (h : i < 34) :
    (encodeTcpHdr g msg tolLen).mem i = (encodeIpHdr msg g.smac g.dmac g.sip g.dip IPPROTO_TCP
      (tolLen - BitVec.ofNat 16 sizeofEtherHdr)).mem i := by
  simp (disch := omega) only [encodeTcpHdr, Buffer.mem_store16, Buffer.mem_store32,
    Buffer.mem_store8, Buffer.mem_storeBytes, Ptr.store16_apply_of_ne, Ptr.store32_apply_of_ne,
    Ptr.store8_apply_of_ne, Ptr.storeBytes_apply_of_lt]

theorem ipHeaders_encodeUdpHdr : IpHeaders (encodeUdpHdr g msg tolLen).mem g.smac g.dmac g.sip g.dip
    IPPROTO_UDP (tolLen - BitVec.ofNat 16 sizeofEtherHdr) :=
  ipHeaders_encodeIpHdr.congr fun _ hi => (encodeUdpHdr_apply g msg tolLen (.inl hi)).symm

theorem ipHeaders_encodeTcpHdr : IpHeaders (encodeTcpHdr g msg tolLen).mem g.smac g.dmac g.sip g.dip
    IPPROTO_TCP (tolLen - BitVec.ofNat 16 sizeofEtherHdr) :=
  ipHeaders_encodeIpHdr.congr fun _ hi => (encodeTcpHdr_apply g msg tolLen hi).symm

theorem encodeUdpHdr_behind {i : Nat} (h : 42 ≤ i) :
    (encodeUdpHdr g msg tolLen).mem i = msg.mem i :=
  (encodeUdpHdr_apply g msg tolLen (.inr h)).trans (encodeIpHdr_apply (by omega))

theorem writtenWithin_encodeUdpHdr {n : Nat} (hn : 42 ≤ n) (h : msg.WrittenWithin n) :
    (encodeUdpHdr g msg tolLen).WrittenWithin n := by
  simp only [encodeUdpHdr, Buffer.writtenWithin_store16,
    writtenWithin_encodeIpHdr (Nat.le_trans (by decide) hn) h, and_true]
  omega

theorem writtenWithin_encodeTcpHdr {n : Nat} (hn : 54 ≤ n) (h : msg.WrittenWithin n) :
    (encodeTcpHdr g msg tolLen).WrittenWithin n := by
  simp only [encodeTcpHdr, Buffer.writtenWithin_store16, Buffer.writtenWithin_store32,
    Buffer.writtenWithin_store8, Buffer.writtenWithin_storeBytes, List.length_replicate,
    sizeofTcpHdr, writtenWithin_encodeIpHdr (Nat.le_trans (by decide) hn) h, and_true]
  omega

/-- The UDP header, with its checksum cleared. -/
theorem udpFields_encodeUdpHdr :
    UdpHdr.srcPort ((encodeUdpHdr g msg tolLen).mem.offset 34) = g.sport ∧
      UdpHdr.dstPort ((encodeUdpHdr g msg tolLen).mem.offset 34) = g.dport ∧
      UdpHdr.dgramLen ((encodeUdpHdr g msg tolLen).mem.offset 34) =
        htons (tolLen - BitVec.ofNat 16 sizeofEtherHdr - BitVec.ofNat 16 sizeofIpv4Hdr) ∧
      ((encodeUdpHdr g msg tolLen).mem.offset 34).load16 6 = 0 := by
  simp [encodeUdpHdr, UdpHdr.srcPort, UdpHdr.dstPort, UdpHdr.dgramLen]

/-- The TCP header's ports, and its cleared checksum and urgent pointer. -/
theorem tcpFields_encodeTcpHdr :
    TcpHdr.srcPort ((encodeTcpHdr g msg tolLen).mem.offset 34) = g.sport ∧
      TcpHdr.dstPort ((encodeTcpHdr g msg tolLen).mem.offset 34) = g.dport ∧
      TcpHdr.cksum ((encodeTcpHdr g msg tolLen).mem.offset 34) = 0 ∧
      (encodeTcpHdr g msg tolLen).mem.load16 52 = 0 := by
  refine ⟨by simp [encodeTcpHdr, TcpHdr.srcPort], by simp [encodeTcpHdr, TcpHdr.dstPort],
    by simp [encodeTcpHdr, TcpHdr.cksum], ?_⟩
  have hcleared : ∀ i, 34 ≤ i → i < 54 → ∀ p : Ptr,
      p.storeBytes 34 (List.replicate sizeofTcpHdr 0) i = 0 := by
    intro i hlow hhigh p
    rw [Ptr.storeBytes, if_pos ⟨hlow, by simpa [sizeofTcpHdr] using hhigh⟩]
    simp
  simp (disch := omega) only [encodeTcpHdr, Ptr.load16, Buffer.mem_store16, Buffer.mem_store32,
    Buffer.mem_store8, Buffer.mem_storeBytes, Ptr.store16_apply_of_ne, Ptr.store32_apply_of_ne,
    Ptr.store8_apply_of_ne, hcleared]
  rfl

/-- The reply to a datagram: its checksum and what is copied. -/
theorem ustackEncodeUdpPkt_eq :
    ustackEncodeUdpPkt g msg data tolLen =
      ((encodeUdpHdr g msg tolLen).store16 40
        (rteIpv4UdptcpCksum ((encodeUdpHdr g msg tolLen).mem.offset 14)
          ((encodeUdpHdr g msg tolLen).mem.offset 34))).storeBytes 42 (data.bytes 0
            (htons (tolLen - BitVec.ofNat 16 sizeofEtherHdr -
              BitVec.ofNat 16 sizeofIpv4Hdr)).toNat) := by
  have hlen := (udpFields_encodeUdpHdr g msg tolLen).2.2.1
  simp only [UdpHdr.dgramLen, Ptr.load16_offset] at hlen
  simp only [ustackEncodeUdpPkt, UdpHdr.dgramLen, Ptr.load16_offset, Buffer.mem_store16]
  rw [Ptr.load16_store16_of_disjoint (by decide), hlen]

end Encoders

end LinuxLearning.Replies
