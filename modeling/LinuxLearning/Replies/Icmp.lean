/-
  LinuxLearning.Replies.Icmp

  `ng_send_icmp` and `ustack_encode_icmp_pkt` of `netarch.c` (`udp.c`, `tcp.c`
  and `kni.c` have the same functions), and the branch of `ptk_pocess` that
  calls them.  `msg` is a pointer to ICMP headers when 34 is added to it: the
  ICMP header goes to byte 272, behind the frame.
-/

import LinuxLearning.Kni.NgChecksum
import LinuxLearning.Replies.Frame

namespace LinuxLearning.Replies

open Ustack Kni

def IPPROTO_ICMP : Byte := 1
def RTE_IP_ICMP_ECHO_REPLY : Byte := 0
def RTE_IP_ICMP_ECHO_REQUEST : Byte := 8

/-- `sizeof(struct rte_icmp_hdr)` -/
def sizeofIcmpHdr : Nat := 8

/-! Fields of `struct rte_icmp_hdr`. -/
namespace IcmpHdr
def icmpType (p : Ptr) : Byte := p 0
def icmpCode (p : Ptr) : Byte := p 1
def icmpIdent (p : Ptr) : BitVec 16 := p.load16 4
def icmpSeqNb (p : Ptr) : BitVec 16 := p.load16 6
end IcmpHdr

/-! ## The reply -/

/-- `(struct rte_icmp_hdr *)msg + sizeof(struct rte_ether_hdr) +
    sizeof(struct rte_ipv4_hdr)` -/
def icmphdrOff : Nat := (sizeofEtherHdr + sizeofIpv4Hdr) * sizeofIcmpHdr

/-- `ustack_encode_icmp_pkt`, with the global `smac`. -/
def ustackEncodeIcmpPkt (smac : Mac) (msg : Buffer) (dmac : Mac) (sip dip : BitVec 32)
    (id seqnum : BitVec 16) : Option Buffer := do
  let p := encodeIpHdr msg smac dmac sip dip IPPROTO_ICMP
    (BitVec.ofNat 16 (sizeofIpv4Hdr + sizeofIcmpHdr))
  let p := (p.store8 icmphdrOff RTE_IP_ICMP_ECHO_REPLY).store8 (icmphdrOff + 1) 0
  let p := ((p.store16 (icmphdrOff + 4) id).store16 (icmphdrOff + 6) seqnum).store16
    (icmphdrOff + 2) 0
  let cksum ← ngChecksum (p.mem.offset icmphdrOff) sizeofIcmpHdr
  return p.store16 (icmphdrOff + 2) cksum

/-- `ng_send_icmp`, in a buffer that held `msg`. -/
def ngSendIcmp (smac : Mac) (msg : Ptr) (dmac : Mac) (dip sip : BitVec 32)
    (id seqnum : BitVec 16) : Option Reply := do
  let buffer ← ustackEncodeIcmpPkt smac (.alloc msg) dmac sip dip id seqnum
  return { buffer := buffer, dataLen := sizeofEtherHdr + sizeofIpv4Hdr + sizeofIcmpHdr }

/-- What `ptk_pocess` sends for a frame with an ICMP header. -/
def icmpBranch (smac : Mac) (msg : Ptr) (frame : Mbuf) : Option Reply :=
  let icmphdr := frame.l4hdr
  if EtherHdr.etherType frame.data = htons RTE_ETHER_TYPE_IPV4 ∧
      Ipv4Hdr.nextProtoId frame.iphdr = IPPROTO_ICMP ∧
      IcmpHdr.icmpType icmphdr = RTE_IP_ICMP_ECHO_REQUEST then
    ngSendIcmp smac msg (macAt frame.data 6) (Ipv4Hdr.srcAddr frame.iphdr)
      (Ipv4Hdr.dstAddr frame.iphdr) (IcmpHdr.icmpIdent icmphdr) (IcmpHdr.icmpSeqNb icmphdr)
  else none

/-- An IPv4 echo request without options. -/
structure EchoRequest where
  frame : Mbuf
  etherType : EtherHdr.etherType frame.data = htons RTE_ETHER_TYPE_IPV4
  versionIhl : Ipv4Hdr.versionIhl frame.iphdr = 0x45
  nextProtoId : Ipv4Hdr.nextProtoId frame.iphdr = IPPROTO_ICMP
  icmpType : IcmpHdr.icmpType frame.l4hdr = RTE_IP_ICMP_ECHO_REQUEST
  whole : sizeofEtherHdr + sizeofIpv4Hdr + sizeofIcmpHdr ≤ frame.dataLen

variable {smac dmac : Mac} {msg : Ptr} {sip dip : BitVec 32} {id seqnum : BitVec 16}

/-! ## What an echo reply is -/

/-- The bytes at the pointer are the ICMP header of an echo reply. -/
structure IsEchoHdr (p : Ptr) (len : Nat) (id seqnum : BitVec 16) : Prop where
  icmpType : IcmpHdr.icmpType p = RTE_IP_ICMP_ECHO_REPLY
  icmpCode : IcmpHdr.icmpCode p = 0
  icmpIdent : IcmpHdr.icmpIdent p = id
  icmpSeqNb : IcmpHdr.icmpSeqNb p = seqnum
  cksum : internetChecksum p len = 0

/-- Buffers that agree on the header are echo replies together. -/
theorem isEchoHdr_congr {p q : Ptr} {id seqnum : BitVec 16} (h : Ptr.Agrees 8 p q) :
    IsEchoHdr p 8 id seqnum ↔ IsEchoHdr q 8 id seqnum := by
  have hsum : internetChecksum p 8 = internetChecksum q 8 := by
    rw [internetChecksum_eq, internetChecksum_eq, wordSum_congr fun i _ hi => h i (by omega)]
  have htype : IcmpHdr.icmpType p = IcmpHdr.icmpType q := h 0 (by decide)
  have hcode : IcmpHdr.icmpCode p = IcmpHdr.icmpCode q := h 1 (by decide)
  have hident : IcmpHdr.icmpIdent p = IcmpHdr.icmpIdent q := h.load16 (by decide)
  have hseqnum : IcmpHdr.icmpSeqNb p = IcmpHdr.icmpSeqNb q := h.load16 (by decide)
  constructor
  · rintro ⟨h₁, h₂, h₃, h₄, h₅⟩
    exact ⟨htype ▸ h₁, hcode ▸ h₂, hident ▸ h₃, hseqnum ▸ h₄, hsum ▸ h₅⟩
  · rintro ⟨h₁, h₂, h₃, h₄, h₅⟩
    exact ⟨htype ▸ h₁, hcode ▸ h₂, hident ▸ h₃, hseqnum ▸ h₄, hsum ▸ h₅⟩

/-- The frame is an echo reply to the sender of the request, with the ICMP
    header behind the IP header and of the length that this announces. -/
structure IsEchoReplyTo (m : Mbuf) (request : Mbuf) : Prop where
  etherType : EtherHdr.etherType m.data = htons RTE_ETHER_TYPE_IPV4
  versionIhl : Ipv4Hdr.versionIhl m.iphdr = 0x45
  nextProtoId : Ipv4Hdr.nextProtoId m.iphdr = IPPROTO_ICMP
  whole : m.dataLen = sizeofEtherHdr + (ntohs (Ipv4Hdr.totalLength m.iphdr)).toNat
  dAddr : m.data.bytes 0 6 = EtherHdr.sAddr request.data
  dstAddr : Ipv4Hdr.dstAddr m.iphdr = Ipv4Hdr.srcAddr request.iphdr
  srcAddr : Ipv4Hdr.srcAddr m.iphdr = Ipv4Hdr.dstAddr request.iphdr
  ipCksum : IpCksumVerifies m.iphdr
  icmp : IsEchoHdr m.l4hdr ((ntohs (Ipv4Hdr.totalLength m.iphdr)).toNat - sizeofIpv4Hdr)
    (IcmpHdr.icmpIdent request.l4hdr) (IcmpHdr.icmpSeqNb request.l4hdr)

/-- The frame of a reply. -/
def Reply.mbuf (r : Reply) : Mbuf where
  data := r.buffer.mem
  dataLen := r.dataLen

/-- A request is answered with an echo reply that lies in its buffer's
    `data_len` bytes. -/
def Answered (smac : Mac) (msg : Ptr) (request : EchoRequest) : Prop :=
  ∃ reply, icmpBranch smac msg request.frame = some reply ∧
    IsEchoReplyTo reply.mbuf request.frame ∧ reply.buffer.WrittenWithin reply.dataLen

/-! ## What is sent -/

/-- The buffer that is sent: the headers of Ethernet and IP are those of a
    reply, the header of ICMP is at byte 272, and in its place is what the
    buffer held. -/
theorem ustackEncodeIcmpPkt_eq (b : Buffer) :
    ∃ p, ustackEncodeIcmpPkt smac b dmac sip dip id seqnum = some p ∧
      IpHeaders p.mem smac dmac sip dip IPPROTO_ICMP 28 ∧
      (∀ i, 34 ≤ i → i < icmphdrOff → p.mem i = b.mem i) ∧
      IsEchoHdr (p.mem.offset icmphdrOff) sizeofIcmpHdr id seqnum ∧
      (icmphdrOff, 1) ∈ p.written := by
  generalize hip : encodeIpHdr b smac dmac sip dip IPPROTO_ICMP
    (BitVec.ofNat 16 (sizeofIpv4Hdr + sizeofIcmpHdr)) = ip
  generalize hp : ((((ip.store8 icmphdrOff RTE_IP_ICMP_ECHO_REPLY).store8 (icmphdrOff + 1)
    0).store16 (icmphdrOff + 4) id).store16 (icmphdrOff + 6) seqnum).store16 (icmphdrOff + 2) 0 = p
  have hcksum : ngChecksum (p.mem.offset icmphdrOff) sizeofIcmpHdr =
      some (internetChecksum (p.mem.offset icmphdrOff) sizeofIcmpHdr) :=
    ngChecksum_of_sum (wordSum_lt (by decide))
  refine ⟨p.store16 (icmphdrOff + 2) (internetChecksum (p.mem.offset icmphdrOff) sizeofIcmpHdr),
    ?_, ?_, ?_, ?_, ?_⟩
  · simp only [ustackEncodeIcmpPkt, hip, hp, hcksum, Option.bind_eq_bind, Option.bind_some,
      Option.pure_def]
  · have hheaders : IpHeaders ip.mem smac dmac sip dip IPPROTO_ICMP 28 := by
      rw [← hip]
      exact ipHeaders_encodeIpHdr
    refine hheaders.congr fun i hi => ?_
    have hbehind : i < icmphdrOff := Nat.lt_trans hi (by decide)
    rw [← hp]
    simp (disch := omega) only [Buffer.mem_store16, Buffer.mem_store8, Ptr.store16_apply_of_ne,
      Ptr.store8_apply_of_ne]
  · intro i hi hbehind
    have hsame : ip.mem i = b.mem i := by
      rw [← hip]
      exact encodeIpHdr_apply hi
    rw [← hsame, ← hp]
    simp (disch := omega) only [Buffer.mem_store16, Buffer.mem_store8, Ptr.store16_apply_of_ne,
      Ptr.store8_apply_of_ne]
  · have hclear : (p.mem.offset icmphdrOff).load16 2 = 0 := by
      rw [← hp]
      simp
    constructor
    · rw [← hp]
      simp (disch := omega) [IcmpHdr.icmpType]
    · rw [← hp]
      simp [IcmpHdr.icmpCode]
    · rw [← hp]
      simp [IcmpHdr.icmpIdent]
    · rw [← hp]
      simp [IcmpHdr.icmpSeqNb]
    · rw [Buffer.mem_store16, Ptr.offset_store16]
      exact internetChecksum_store16 (by decide) (by decide) hclear
  · rw [← hp]
    exact List.mem_cons_of_mem _ (List.mem_cons_of_mem _ (List.mem_cons_of_mem _
      (List.mem_cons_of_mem _ (List.mem_cons_of_mem _ List.mem_cons_self))))

/-- Every echo request is answered with such a buffer. -/
theorem icmpBranch_eq (smac : Mac) (msg : Ptr) (request : EchoRequest) :
    ∃ p, icmpBranch smac msg request.frame =
        some ⟨p, sizeofEtherHdr + sizeofIpv4Hdr + sizeofIcmpHdr⟩ ∧
      IpHeaders p.mem smac (macAt request.frame.data 6) (Ipv4Hdr.dstAddr request.frame.iphdr)
        (Ipv4Hdr.srcAddr request.frame.iphdr) IPPROTO_ICMP 28 ∧
      (∀ i, 34 ≤ i → i < icmphdrOff → p.mem i = msg i) ∧
      (icmphdrOff, 1) ∈ p.written := by
  obtain ⟨p, hp, hheaders, hkept, -, hwritten⟩ := @ustackEncodeIcmpPkt_eq smac
    (macAt request.frame.data 6) (Ipv4Hdr.dstAddr request.frame.iphdr)
    (Ipv4Hdr.srcAddr request.frame.iphdr) (IcmpHdr.icmpIdent request.frame.l4hdr)
    (IcmpHdr.icmpSeqNb request.frame.l4hdr) (.alloc msg)
  refine ⟨p, ?_, hheaders, hkept, hwritten⟩
  rw [icmpBranch, if_pos ⟨request.etherType, request.nextProtoId, request.icmpType⟩]
  simp only [ngSendIcmp, hp, Option.bind_eq_bind, Option.bind_some, Option.pure_def]

/-- The frame is an echo reply just if the buffer held the ICMP header of one
    already. -/
theorem isEchoReplyTo_iff (request : EchoRequest) {reply : Reply}
    (h : icmpBranch smac msg request.frame = some reply) :
    IsEchoReplyTo reply.mbuf request.frame ↔
      IsEchoHdr (msg.offset 34) sizeofIcmpHdr (IcmpHdr.icmpIdent request.frame.l4hdr)
        (IcmpHdr.icmpSeqNb request.frame.l4hdr) := by
  obtain ⟨p, hp, hheaders, hkept, -⟩ := icmpBranch_eq smac msg request
  obtain rfl := Option.some.inj (hp.symm.trans h)
  have htotal : (ntohs (Ipv4Hdr.totalLength (p.mem.offset 14))).toNat = 28 := by
    rw [hheaders.totalLength, ntohs_ntohs]
    rfl
  have hagrees : Ptr.Agrees 8 (p.mem.offset 34) (msg.offset 34) := fun i hi =>
    hkept (34 + i) (Nat.le_add_right ..) (Nat.lt_trans (Nat.add_lt_add_left hi 34) (by decide))
  have hlen : (ntohs (Ipv4Hdr.totalLength (p.mem.offset 14))).toNat - sizeofIpv4Hdr = 8 := by
    rw [htotal]
    rfl
  have hl4 : (Reply.mbuf ⟨p, sizeofEtherHdr + sizeofIpv4Hdr + sizeofIcmpHdr⟩).l4hdr =
      p.mem.offset 34 := Ptr.offset_offset ..
  constructor
  · intro hreply
    have hdr := hreply.icmp
    rw [hl4] at hdr
    exact (isEchoHdr_congr hagrees).mp (hlen ▸ hdr)
  · intro hdr
    refine ⟨hheaders.etherType, hheaders.versionIhl, hheaders.nextProtoId, ?_,
      hheaders.dAddr.trans (toList_macAt ..), hheaders.dstAddr, hheaders.srcAddr, hheaders.cksum,
      ?_⟩
    · show sizeofEtherHdr + sizeofIpv4Hdr + sizeofIcmpHdr =
        sizeofEtherHdr + (ntohs (Ipv4Hdr.totalLength (p.mem.offset 14))).toNat
      rw [htotal]
      rfl
    · rw [hl4]
      exact hlen.symm ▸ (isEchoHdr_congr hagrees).mpr hdr

/-- But then it was written behind the frame. -/
theorem not_writtenWithin (request : EchoRequest) {reply : Reply}
    (h : icmpBranch smac msg request.frame = some reply) :
    ¬ reply.buffer.WrittenWithin reply.dataLen := by
  obtain ⟨p, hp, -, -, hwritten⟩ := icmpBranch_eq smac msg request
  obtain rfl := Option.some.inj (hp.symm.trans h)
  intro hwithin
  have hlast : icmphdrOff + 1 ≤ sizeofEtherHdr + sizeofIpv4Hdr + sizeofIcmpHdr :=
    hwithin _ hwritten
  exact absurd hlast (by decide)

/-- No echo request is answered within the frame. -/
theorem not_answered (smac : Mac) (msg : Ptr) (request : EchoRequest) :
    ¬ Answered smac msg request := by
  rintro ⟨reply, hreply, -, hwithin⟩
  exact not_writtenWithin request hreply hwithin

/-- An echo request of 10.0.0.2 to 10.0.0.1, its identifier 0x1234 and its
    sequence number 1. -/
def pingFrame : List Byte :=
  [2, 0, 0, 0, 0, 1, 2, 0, 0, 0, 0, 2, 0x08, 0x00,
   0x45, 0, 0, 28, 0, 0, 0, 0, 64, 1, 0x66, 0xdf, 10, 0, 0, 2, 10, 0, 0, 1,
   8, 0, 0xe5, 0xca, 0x12, 0x34, 0, 1]

def ping : EchoRequest where
  frame := .ofFrame pingFrame
  etherType := by decide
  versionIhl := by decide
  nextProtoId := by decide
  icmpType := by decide
  whole := by decide

/-- The frame that is sent for it from a cleared buffer has no identifier. -/
theorem ping_not_answered :
    ¬ Answered (macAt (Ptr.ofList pingFrame) 0) (fun _ => 0) ping := by
  rintro ⟨reply, hreply, hecho, -⟩
  have hdr := ((isEchoReplyTo_iff ping hreply).mp hecho).icmpIdent
  exact absurd hdr (by decide)

end LinuxLearning.Replies
