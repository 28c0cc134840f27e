/-
  LinuxLearning.Ustack.TcpOutput

  The frame `ng_tcp_out` builds from a fragment: `ng_encode_tcp_apppkt` and
  `ng_tcp_pkt`.  A peer is taken to build its segments the same way, which
  gives the concrete runs of the later modules their packets.
-/

import LinuxLearning.Ustack.System

namespace LinuxLearning.Ustack

open Lib

/-- `total_len` of `ng_encode_tcp_apppkt` and `ng_tcp_pkt`. -/
def tcpTotalLen (fragment : NgTcpFragment) : BitVec 32 :=
  BitVec.ofInt 32 (fragment.length + sizeofEtherHdr + sizeofIpv4Hdr + sizeofTcpHdr +
    fragment.optlen.toInt * 4)

/-- The Ethernet and IP headers `ng_encode_tcp_apppkt` writes. -/
def encodeTcpIpHdr (msg : Ptr) (sip dip : BitVec 32) (srcmac dstmac : List Byte)
    (fragment : NgTcpFragment) : Ptr :=
  let eth := ((msg.storeBytes 6 (srcmac.take etherAddrLen)).storeBytes 0
    (dstmac.take etherAddrLen)).store16 12 (htons RTE_ETHER_TYPE_IPV4)
  let totalLength := htons ((tcpTotalLen fragment - BitVec.ofNat 32 sizeofEtherHdr).setWidth 16)
  let ip := (((((((((eth.store8 14 0x45).store8 15 0).store16 16 totalLength).store16 18 0).store16
    20 0).store8 22 64).store8 23 IPPROTO_TCP).store32 26 sip).store32 30 dip).store16 24 0
  ip.store16 24 (rteIpv4Cksum (ip.offset sizeofEtherHdr))

/-- `ng_encode_tcp_apppkt`, over the memory `msg` of the new buffer.  The
    payload is written behind the header without options: a fragment with
    data has `optlen` zero. -/
def ngEncodeTcpApppkt (msg : Ptr) (sip dip : BitVec 32) (srcmac dstmac : List Byte)
    (fragment : NgTcpFragment) : Ptr :=
  let p := encodeTcpIpHdr msg sip dip srcmac dstmac fragment
  let p := ((((((((p.store16 34 fragment.sport).store16 36 fragment.dport).store32 38
    (ntohl fragment.seqnum)).store32 42 (ntohl fragment.acknum)).store8 46
    fragment.hdrlenOff).store16 48 fragment.windows).store16 52 fragment.tcpUrp).store8 47
    fragment.tcpFlags)
  let p := match fragment.data with
    | none => p
    | some data => p.storeBytes 54 (data.take fragment.length)
  let p := p.store16 50 0
  p.store16 50 (rteIpv4UdptcpCksum (p.offset 14) (p.offset 34))

/-- `ng_tcp_pkt`, in the buffer that held `msg` before; `data_len` has 16
    bits. -/
def ngTcpPkt (msg : Ptr) (sip dip : BitVec 32) (srcmac dstmac : List Byte)
    (fragment : NgTcpFragment) : Mbuf where
  data := ngEncodeTcpApppkt msg sip dip srcmac dstmac fragment
  dataLen := (tcpTotalLen fragment).toNat % 2 ^ 16

/-! ## A peer -/

/-- Every allocation succeeds, and new memory is clear. -/
def Env.plain : Env where
  malloc := fun _ => true
  rand := 1000
  staleRcvNxt := 0
  staleOptlen := 0
  staleTcpUrp := 0
  staleHeap := fun _ => 0

/-- A segment from port 40000 of 10.0.0.2 to port 9999 of 10.0.0.1 whose
    header claims a length of `hdrlen` words. -/
def peerSegmentOff (hdrlen : BitVec 4) (flags : Byte) (seqnum acknum : BitVec 32)
    (data : List Byte) : Mbuf :=
  ngTcpPkt (fun _ => 0) 0x0200000A 0x0100000A [2, 0, 0, 0, 0, 2] [2, 0, 0, 0, 0, 1]
    { NgTcpFragment.zero with
      sport := htons 40000
      dport := htons 9999
      seqnum := seqnum
      acknum := acknum
      hdrlenOff := hdrlen ++ 0#4
      tcpFlags := flags
      windows := TCP_INITIAL_WINDOW
      data := some data
      length := data.length }

/-- The same with an honest header. -/
def peerSegment (flags : Byte) (seqnum acknum : BitVec 32) (data : List Byte) : Mbuf :=
  peerSegmentOff 5 flags seqnum acknum data

/-- A server socket is opened on port 9999. -/
def openServer : List Event :=
  [.nsocket .plain SOCK_STREAM, .nbind 3 0x0100000A (htons 9999), .nlisten 3]

/-- The peer connects, with 500 as its first number; its second segment
    acknowledges the SYN-ACK, whose number is 1000. -/
def connectPeer : List Event :=
  [.packet .plain (peerSegment RTE_TCP_SYN_FLAG 500 0 []),
   .packet .plain (peerSegment RTE_TCP_ACK_FLAG 501 1001 [])]

end LinuxLearning.Ustack
