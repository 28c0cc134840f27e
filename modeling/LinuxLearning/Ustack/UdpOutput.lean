/-
  LinuxLearning.Ustack.UdpOutput

  The frame `udp_out` builds from an offload: `ng_encode_udp_apppkt` and
  `ng_udp_pkt`.  A peer is taken to build its datagrams the same way.
-/

import LinuxLearning.Ustack.TcpOutput
import LinuxLearning.Ustack.UdpSockets

namespace LinuxLearning.Ustack

open Lib

/-- What a copy from an offload's data pointer sees: the data, and the heap
    behind the allocation. -/
def Offload.dataPtr (ol : Offload) (heap : Ptr) : Ptr := fun i =>
  ol.data.getD i (heap (i - ol.data.length))

/-- The Ethernet and IP headers `ng_encode_udp_apppkt` writes. -/
def encodeUdpIpHdr (msg : Ptr) (sip dip : BitVec 32) (srcmac dstmac : List Byte)
    (totalLen : BitVec 16) : Ptr :=
  let eth := ((msg.storeBytes 6 (srcmac.take etherAddrLen)).storeBytes 0
    (dstmac.take etherAddrLen)).store16 12 (htons RTE_ETHER_TYPE_IPV4)
  let totalLength := htons (totalLen - BitVec.ofNat 16 sizeofEtherHdr)
  let ip := (((((((((eth.store8 14 0x45).store8 15 0).store16 16 totalLength).store16 18 0).store16
    20 0).store8 22 64).store8 23 IPPROTO_UDP).store32 26 sip).store32 30 dip).store16 24 0
  ip.store16 24 (rteIpv4Cksum (ip.offset sizeofEtherHdr))

/-- `udplen` of `ng_encode_udp_apppkt`: the UDP header counted in. -/
def udplenOf (totalLen : BitVec 16) : BitVec 16 :=
  totalLen - BitVec.ofNat 16 (sizeofEtherHdr + sizeofIpv4Hdr)

/-- `ng_encode_udp_apppkt`, over the memory `msg` of the new buffer.  `udplen`
    bytes of `data` are copied, although the UDP header is not among them. -/
def ngEncodeUdpApppkt (msg : Ptr) (sip dip : BitVec 32) (sport dport : BitVec 16)
    (srcmac dstmac : List Byte) (data : Ptr) (totalLen : BitVec 16) : Ptr :=
  let p := encodeUdpIpHdr msg sip dip srcmac dstmac totalLen
  let udplen := udplenOf totalLen
  let p := ((p.store16 34 sport).store16 36 dport).store16 38 (htons udplen)
  let p := p.storeBytes 42 (data.bytes 0 udplen.toNat)
  let p := p.store16 40 0
  p.store16 40 (rteIpv4UdptcpCksum (p.offset 14) (p.offset 34))

/-- `total_len` of `ng_udp_pkt`. -/
def udpTotalLen (length : BitVec 16) : BitVec 32 := length.setWidth 32 + 42

/-- `ng_udp_pkt` for an offload, in the buffer that held `msg` before, with
    `heap` behind the offload's data; `data_len` has 16 bits. -/
def ngUdpPkt (msg heap : Ptr) (srcmac dstmac : List Byte) (ol : Offload) : Mbuf where
  data := ngEncodeUdpApppkt msg ol.sip ol.dip ol.sport ol.dport srcmac dstmac (ol.dataPtr heap)
    ((udpTotalLen ol.length).setWidth 16)
  dataLen := (udpTotalLen ol.length).toNat % 2 ^ 16

/-- A datagram from port 40000 of 10.0.0.2 to port 8889 of the address `dip`. -/
def peerDatagram (dip : BitVec 32) (data : List Byte) : Mbuf :=
  ngUdpPkt (fun _ => 0) (fun _ => 0) [2, 0, 0, 0, 0, 2] [2, 0, 0, 0, 0, 1]
    { sip := 0x0200000A
      dip := dip
      sport := htons 40000
      dport := htons 8889
      data := data
      length := BitVec.ofNat 16 data.length }

end LinuxLearning.Ustack
