/-
  LinuxLearning.Ustack.Memory

  Memory as the stack reads it: byte loads through a pointer, the packed
  protocol headers at their offsets, byte-order conversion, packet buffers,
  and the checksum routines of `rte_ip.h`.

  Multi-byte fields are loaded the way the target loads them, least
  significant byte first; a field in network order therefore comes out byte
  swapped until `ntohs`/`ntohl` is applied, exactly as in the source.
-/

import Mathlib.Algebra.GroupWithZero.Nat
import Mathlib.Data.List.Basic
import Mathlib.Data.List.GetD

namespace LinuxLearning.Ustack

abbrev Byte := BitVec 8

/-- Memory seen from a pointer: `p i` is the byte `i` places behind it. -/
abbrev Ptr := Nat → Byte

namespace Ptr

/-- The pointer `n` bytes further on. -/
def offset (p : Ptr) (n : Nat) : Ptr := fun i => p (n + i)

/-- A 16-bit load. -/
def load16 (p : Ptr) (off : Nat) : BitVec 16 := p (off + 1) ++ p off

/-- A 32-bit load. -/
def load32 (p : Ptr) (off : Nat) : BitVec 32 := p.load16 (off + 2) ++ p.load16 off

/-- A 16-bit store. -/
def store16 (p : Ptr) (off : Nat) (v : BitVec 16) : Ptr := fun i =>
  if i = off then v.extractLsb' 0 8
  else if i = off + 1 then v.extractLsb' 8 8
  else p i

/-- An 8-bit store. -/
def store8 (p : Ptr) (off : Nat) (v : Byte) : Ptr := fun i => if i = off then v else p i

/-- A 32-bit store. -/
def store32 (p : Ptr) (off : Nat) (v : BitVec 32) : Ptr :=
  (p.store16 off (v.extractLsb' 0 16)).store16 (off + 2) (v.extractLsb' 16 16)

/-- A copy of `bs` to the bytes from `off` on. -/
def storeBytes (p : Ptr) (off : Nat) (bs : List Byte) : Ptr := fun i =>
  if off ≤ i ∧ i < off + bs.length then bs.getD (i - off) 0 else p i

/-- The `n` bytes from `off` on, as `rte_memcpy` would copy them. -/
def bytes (p : Ptr) (off n : Nat) : List Byte := (List.range n).map fun i => p (off + i)

/-- Memory holding `bs`, zero behind it. -/
def ofList (bs : List Byte) : Ptr := fun i => bs.getD i 0

@[simp] theorem length_bytes (p : Ptr) (off n : Nat) : (p.bytes off n).length = n := by
  simp [bytes]

@[simp] theorem load16_store16_of_disjoint {p : Ptr} {off off' : Nat} {v : BitVec 16}
    (h : off' + 1 < off ∨ off + 1 < off') :
    (p.store16 off v).load16 off' = p.load16 off' := by
  have h₀ : off' ≠ off ∧ off' ≠ off + 1 := by omega
  have h₁ : off' + 1 ≠ off ∧ off' + 1 ≠ off + 1 := by omega
  simp only [load16, store16, h₀, h₁, if_false]

@[simp] theorem load32_store16_of_disjoint {p : Ptr} {off off' : Nat} {v : BitVec 16}
    (h : off' + 3 < off ∨ off + 1 < off') :
    (p.store16 off v).load32 off' = p.load32 off' := by
  rw [load32, load16_store16_of_disjoint (by omega), load16_store16_of_disjoint (by omega),
    load32]

@[simp] theorem store16_apply_of_ne {p : Ptr} {off i : Nat} {v : BitVec 16}
    (h₀ : i ≠ off) (h₁ : i ≠ off + 1) : (p.store16 off v) i = p i := by
  simp only [store16, if_neg h₀, if_neg h₁]

@[simp] theorem store8_apply_self (p : Ptr) (off : Nat) (v : Byte) : (p.store8 off v) off = v := by
  rw [store8, if_pos rfl]

@[simp] theorem store8_apply_of_ne {p : Ptr} {off i : Nat} {v : Byte} (h : i ≠ off) :
    (p.store8 off v) i = p i := by
  rw [store8, if_neg h]

@[simp] theorem store32_apply_of_ne {p : Ptr} {off i : Nat} {v : BitVec 32}
    (h : i < off ∨ off + 4 ≤ i) : (p.store32 off v) i = p i := by
  rw [store32, store16_apply_of_ne (by omega) (by omega), store16_apply_of_ne (by omega) (by omega)]

@[simp] theorem load16_store16 (p : Ptr) (off : Nat) (v : BitVec 16) :
    (p.store16 off v).load16 off = v := by
  have hne : off + 1 ≠ off := by omega
  simp only [load16, store16, if_true, if_neg hne]
  exact @BitVec.extractLsb'_append_extractLsb' 8 8 v

@[simp] theorem load32_store32 (p : Ptr) (off : Nat) (v : BitVec 32) :
    (p.store32 off v).load32 off = v := by
  rw [load32, store32, load16_store16, load16_store16_of_disjoint (by omega), load16_store16]
  exact @BitVec.extractLsb'_append_extractLsb' 16 16 v

@[simp] theorem offset_apply (p : Ptr) (n i : Nat) : p.offset n i = p (n + i) := rfl

@[simp] theorem load16_offset (p : Ptr) (n off : Nat) :
    (p.offset n).load16 off = p.load16 (n + off) := rfl

@[simp] theorem load32_offset (p : Ptr) (n off : Nat) :
    (p.offset n).load32 off = p.load32 (n + off) := rfl

theorem offset_store16 (p : Ptr) (n off : Nat) (v : BitVec 16) :
    (p.store16 (n + off) v).offset n = (p.offset n).store16 off v := by
  funext i
  simp only [offset, store16, Nat.add_assoc, Nat.add_right_inj]

theorem bytes_offset (p : Ptr) (n off len : Nat) :
    (p.offset n).bytes off len = p.bytes (n + off) len := by
  simp only [bytes, offset, Nat.add_assoc]

theorem offset_offset (p : Ptr) (n k : Nat) : (p.offset n).offset k = p.offset (n + k) := by
  funext i
  simp only [offset, Nat.add_assoc]

theorem load16_congr {p q : Ptr} {off : Nat} (h : ∀ i, off ≤ i → i < off + 2 → p i = q i) :
    p.load16 off = q.load16 off := by
  rw [load16, load16, h off (by omega) (by omega), h (off + 1) (by omega) (by omega)]

theorem load32_congr {p q : Ptr} {off : Nat} (h : ∀ i, off ≤ i → i < off + 4 → p i = q i) :
    p.load32 off = q.load32 off := by
  have hlow : p.load16 off = q.load16 off := load16_congr fun i hi _ => h i hi (by omega)
  have hhigh : p.load16 (off + 2) = q.load16 (off + 2) :=
    load16_congr fun i hi _ => h i (by omega) (by omega)
  rw [load32, load32, hlow, hhigh]

@[simp] theorem load16_store8_of_disjoint {p : Ptr} {off off' : Nat} {v : Byte}
    (h : off' + 1 < off ∨ off < off') : (p.store8 off v).load16 off' = p.load16 off' :=
  load16_congr fun i hi hi' => store8_apply_of_ne (by omega)

@[simp] theorem load32_store8_of_disjoint {p : Ptr} {off off' : Nat} {v : Byte}
    (h : off' + 3 < off ∨ off < off') : (p.store8 off v).load32 off' = p.load32 off' :=
  load32_congr fun i hi hi' => store8_apply_of_ne (by omega)

@[simp] theorem load16_store32_of_disjoint {p : Ptr} {off off' : Nat} {v : BitVec 32}
    (h : off' + 1 < off ∨ off + 3 < off') : (p.store32 off v).load16 off' = p.load16 off' :=
  load16_congr fun i hi hi' => store32_apply_of_ne (by omega)

@[simp] theorem load32_store32_of_disjoint {p : Ptr} {off off' : Nat} {v : BitVec 32}
    (h : off' + 3 < off ∨ off + 3 < off') : (p.store32 off v).load32 off' = p.load32 off' :=
  load32_congr fun i hi hi' => store32_apply_of_ne (by omega)

theorem storeBytes_apply_of_le {p : Ptr} {off i : Nat} {bs : List Byte}
    (h : off + bs.length ≤ i) : p.storeBytes off bs i = p i := by
  have hnot : ¬ (off ≤ i ∧ i < off + bs.length) := by omega
  simp only [storeBytes, if_neg hnot]

@[simp] theorem storeBytes_apply_of_lt {p : Ptr} {off i : Nat} {bs : List Byte} (h : i < off) :
    p.storeBytes off bs i = p i := by
  have hnot : ¬ (off ≤ i ∧ i < off + bs.length) := by omega
  simp only [storeBytes, if_neg hnot]

@[simp] theorem load16_storeBytes_of_lt {p : Ptr} {off off' : Nat} {bs : List Byte}
    (h : off' + 1 < off) : (p.storeBytes off bs).load16 off' = p.load16 off' :=
  load16_congr fun i hi hi' => storeBytes_apply_of_lt (by omega)

@[simp] theorem load32_storeBytes_of_lt {p : Ptr} {off off' : Nat} {bs : List Byte}
    (h : off' + 3 < off) : (p.storeBytes off bs).load32 off' = p.load32 off' :=
  load32_congr fun i hi hi' => storeBytes_apply_of_lt (by omega)

@[simp] theorem storeBytes_nil (p : Ptr) (off : Nat) : p.storeBytes off [] = p := by
  funext i
  rcases Nat.lt_or_ge i off with h | h
  · exact storeBytes_apply_of_lt h
  · exact storeBytes_apply_of_le h

/-- A copy in two parts. -/
theorem bytes_add (p : Ptr) (off m n : Nat) :
    p.bytes off (m + n) = p.bytes off m ++ p.bytes (off + m) n := by
  simp only [bytes, List.range_add, List.map_append, List.map_map, Function.comp_def,
    Nat.add_assoc]

theorem bytes_cons (p : Ptr) (off n : Nat) :
    p.bytes off (n + 1) = p off :: p.bytes (off + 1) n := by
  rw [Nat.add_comm n 1, bytes_add]
  rfl

theorem bytes_congr {p q : Ptr} {off n : Nat} (h : ∀ i, off ≤ i → i < off + n → p i = q i) :
    p.bytes off n = q.bytes off n := by
  apply List.map_congr_left
  intro i hi
  have := List.mem_range.mp hi
  exact h _ (by omega) (by omega)

theorem bytes_store16_of_lt {p : Ptr} {off off' n : Nat} {v : BitVec 16} (h : off + 1 < off') :
    (p.store16 off v).bytes off' n = p.bytes off' n :=
  bytes_congr fun i hi _ => store16_apply_of_ne (by omega) (by omega)

theorem bytes_storeBytes (p : Ptr) (off : Nat) (bs : List Byte) :
    (p.storeBytes off bs).bytes off bs.length = bs := by
  apply List.ext_getElem (length_bytes ..)
  intro i hi hi'
  have hin : off ≤ off + i ∧ off + i < off + bs.length := by omega
  simp only [bytes, List.getElem_map, List.getElem_range, storeBytes, if_pos hin,
    Nat.add_sub_cancel_left]
  exact List.getD_eq_getElem _ _ hi'

theorem bytes_storeBytes_of_length {p : Ptr} {off n : Nat} {bs : List Byte} (h : bs.length = n) :
    (p.storeBytes off bs).bytes off n = bs := by
  subst h
  exact bytes_storeBytes ..

/-! Stores leave the bytes alone that lie before or behind them. -/
section Disjoint
variable {p : Ptr} {off off' n : Nat} {bs : List Byte}

theorem storeBytes_apply_of_disjoint {i : Nat} (h : i < off ∨ off + bs.length ≤ i) :
    p.storeBytes off bs i = p i :=
  h.elim storeBytes_apply_of_lt storeBytes_apply_of_le

theorem load16_storeBytes_of_disjoint (h : off' + 2 ≤ off ∨ off + bs.length ≤ off') :
    (p.storeBytes off bs).load16 off' = p.load16 off' :=
  load16_congr fun i hi hi' => storeBytes_apply_of_disjoint (by omega)

theorem bytes_storeBytes_of_disjoint (h : off' + n ≤ off ∨ off + bs.length ≤ off') :
    (p.storeBytes off bs).bytes off' n = p.bytes off' n :=
  bytes_congr fun i hi hi' => storeBytes_apply_of_disjoint (by omega)

theorem bytes_store8_of_disjoint {v : Byte} (h : off' + n ≤ off ∨ off + 1 ≤ off') :
    (p.store8 off v).bytes off' n = p.bytes off' n :=
  bytes_congr fun i hi hi' => store8_apply_of_ne (by omega)

theorem bytes_store16_of_disjoint {v : BitVec 16} (h : off' + n ≤ off ∨ off + 2 ≤ off') :
    (p.store16 off v).bytes off' n = p.bytes off' n :=
  bytes_congr fun i hi hi' => store16_apply_of_ne (by omega) (by omega)

theorem bytes_store32_of_disjoint {v : BitVec 32} (h : off' + n ≤ off ∨ off + 4 ≤ off') :
    (p.store32 off v).bytes off' n = p.bytes off' n :=
  bytes_congr fun i hi hi' => store32_apply_of_ne (by omega)

end Disjoint

end Ptr

/-! ## Byte order -/

/-- `ntohs`, and `htons` with it: swap the two bytes. -/
def ntohs (x : BitVec 16) : BitVec 16 := x.extractLsb' 0 8 ++ x.extractLsb' 8 8

abbrev htons : BitVec 16 → BitVec 16 := ntohs

/-- `ntohl`, and `htonl` with it: reverse the four bytes. -/
def ntohl (x : BitVec 32) : BitVec 32 :=
  ntohs (x.extractLsb' 0 16) ++ ntohs (x.extractLsb' 16 16)

@[simp] theorem ntohs_ntohs (v : BitVec 16) : ntohs (ntohs v) = v := by
  simp only [ntohs, BitVec.extractLsb'_append_eq_left, BitVec.extractLsb'_append_eq_right]
  exact @BitVec.extractLsb'_append_extractLsb' 8 8 v

@[simp] theorem ntohl_ntohl (v : BitVec 32) : ntohl (ntohl v) = v := by
  simp only [ntohl, BitVec.extractLsb'_append_eq_left, BitVec.extractLsb'_append_eq_right,
    ntohs_ntohs]
  exact @BitVec.extractLsb'_append_extractLsb' 16 16 v

/-! ## Protocol headers -/

def RTE_ETHER_TYPE_IPV4 : BitVec 16 := 0x0800
def IPPROTO_TCP : Byte := 6
def IPPROTO_UDP : Byte := 17

/-- `sizeof(struct rte_ether_hdr)`. -/
def sizeofEtherHdr : Nat := 14

/-- `sizeof(struct rte_ipv4_hdr)`. -/
def sizeofIpv4Hdr : Nat := 20

/-- `sizeof(struct rte_tcp_hdr)`. -/
def sizeofTcpHdr : Nat := 20

/-- `sizeof(struct rte_udp_hdr)`. -/
def sizeofUdpHdr : Nat := 8

/-- `RTE_ETHER_ADDR_LEN`. -/
def etherAddrLen : Nat := 6

/-! Fields of `struct rte_ether_hdr`. -/
namespace EtherHdr
def sAddr (p : Ptr) : List Byte := p.bytes 6 etherAddrLen
def etherType (p : Ptr) : BitVec 16 := p.load16 12
end EtherHdr

/-! Fields of `struct rte_ipv4_hdr`. -/
namespace Ipv4Hdr
def versionIhl (p : Ptr) : Byte := p 0
def totalLength (p : Ptr) : BitVec 16 := p.load16 2
def nextProtoId (p : Ptr) : Byte := p 9
def srcAddr (p : Ptr) : BitVec 32 := p.load32 12
def dstAddr (p : Ptr) : BitVec 32 := p.load32 16
end Ipv4Hdr

/-! Fields of `struct rte_tcp_hdr`. -/
namespace TcpHdr
def srcPort (p : Ptr) : BitVec 16 := p.load16 0
def dstPort (p : Ptr) : BitVec 16 := p.load16 2
def sentSeq (p : Ptr) : BitVec 32 := p.load32 4
def recvAck (p : Ptr) : BitVec 32 := p.load32 8
def dataOff (p : Ptr) : Byte := p 12
def tcpFlags (p : Ptr) : Byte := p 13
def cksum (p : Ptr) : BitVec 16 := p.load16 16
/-- `tcphdr->cksum = v`. -/
def setCksum (p : Ptr) (v : BitVec 16) : Ptr := p.store16 16 v
end TcpHdr

/-! Fields of `struct rte_udp_hdr`. -/
namespace UdpHdr
def srcPort (p : Ptr) : BitVec 16 := p.load16 0
def dstPort (p : Ptr) : BitVec 16 := p.load16 2
def dgramLen (p : Ptr) : BitVec 16 := p.load16 4
end UdpHdr

def RTE_TCP_FIN_FLAG : Byte := 0x01
def RTE_TCP_SYN_FLAG : Byte := 0x02
def RTE_TCP_RST_FLAG : Byte := 0x04
def RTE_TCP_PSH_FLAG : Byte := 0x08
def RTE_TCP_ACK_FLAG : Byte := 0x10

/-- `flags & flag`, as a condition. -/
def hasFlag (flags flag : Byte) : Bool := flags &&& flag != 0

/-! Zeroing the checksum leaves every other field alone. -/
section SetCksum
variable (p : Ptr) (v : BitVec 16)

@[simp] theorem srcPort_setCksum : TcpHdr.srcPort (TcpHdr.setCksum p v) = TcpHdr.srcPort p :=
  Ptr.load16_store16_of_disjoint (by omega)

@[simp] theorem dstPort_setCksum : TcpHdr.dstPort (TcpHdr.setCksum p v) = TcpHdr.dstPort p :=
  Ptr.load16_store16_of_disjoint (by omega)

@[simp] theorem sentSeq_setCksum : TcpHdr.sentSeq (TcpHdr.setCksum p v) = TcpHdr.sentSeq p :=
  Ptr.load32_store16_of_disjoint (by omega)

@[simp] theorem recvAck_setCksum : TcpHdr.recvAck (TcpHdr.setCksum p v) = TcpHdr.recvAck p :=
  Ptr.load32_store16_of_disjoint (by omega)

@[simp] theorem dataOff_setCksum : TcpHdr.dataOff (TcpHdr.setCksum p v) = TcpHdr.dataOff p := by
  rw [TcpHdr.dataOff, TcpHdr.setCksum, Ptr.store16_apply_of_ne (by omega) (by omega),
    TcpHdr.dataOff]

@[simp] theorem tcpFlags_setCksum : TcpHdr.tcpFlags (TcpHdr.setCksum p v) = TcpHdr.tcpFlags p := by
  rw [TcpHdr.tcpFlags, TcpHdr.setCksum, Ptr.store16_apply_of_ne (by omega) (by omega),
    TcpHdr.tcpFlags]

end SetCksum

/-! ## Packet buffers -/

/-- A received packet buffer.  `data` is the memory from
    `rte_pktmbuf_mtod` on, of which the first `dataLen` bytes are the frame;
    what lies behind is whatever the buffer held before. -/
structure Mbuf where
  data : Ptr
  dataLen : Nat

/-- The buffer holding exactly the frame `bs`. -/
def Mbuf.ofFrame (bs : List Byte) : Mbuf where
  data := Ptr.ofList bs
  dataLen := bs.length

/-- `rte_pktmbuf_mtod_offset(m, struct rte_ipv4_hdr *, sizeof(struct rte_ether_hdr))`. -/
def Mbuf.iphdr (m : Mbuf) : Ptr := m.data.offset sizeofEtherHdr

/-- `iphdr + 1`, where the source expects the TCP or UDP header. -/
def Mbuf.l4hdr (m : Mbuf) : Ptr := m.iphdr.offset sizeofIpv4Hdr

/-! ## Checksums (`rte_ip.h`) -/

/-- `__rte_raw_cksum`: add the 16-bit words of the `len` bytes at `off` to
    `sum`, an odd last byte counting as a word.  The source's first loop
    takes four words a round; the additions and their order are these. -/
def rteRawCksumSum (buf : Ptr) : Nat → Nat → BitVec 32 → BitVec 32
  | off, len + 2, sum => rteRawCksumSum buf (off + 2) len (sum + (buf.load16 off).setWidth 32)
  | off, 1, sum => sum + (buf off).setWidth 32
  | _, 0, sum => sum

/-- One folding step: high half plus low half. -/
def foldCarry (sum : BitVec 32) : BitVec 32 :=
  ((sum &&& 0xffff0000) >>> 16) + (sum &&& 0xffff)

/-- `__rte_raw_cksum_reduce`. -/
def rteRawCksumReduce (sum : BitVec 32) : BitVec 16 :=
  (foldCarry (foldCarry sum)).setWidth 16

/-- `rte_raw_cksum`. -/
def rteRawCksum (buf : Ptr) (len : Nat) : BitVec 16 :=
  rteRawCksumReduce (rteRawCksumSum buf 0 len 0)

/-- `rte_ipv4_cksum`. -/
def rteIpv4Cksum (ip : Ptr) : BitVec 16 :=
  let cksum := rteRawCksum ip sizeofIpv4Hdr
  if cksum = 0xffff then cksum else ~~~cksum

/-- The pseudo header of `rte_ipv4_phdr_cksum` without offload flags. -/
def psdHdr (ip : Ptr) : Ptr :=
  let len := htons (ntohs (Ipv4Hdr.totalLength ip) - BitVec.ofNat 16 sizeofIpv4Hdr)
  .ofList (ip.bytes 12 8 ++
    [0, Ipv4Hdr.nextProtoId ip, len.extractLsb' 0 8, len.extractLsb' 8 8])

/-- `rte_ipv4_phdr_cksum(ipv4_hdr, 0)`. -/
def rteIpv4PhdrCksum (ip : Ptr) : BitVec 16 := rteRawCksum (psdHdr ip) 12

/-- `rte_ipv4_udptcp_cksum`. -/
def rteIpv4UdptcpCksum (ip l4 : Ptr) : BitVec 16 :=
  let l3Len := (ntohs (Ipv4Hdr.totalLength ip)).toNat
  if l3Len < sizeofIpv4Hdr then 0
  else
    let l4Len := l3Len - sizeofIpv4Hdr
    let cksum := (rteRawCksum l4 l4Len).setWidth 32 + (rteIpv4PhdrCksum ip).setWidth 32
    let cksum := ~~~(foldCarry cksum) &&& 0xffff
    let cksum := if cksum = 0 then 0xffff else cksum
    cksum.setWidth 16

end LinuxLearning.Ustack
