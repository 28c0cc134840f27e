/-
  LinuxLearning.Replies.Frame

  The frames that `ustack.c` and `netarch.c` answer with.  A buffer keeps
  account of the stores to it, so that what a frame is and where it was written
  can be told apart.  The Ethernet and IP headers are the same for UDP, TCP and
  ICMP.
-/

import LinuxLearning.Ustack.Checksum
import LinuxLearning.Ustack.FrameReads

namespace LinuxLearning.Replies

open Ustack

/-! ## Buffers -/

/-- The data of a packet buffer: what it held before, what it holds, and the
    offset and number of the bytes of each store, the latest first. -/
structure Buffer where
  before : Ptr
  mem : Ptr
  written : List (Nat × Nat)
  /-- A byte that was not written is what it was. -/
  frame : ∀ i, (∀ r ∈ written, ¬ (r.1 ≤ i ∧ i < r.1 + r.2)) → mem i = before i

namespace Buffer

/-- `rte_pktmbuf_alloc`; `msg` is what the memory holds. -/
def alloc (msg : Ptr) : Buffer where
  before := msg
  mem := msg
  written := []
  frame _ _ := rfl

/-- A store of `size` bytes at `off` that leaves `mem` behind. -/
def store (b : Buffer) (off size : Nat) (mem : Ptr)
    (h : ∀ i, ¬ (off ≤ i ∧ i < off + size) → mem i = b.mem i) : Buffer where
  before := b.before
  mem := mem
  written := (off, size) :: b.written
  frame i hi := by
    rw [List.forall_mem_cons] at hi
    rw [h i hi.1, b.frame i hi.2]

def store8 (b : Buffer) (off : Nat) (v : Byte) : Buffer :=
  b.store off 1 (b.mem.store8 off v) fun _ hi => Ptr.store8_apply_of_ne (by omega)

def store16 (b : Buffer) (off : Nat) (v : BitVec 16) : Buffer :=
  b.store off 2 (b.mem.store16 off v) fun _ hi => Ptr.store16_apply_of_ne (by omega) (by omega)

def store32 (b : Buffer) (off : Nat) (v : BitVec 32) : Buffer :=
  b.store off 4 (b.mem.store32 off v) fun _ hi => Ptr.store32_apply_of_ne (by omega)

def storeBytes (b : Buffer) (off : Nat) (bs : List Byte) : Buffer :=
  b.store off bs.length (b.mem.storeBytes off bs) fun i hi => by
    rcases Nat.lt_or_ge i off with hlt | hge
    · exact Ptr.storeBytes_apply_of_lt hlt
    · exact Ptr.storeBytes_apply_of_le (by omega)

/-- All stores were to the first `n` bytes. -/
def WrittenWithin (b : Buffer) (n : Nat) : Prop := ∀ r ∈ b.written, r.1 + r.2 ≤ n

instance (b : Buffer) (n : Nat) : Decidable (b.WrittenWithin n) :=
  inferInstanceAs (Decidable (∀ r ∈ b.written, _))

section Stores

variable (b : Buffer) (off n : Nat) (v : Byte) (v16 : BitVec 16) (v32 : BitVec 32)
  (bs : List Byte)

@[simp] theorem mem_store8 : (b.store8 off v).mem = b.mem.store8 off v := rfl
@[simp] theorem mem_store16 : (b.store16 off v16).mem = b.mem.store16 off v16 := rfl
@[simp] theorem mem_store32 : (b.store32 off v32).mem = b.mem.store32 off v32 := rfl
@[simp] theorem mem_storeBytes : (b.storeBytes off bs).mem = b.mem.storeBytes off bs := rfl

theorem writtenWithin_alloc (msg : Ptr) : (alloc msg).WrittenWithin n :=
  fun _ hr => absurd hr List.not_mem_nil

@[simp] theorem writtenWithin_store8 :
    (b.store8 off v).WrittenWithin n ↔ off + 1 ≤ n ∧ b.WrittenWithin n :=
  List.forall_mem_cons

@[simp] theorem writtenWithin_store16 :
    (b.store16 off v16).WrittenWithin n ↔ off + 2 ≤ n ∧ b.WrittenWithin n :=
  List.forall_mem_cons

@[simp] theorem writtenWithin_store32 :
    (b.store32 off v32).WrittenWithin n ↔ off + 4 ≤ n ∧ b.WrittenWithin n :=
  List.forall_mem_cons

@[simp] theorem writtenWithin_storeBytes :
    (b.storeBytes off bs).WrittenWithin n ↔ off + bs.length ≤ n ∧ b.WrittenWithin n :=
  List.forall_mem_cons

end Stores

end Buffer

/-- A buffer that is sent, with its `data_len`. -/
structure Reply where
  buffer : Buffer
  dataLen : Nat

/-! ## Ethernet and IP -/

/-- `uint8_t[RTE_ETHER_ADDR_LEN]` -/
abbrev Mac := Vector Byte 6

/-- The hardware address at `off`. -/
def macAt (p : Ptr) (off : Nat) : Mac := Vector.ofFn fun i => p (off + i)

theorem toList_macAt (p : Ptr) (off : Nat) : (macAt p off).toList = p.bytes off 6 := by
  apply List.ext_getElem (by simp)
  intro i hi hi'
  simp [macAt, Ptr.bytes]

/-- The headers of Ethernet and IP, as `ustack_encode_udp_pkt`,
    `ustack_encode_tcp_pkt` and `ustack_encode_icmp_pkt` write them. -/
def encodeIpHdr (msg : Buffer) (smac dmac : Mac) (sip dip : BitVec 32) (proto : Byte)
    (totalLength : BitVec 16) : Buffer :=
  let eth := ((msg.storeBytes 6 smac.toList).storeBytes 0 dmac.toList).store16 12
    (htons RTE_ETHER_TYPE_IPV4)
  let ip := ((((eth.store8 14 0x45).store8 15 0).store16 16 (htons totalLength)).store16 18
    0).store16 20 0
  let ip := ((((ip.store8 22 64).store32 30 dip).store32 26 sip).store8 23 proto).store16 24 0
  ip.store16 24 (rteIpv4Cksum (ip.mem.offset sizeofEtherHdr))

/-- What the two headers of a frame say, the addresses as they lie in the
    packet. -/
structure IpHeaders (p : Ptr) (smac dmac : Mac) (sip dip : BitVec 32) (proto : Byte)
    (totalLength : BitVec 16) : Prop where
  dAddr : p.bytes 0 6 = dmac.toList
  sAddr : p.bytes 6 6 = smac.toList
  etherType : EtherHdr.etherType p = htons RTE_ETHER_TYPE_IPV4
  versionIhl : Ipv4Hdr.versionIhl (p.offset 14) = 0x45
  totalLength : Ipv4Hdr.totalLength (p.offset 14) = htons totalLength
  nextProtoId : Ipv4Hdr.nextProtoId (p.offset 14) = proto
  srcAddr : Ipv4Hdr.srcAddr (p.offset 14) = sip
  dstAddr : Ipv4Hdr.dstAddr (p.offset 14) = dip
  cksum : IpCksumVerifies (p.offset 14)

section Headers

variable {msg : Buffer} {smac dmac : Mac} {sip dip : BitVec 32} {proto : Byte}
  {totalLength : BitVec 16} {p q : Ptr}

/-- What is stored behind the headers does not change them. -/
theorem IpHeaders.congr (h : IpHeaders p smac dmac sip dip proto totalLength)
    (hagrees : Ptr.Agrees 34 p q) : IpHeaders q smac dmac sip dip proto totalLength := by
  have hip : Ptr.Agrees 20 (p.offset 14) (q.offset 14) := hagrees.offset 14
  refine ⟨(hagrees.bytes (by omega)).symm.trans h.dAddr,
    (hagrees.bytes (by omega)).symm.trans h.sAddr,
    (hagrees.load16 (by omega)).symm.trans h.etherType,
    (hip 0 (by omega)).symm.trans h.versionIhl,
    (hip.load16 (by omega)).symm.trans h.totalLength,
    (hip 9 (by omega)).symm.trans h.nextProtoId,
    (hip.load32 (by omega)).symm.trans h.srcAddr,
    (hip.load32 (by omega)).symm.trans h.dstAddr, ?_⟩
  -- the sum is over the same twenty bytes
  have hsum := h.cksum
  rw [IpCksumVerifies, rteRawCksum, hip.rawCksumSum (by decide)] at hsum
  exact hsum

/-- The headers as they are written. -/
theorem ipHeaders_encodeIpHdr :
    IpHeaders (encodeIpHdr msg smac dmac sip dip proto totalLength).mem smac dmac sip dip proto
      totalLength := by
  have hd : dmac.toList.length = 6 := by simp
  have hs : smac.toList.length = 6 := by simp
  constructor
  -- later stores are to other bytes
  · have hmac := Ptr.bytes_storeBytes (msg.mem.storeBytes 6 smac.toList) 0 dmac.toList
    rw [hd] at hmac
    refine Eq.trans (Ptr.bytes_congr fun i _ hi => ?_) hmac
    simp (disch := omega) [encodeIpHdr]
  · have hmac := Ptr.bytes_storeBytes msg.mem 6 smac.toList
    rw [hs] at hmac
    refine Eq.trans (Ptr.bytes_congr fun i hi hi' => ?_) hmac
    simp (disch := omega) only [encodeIpHdr, Buffer.mem_store8, Buffer.mem_store16,
      Buffer.mem_store32, Buffer.mem_storeBytes, Ptr.store16_apply_of_ne, Ptr.store8_apply_of_ne,
      Ptr.store32_apply_of_ne, Ptr.storeBytes_apply_of_le]
  · simp [encodeIpHdr, EtherHdr.etherType]
  · simp [encodeIpHdr, Ipv4Hdr.versionIhl]
  · simp [encodeIpHdr, Ipv4Hdr.totalLength]
  · simp [encodeIpHdr, Ipv4Hdr.nextProtoId]
  · simp [encodeIpHdr, Ipv4Hdr.srcAddr]
  · simp [encodeIpHdr, Ipv4Hdr.dstAddr]
  · -- the sum was taken while the field was 0, and stored there
    simp only [encodeIpHdr, Buffer.mem_store16, Buffer.mem_store8, Buffer.mem_store32]
    rw [show (24 : Nat) = 14 + 10 from rfl, Ptr.offset_store16]
    exact ipCksumVerifies_store (by simp)

theorem writtenWithin_encodeIpHdr {n : Nat} (hn : 34 ≤ n) (h : msg.WrittenWithin n) :
    (encodeIpHdr msg smac dmac sip dip proto totalLength).WrittenWithin n := by
  simp only [encodeIpHdr, Buffer.writtenWithin_store16, Buffer.writtenWithin_store8,
    Buffer.writtenWithin_store32, Buffer.writtenWithin_storeBytes, Vector.length_toList, h,
    and_true]
  omega

/-- The headers end at byte 34. -/
theorem encodeIpHdr_apply {i : Nat} (h : 34 ≤ i) :
    (encodeIpHdr msg smac dmac sip dip proto totalLength).mem i = msg.mem i := by
  have hd : dmac.toList.length = 6 := by simp
  have hs : smac.toList.length = 6 := by simp
  simp (disch := omega) only [encodeIpHdr, Buffer.mem_store8, Buffer.mem_store16,
    Buffer.mem_store32, Buffer.mem_storeBytes, Ptr.store16_apply_of_ne, Ptr.store8_apply_of_ne,
    Ptr.store32_apply_of_ne, Ptr.storeBytes_apply_of_le]

end Headers

end LinuxLearning.Replies
