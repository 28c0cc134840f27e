/-
  LinuxLearning.Ustack.FrameReads

  Which bytes of a frame the receive side reads.

  No function looks at the length of the frame: `pkt_process` trusts that
  there is an IP header, `udp_process` that there are `dgram_len` bytes, and
  `ng_tcp_process` that there are `total_length`.  `pktNeeds` is the length
  they take for granted, on the path a frame takes.  A frame that is shorter
  is read past its end; what lies behind a frame that is not matters to
  nothing.

  Where `dgram_len` does not even count the UDP header in, the size of the
  copy wraps, and no frame is long enough.
-/

import LinuxLearning.Ustack.UdpOutput

namespace LinuxLearning.Ustack

open Lib

variable {env : Env} {s s' : State} {m m' : Mbuf} {o : Out} {n : Nat}

/-! ## Reads -/

/-- A read of `len` bytes from `off` on, counted from the start of the
    frame. -/
structure FrameRead where
  off : Nat
  len : Nat
deriving DecidableEq, Repr

namespace FrameRead

/-- The first byte that is not read. -/
def stop (r : FrameRead) : Nat := r.off + r.len

/-! The fields of the headers. -/

def sAddr : FrameRead := ⟨6, 6⟩
def etherType : FrameRead := ⟨12, 2⟩
def totalLength : FrameRead := ⟨16, 2⟩
def nextProtoId : FrameRead := ⟨23, 1⟩
def srcAddr : FrameRead := ⟨26, 4⟩
def dstAddr : FrameRead := ⟨30, 4⟩
def srcPort : FrameRead := ⟨34, 2⟩
def dstPort : FrameRead := ⟨36, 2⟩
def dgramLen : FrameRead := ⟨38, 2⟩
def sentSeq : FrameRead := ⟨38, 4⟩
def recvAck : FrameRead := ⟨42, 4⟩
def dataOff : FrameRead := ⟨46, 1⟩
def tcpFlags : FrameRead := ⟨47, 1⟩
def cksum : FrameRead := ⟨50, 2⟩

end FrameRead

open FrameRead

/-- The IP header's `total_length`. -/
def Mbuf.totalLength (m : Mbuf) : Nat := (ntohs (Ipv4Hdr.totalLength m.iphdr)).toNat

/-- The UDP header's `dgram_len`. -/
def Mbuf.dgramLen (m : Mbuf) : Nat := (ntohs (UdpHdr.dgramLen m.l4hdr)).toNat

/-- `ng_arp_entry_insert` copies the hardware address of a sender it does not
    know. -/
def arpInsertReads (env : Env) (arpt : ArpTable) (m : Mbuf) : List FrameRead :=
  match arpt.ngGetDstMacaddr (Ipv4Hdr.srcAddr m.iphdr) with
  | some _ => []
  | none => if env.malloc .arpEntry then [sAddr] else []

/-- What `udp_process` has read on its way out. -/
def UdpExit.reads (m : Mbuf) : UdpExit → List FrameRead
  | .noHost | .noOffload => [dstAddr, dstPort, nextProtoId]
  | .noData => [dstAddr, dstPort, nextProtoId, dstAddr, srcAddr, srcPort, dstPort, dgramLen]
  -- the copy trusts `dgram_len`
  | .overrun | .queued _ _ =>
      [dstAddr, dstPort, nextProtoId, dstAddr, srcAddr, srcPort, dstPort, dgramLen,
        ⟨42, (udpDataSize m).toNat⟩]

/-- `udp_process`. -/
def udpProcessReads (env : Env) (s : State) (m : Mbuf) : List FrameRead :=
  (udpExit env s m).reads m

/-- `rte_ipv4_udptcp_cksum`: the segment, and the pseudo header's fields. -/
def udptcpCksumReads (m : Mbuf) : List FrameRead :=
  FrameRead.totalLength ::
  if m.totalLength < sizeofIpv4Hdr then []
  -- the sum trusts `total_length`
  else [⟨34, m.totalLength - sizeofIpv4Hdr⟩, srcAddr, dstAddr, nextProtoId,
    FrameRead.totalLength]

/-- `ng_tcp_enqueue_recvbuffer`, called with `tcplen`. -/
def enqueueRecvbufferReads (env : Env) (b : SegBranch) (m : Mbuf) (tcplen : Int) :
    List FrameRead :=
  if env.malloc (.recvFragment b) then
    [dstPort, srcPort, dataOff] ++
    let hdrlen := hdrlenOf m.l4hdr
    let payloadlen := tcplen - hdrlen * 4
    if 0 < payloadlen ∧ env.malloc (.recvData b) = true then
      -- the copy trusts `total_length` and `data_off`
      [⟨34 + hdrlen * 4, payloadlen.toNat⟩]
    else []
  else []

/-- `ng_tcp_send_ackpkt`, which prints the sequence number. -/
def sendAckpktReads (env : Env) (b : SegBranch) : List FrameRead :=
  if env.malloc (.ackFragment b) then [srcPort, dstPort, sentSeq] else []

/-- `ng_tcp_handle_established`. -/
def handleEstablishedReads (env : Env) (m : Mbuf) : List FrameRead :=
  tcpFlags ::
  ((if m.segment.psh then
      enqueueRecvbufferReads env .psh m (tcplenOf m.iphdr) ++ [dataOff, recvAck] ++
        sendAckpktReads env .psh
    else []) ++
  if m.segment.fin then
    dataOff :: enqueueRecvbufferReads env .fin m (hdrlenOf m.l4hdr) ++ [recvAck] ++
      sendAckpktReads env .fin
  else [])

/-- The status switch of `ng_tcp_process`. -/
def dispatchReads (env : Env) (status : NgTcpStatus) (m : Mbuf) : List FrameRead :=
  match status with
  | .listen =>
      tcpFlags ::
      if m.segment.syn then
        [srcAddr, dstAddr, srcPort, dstPort] ++
        if env.malloc .synFragment then [dstPort, srcPort, sentSeq] else []
      else []
  | .synRcvd => tcpFlags :: if m.segment.ack then [recvAck] else []
  | .established => FrameRead.totalLength :: handleEstablishedReads env m
  -- both handlers begin with a test of the flags
  | .closeWait | .lastAck => [tcpFlags]
  | .closed | .synSent | .finWait1 | .finWait2 | .closing | .timeWait => []

/-- `ng_tcp_process`. -/
def ngTcpProcessReads (env : Env) (s : State) (m : Mbuf) : List FrameRead :=
  cksum :: udptcpCksumReads m ++
  if tcpCksumOk m then
    [srcAddr, dstAddr, srcPort, dstPort] ++
    match s.found m with
    | none => []
    | some (_, stream) => dispatchReads env stream.status m
  else []

/-- The turn of `pkt_process` for one frame. -/
def pktReads (env : Env) (s : State) (m : Mbuf) : List FrameRead :=
  etherType ::
  if EtherHdr.etherType m.data = htons RTE_ETHER_TYPE_IPV4 then
    srcAddr :: arpInsertReads env s.arpt m ++
    nextProtoId ::
    if Ipv4Hdr.nextProtoId m.iphdr = IPPROTO_UDP then udpProcessReads env s m
    else if Ipv4Hdr.nextProtoId m.iphdr = IPPROTO_TCP then ngTcpProcessReads env s m
    else []
  else []

/-! ## The length taken for granted -/

/-- The bytes `udp_process` needs: the ports, `dgram_len` for a socket that
    is there, and the payload when it is copied. -/
def UdpExit.needs (m : Mbuf) : UdpExit → Nat
  | .noHost | .noOffload => 38
  | .noData => 40
  | .overrun => 42 + (udpDataSize m).toNat
  | .queued _ _ => 34 + m.dgramLen

def udpNeeds (env : Env) (s : State) (m : Mbuf) : Nat := (udpExit env s m).needs m

/-- The bytes `pkt_process` needs of a frame: those of the headers it looks
    at, and as many as the headers claim. -/
def pktNeeds (env : Env) (s : State) (m : Mbuf) : Nat :=
  if ¬ m.IsIpv4 then 14
  else if m.IsUdp then udpNeeds env s m
  else if m.IsTcp then max 52 (14 + m.totalLength)
  else 30

/-- All reads lie in the first `n` bytes. -/
def Within (n : Nat) (reads : List FrameRead) : Prop := ∀ r ∈ reads, r.stop ≤ n

instance (n : Nat) (reads : List FrameRead) : Decidable (Within n reads) :=
  inferInstanceAs (Decidable (∀ r ∈ reads, _))

@[simp] theorem within_nil : Within n [] := nofun

@[simp] theorem within_cons {r : FrameRead} {reads : List FrameRead} :
    Within n (r :: reads) ↔ r.stop ≤ n ∧ Within n reads := List.forall_mem_cons

@[simp] theorem within_append {reads more : List FrameRead} :
    Within n (reads ++ more) ↔ Within n reads ∧ Within n more := List.forall_mem_append

theorem Within.mono {k : Nat} {reads : List FrameRead} (h : Within k reads) (hle : k ≤ n) :
    Within n reads := fun r hr => Nat.le_trans (h r hr) hle

theorem within_arpInsert (arpt : ArpTable) : Within 12 (arpInsertReads env arpt m) := by
  unfold arpInsertReads
  split
  · exact within_nil
  · split
    · decide
    · exact within_nil

/-- The size of the copy, when it does not wrap. -/
theorem udpDataSize_of_queued {a : Addr} {host : Localhost}
    (h : udpExit env s m = .queued a host) : (udpDataSize m).toNat + sizeofUdpHdr = m.dgramLen := by
  have hlen : sizeofUdpHdr < m.dgramLen := (udpExit_eq_queued_iff.mp h).2.2.2
  have hlt : m.dgramLen < 2 ^ 16 := BitVec.isLt _
  rw [toNat_udpDataSize, ← Mbuf.dgramLen]
  simp only [sizeofUdpHdr] at hlen ⊢
  omega

/-- When it does, no frame has what is needed. -/
theorem lt_udpNeeds_of_overrun (h : udpExit env s m = .overrun) :
    2 ^ 16 < udpNeeds env s m := by
  have hlen : m.dgramLen < sizeofUdpHdr := (udpExit_eq_overrun_iff.mp h).2.2.2
  rw [udpNeeds, h, UdpExit.needs, toNat_udpDataSize, ← Mbuf.dgramLen]
  simp only [sizeofUdpHdr] at hlen ⊢
  omega

theorem le_udpNeeds_of_read (hhost : udpExit env s m ≠ .noHost)
    (hoffload : udpExit env s m ≠ .noOffload) : 40 ≤ udpNeeds env s m := by
  unfold udpNeeds
  cases hexit : udpExit env s m with
  | noHost => exact absurd hexit hhost
  | noOffload => exact absurd hexit hoffload
  | noData => exact Nat.le_refl _
  | overrun =>
      simp only [UdpExit.needs]
      omega
  | queued =>
      have hlen : sizeofUdpHdr < m.dgramLen := (udpExit_eq_queued_iff.mp hexit).2.2.2
      simp only [UdpExit.needs, sizeofUdpHdr] at hlen ⊢
      omega

theorem le_udpNeeds : 38 ≤ udpNeeds env s m := by
  by_cases hhost : udpExit env s m = .noHost
  · rw [udpNeeds, hhost]
    exact Nat.le_refl _
  · by_cases hoffload : udpExit env s m = .noOffload
    · rw [udpNeeds, hoffload]
      exact Nat.le_refl _
    · exact Nat.le_trans (by decide) (le_udpNeeds_of_read hhost hoffload)

theorem within_udpProcess_iff : Within n (udpProcessReads env s m) ↔ udpNeeds env s m ≤ n := by
  unfold udpProcessReads udpNeeds
  cases hexit : udpExit env s m with
  | noHost | noOffload =>
      simp only [UdpExit.reads, UdpExit.needs, within_cons, within_nil, and_true, stop, dstAddr,
        dstPort, nextProtoId]
      omega
  | noData | overrun =>
      simp only [UdpExit.reads, UdpExit.needs, within_cons, within_nil, and_true, stop, dstAddr,
        dstPort, nextProtoId, srcAddr, srcPort, dgramLen]
      omega
  | queued =>
      have hlen := udpDataSize_of_queued hexit
      simp only [UdpExit.reads, UdpExit.needs, within_cons, within_nil, and_true, stop, dstAddr,
        dstPort, nextProtoId, srcAddr, srcPort, dgramLen, sizeofUdpHdr] at hlen ⊢
      omega

/-- A copy of payload ends where `total_length` says that the packet does. -/
theorem within_enqueueRecvbuffer {b : SegBranch} {tcplen : Int}
    (hlen : tcplen ≤ m.totalLength - sizeofIpv4Hdr ∨ tcplen ≤ hdrlenOf m.l4hdr * 4)
    (hn : max 52 (14 + m.totalLength) ≤ n) : Within n (enqueueRecvbufferReads env b m tcplen) := by
  unfold enqueueRecvbufferReads
  split
  · rw [within_append]
    refine ⟨.mono (show Within 52 _ by decide) (by omega), ?_⟩
    simp only
    split
    · rename_i hpos
      rw [within_cons]
      refine ⟨?_, within_nil⟩
      simp only [stop, sizeofIpv4Hdr] at hlen ⊢
      omega
    · exact within_nil
  · exact within_nil

theorem within_sendAckpkt (b : SegBranch) : Within 52 (sendAckpktReads env b) := by
  unfold sendAckpktReads
  split <;> decide

theorem within_handleEstablished (hn : max 52 (14 + m.totalLength) ≤ n) :
    Within n (handleEstablishedReads env m) := by
  have hhdr : ∀ {reads}, Within 52 reads → Within n reads := fun h => h.mono (by omega)
  unfold handleEstablishedReads
  rw [within_cons, within_append]
  refine ⟨Nat.le_trans (show tcpFlags.stop ≤ 52 by decide) (by omega), ?_, ?_⟩
  · split
    · rw [within_append, within_append]
      exact ⟨⟨within_enqueueRecvbuffer (.inl (Int.le_refl _)) hn, hhdr (by decide)⟩,
        hhdr (within_sendAckpkt _)⟩
    · exact within_nil
  · split
    · rw [List.cons_append, List.cons_append, within_cons, within_append, within_append]
      refine ⟨Nat.le_trans (show dataOff.stop ≤ 52 by decide) (by omega),
        ⟨within_enqueueRecvbuffer (.inr ?_) hn, hhdr (by decide)⟩, hhdr (within_sendAckpkt _)⟩
      -- the header's length in words is never more than in bytes
      omega
    · exact within_nil

theorem within_dispatch (status : NgTcpStatus) (hn : max 52 (14 + m.totalLength) ≤ n) :
    Within n (dispatchReads env status m) := by
  have hhdr : ∀ {reads}, Within 52 reads → Within n reads := fun h => h.mono (by omega)
  cases status with
  | listen =>
      apply hhdr
      simp only [dispatchReads]
      split
      · split <;> decide
      · decide
  | synRcvd =>
      apply hhdr
      simp only [dispatchReads]
      split <;> decide
  | established =>
      rw [dispatchReads, within_cons]
      exact ⟨Nat.le_trans (show FrameRead.totalLength.stop ≤ 52 by decide) (by omega),
        within_handleEstablished hn⟩
  | closeWait | lastAck => exact hhdr (show Within 52 [tcpFlags] by decide)
  | closed | synSent | finWait1 | finWait2 | closing | timeWait => exact within_nil

/-- The checksum is taken over all that `total_length` claims. -/
theorem within_udptcpCksum_iff (hn : 52 ≤ n) :
    Within n (udptcpCksumReads m) ↔ 14 + m.totalLength ≤ n := by
  unfold udptcpCksumReads
  by_cases hshort : m.totalLength < sizeofIpv4Hdr
  · rw [if_pos hshort]
    simp only [within_cons, within_nil, and_true, stop, FrameRead.totalLength,
      sizeofIpv4Hdr] at hshort ⊢
    omega
  · rw [if_neg hshort]
    simp only [within_cons, within_nil, and_true, stop, FrameRead.totalLength, srcAddr, dstAddr,
      nextProtoId, sizeofIpv4Hdr] at hshort ⊢
    omega

theorem within_ngTcpProcess_iff :
    Within n (ngTcpProcessReads env s m) ↔ max 52 (14 + m.totalLength) ≤ n := by
  unfold ngTcpProcessReads
  rw [List.cons_append, within_cons, within_append]
  constructor
  · rintro ⟨hcksum, htotal, -⟩
    -- the checksum field ends the fixed part, the sum is the rest
    have h52 : 52 ≤ n := hcksum
    exact Nat.max_le.mpr ⟨h52, (within_udptcpCksum_iff h52).mp htotal⟩
  · intro hn
    have h52 : 52 ≤ n := by omega
    refine ⟨h52, (within_udptcpCksum_iff h52).mpr (by omega), ?_⟩
    split
    · rw [within_append]
      refine ⟨.mono (show Within 52 _ by decide) h52, ?_⟩
      split
      · exact within_nil
      · exact within_dispatch _ hn
    · exact within_nil

theorem pktNeeds_of_udp (h : m.IsUdp) : pktNeeds env s m = udpNeeds env s m := by
  rw [pktNeeds, if_neg (not_not.mpr h.1), if_pos h]

theorem pktNeeds_of_tcp (h : m.IsTcp) : pktNeeds env s m = max 52 (14 + m.totalLength) := by
  have hnudp : ¬ m.IsUdp := by
    intro hudp
    exact absurd (hudp.2.symm.trans h.2) (by decide)
  rw [pktNeeds, if_neg (not_not.mpr h.1), if_neg hnudp, if_pos h]

/-- The sender's address, which every packet of IPv4 is asked for, lies in
    the first 30 bytes. -/
theorem le_pktNeeds_of_ipv4 (h : m.IsIpv4) : 30 ≤ pktNeeds env s m := by
  have hudp : 38 ≤ udpNeeds env s m := le_udpNeeds
  rw [pktNeeds, if_neg (not_not.mpr h)]
  split
  · omega
  · split
    · omega
    · exact Nat.le_refl _

theorem le_pktNeeds : 14 ≤ pktNeeds env s m := by
  by_cases h : m.IsIpv4
  · have h30 : 30 ≤ pktNeeds env s m := le_pktNeeds_of_ipv4 h
    omega
  · have hneeds : pktNeeds env s m = 14 := by rw [pktNeeds, if_pos h]
    omega

/-- The reads of a frame lie in its first `n` bytes just when `n` is at least
    what the path needs. -/
theorem within_pkt_iff : Within n (pktReads env s m) ↔ pktNeeds env s m ≤ n := by
  unfold pktReads
  rw [within_cons]
  by_cases hip : m.IsIpv4
  · have hty : EtherHdr.etherType m.data = htons RTE_ETHER_TYPE_IPV4 := hip
    rw [if_pos hty, List.cons_append, within_cons, within_append, within_cons]
    -- what comes before the dispatch lies in the first 30 bytes
    have hhead : pktNeeds env s m ≤ n → etherType.stop ≤ n ∧ srcAddr.stop ≤ n ∧
        Within n (arpInsertReads env s.arpt m) ∧ nextProtoId.stop ≤ n := by
      intro h
      have hn : 30 ≤ n := Nat.le_trans (le_pktNeeds_of_ipv4 hip) h
      exact ⟨Nat.le_trans (by decide) hn, hn,
        (within_arpInsert _).mono (Nat.le_trans (by decide) hn), Nat.le_trans (by decide) hn⟩
    by_cases hudp : m.IsUdp
    · rw [if_pos hudp.2, within_udpProcess_iff, ← pktNeeds_of_udp hudp]
      constructor
      · rintro ⟨-, -, -, -, h⟩
        exact h
      · intro h
        obtain ⟨h₁, h₂, h₃, h₄⟩ := hhead h
        exact ⟨h₁, h₂, h₃, h₄, h⟩
    · have hnudp : ¬ Ipv4Hdr.nextProtoId m.iphdr = IPPROTO_UDP := fun h => hudp ⟨hip, h⟩
      rw [if_neg hnudp]
      by_cases htcp : m.IsTcp
      · rw [if_pos htcp.2, within_ngTcpProcess_iff, ← pktNeeds_of_tcp htcp]
        constructor
        · rintro ⟨-, -, -, -, h⟩
          exact h
        · intro h
          obtain ⟨h₁, h₂, h₃, h₄⟩ := hhead h
          exact ⟨h₁, h₂, h₃, h₄, h⟩
      · have hntcp : ¬ Ipv4Hdr.nextProtoId m.iphdr = IPPROTO_TCP := fun h => htcp ⟨hip, h⟩
        have hneeds : pktNeeds env s m = 30 := by
          rw [pktNeeds, if_neg (not_not.mpr hip), if_neg hudp, if_neg htcp]
        rw [if_neg hntcp]
        constructor
        · rintro ⟨-, h, -⟩
          exact hneeds ▸ h
        · intro h
          obtain ⟨h₁, h₂, h₃, h₄⟩ := hhead h
          exact ⟨h₁, h₂, h₃, h₄, within_nil⟩
  · have hty : ¬ EtherHdr.etherType m.data = htons RTE_ETHER_TYPE_IPV4 := hip
    rw [if_neg hty, pktNeeds, if_pos hip]
    constructor
    · rintro ⟨h, -⟩
      exact h
    · intro h
      exact ⟨h, within_nil⟩

/-! ## Buffers that agree -/

/-- The memory behind two pointers is the same for `n` bytes. -/
def Ptr.Agrees (n : Nat) (p q : Ptr) : Prop := ∀ i < n, p i = q i

namespace Ptr.Agrees

variable {p q : Ptr} {k off : Nat}

theorem mono (h : Ptr.Agrees n p q) (hle : k ≤ n) : Ptr.Agrees k p q :=
  fun i hi => h i (Nat.lt_of_lt_of_le hi hle)

theorem offset (h : Ptr.Agrees n p q) (off : Nat) :
    Ptr.Agrees (n - off) (p.offset off) (q.offset off) := fun i hi => h (off + i) (by omega)

theorem load16 (h : Ptr.Agrees n p q) (hoff : off + 2 ≤ n) : p.load16 off = q.load16 off :=
  Ptr.load16_congr fun i _ hi => h i (by omega)

theorem load32 (h : Ptr.Agrees n p q) (hoff : off + 4 ≤ n) : p.load32 off = q.load32 off :=
  Ptr.load32_congr fun i _ hi => h i (by omega)

theorem bytes (h : Ptr.Agrees n p q) (hoff : off + k ≤ n) : p.bytes off k = q.bytes off k :=
  Ptr.bytes_congr fun i _ hi => h i (by omega)

theorem setCksum (h : Ptr.Agrees n p q) (v : BitVec 16) :
    Ptr.Agrees n (TcpHdr.setCksum p v) (TcpHdr.setCksum q v) := by
  intro i hi
  simp only [TcpHdr.setCksum, Ptr.store16, h i hi]

theorem rawCksumSum (h : Ptr.Agrees n p q) {len : Nat} (hoff : off + len ≤ n) (sum : BitVec 32) :
    rteRawCksumSum p off len sum = rteRawCksumSum q off len sum := by
  induction off, len, sum using rteRawCksumSum.induct p with
  -- a word, then the rest; the last byte alone; nothing
  | case1 off len sum ih =>
      rw [rteRawCksumSum, rteRawCksumSum, ← h.load16 (by omega)]
      exact ih (by omega)
  | case2 off sum => rw [rteRawCksumSum, rteRawCksumSum, h off (by omega)]
  | case3 off sum => rw [rteRawCksumSum, rteRawCksumSum]

theorem psdHdr (h : Ptr.Agrees n p q) (hn : 20 ≤ n) : psdHdr p = psdHdr q := by
  have htotal : Ipv4Hdr.totalLength p = Ipv4Hdr.totalLength q := h.load16 (by omega)
  have hproto : Ipv4Hdr.nextProtoId p = Ipv4Hdr.nextProtoId q := h 9 (by omega)
  have haddrs : p.bytes 12 8 = q.bytes 12 8 := h.bytes (by omega)
  simp only [Ustack.psdHdr, htotal, hproto, haddrs]

/-- The checksum depends on the IP header and on the bytes it is taken
    over. -/
theorem udptcpCksum {ip ip' l4 l4' : Ptr} (hip : Ptr.Agrees 20 ip ip')
    (hl4 : Ptr.Agrees ((ntohs (Ipv4Hdr.totalLength ip)).toNat - sizeofIpv4Hdr) l4 l4') :
    rteIpv4UdptcpCksum ip l4 = rteIpv4UdptcpCksum ip' l4' := by
  have htotal : Ipv4Hdr.totalLength ip = Ipv4Hdr.totalLength ip' := hip.load16 (by omega)
  have hphdr : rteIpv4PhdrCksum ip = rteIpv4PhdrCksum ip' := by
    rw [rteIpv4PhdrCksum, rteIpv4PhdrCksum, hip.psdHdr (by omega)]
  rw [htotal] at hl4
  have hraw : rteRawCksum l4 ((ntohs (Ipv4Hdr.totalLength ip')).toNat - sizeofIpv4Hdr) =
      rteRawCksum l4' ((ntohs (Ipv4Hdr.totalLength ip')).toNat - sizeofIpv4Hdr) := by
    rw [rteRawCksum, rteRawCksum, hl4.rawCksumSum (by omega)]
  simp only [rteIpv4UdptcpCksum, htotal, hphdr, hraw]

/-- A full TCP header and the fields of the IP header make the segment. -/
theorem segment {ip ip' : Ptr} (hip : Ptr.Agrees 20 ip ip') (hl4 : Ptr.Agrees 18 p q) :
    Segment.ofHdrs ip p = Segment.ofHdrs ip' q := by
  have htotal : Ipv4Hdr.totalLength ip = Ipv4Hdr.totalLength ip' := hip.load16 (by omega)
  have hoff : TcpHdr.dataOff p = TcpHdr.dataOff q := hl4 12 (by omega)
  have hflags : TcpHdr.tcpFlags p = TcpHdr.tcpFlags q := hl4 13 (by omega)
  simp only [Segment.ofHdrs, tcplenOf, hdrlenOf, htotal, hoff, hflags, Ipv4Hdr.srcAddr,
    Ipv4Hdr.dstAddr, TcpHdr.srcPort, TcpHdr.dstPort, TcpHdr.sentSeq, TcpHdr.recvAck,
    hip.load32 (show 12 + 4 ≤ 20 by omega), hip.load32 (show 16 + 4 ≤ 20 by omega),
    hl4.load16 (show 0 + 2 ≤ 18 by omega), hl4.load16 (show 2 + 2 ≤ 18 by omega),
    hl4.load32 (show 4 + 4 ≤ 18 by omega), hl4.load32 (show 8 + 4 ≤ 18 by omega)]

end Ptr.Agrees

/-! ## What lies behind the frame -/

section Congr

variable {p q : Ptr} {k : Nat}

/-- A copy that stays in the first `k` bytes behind the TCP header, or that
    is none, is the same. -/
theorem recvFragment_congr {b : SegBranch} {tcplen : Int} (hhdr : Ptr.Agrees 18 p q)
    (hdata : Ptr.Agrees k p q) (hlen : tcplen ≤ k ∨ tcplen ≤ hdrlenOf p * 4) :
    recvFragment env b p tcplen = recvFragment env b q tcplen := by
  have hsport : TcpHdr.srcPort p = TcpHdr.srcPort q := hhdr.load16 (by omega)
  have hdport : TcpHdr.dstPort p = TcpHdr.dstPort q := hhdr.load16 (by omega)
  have hoff : hdrlenOf p = hdrlenOf q := by
    rw [hdrlenOf, hdrlenOf, TcpHdr.dataOff, TcpHdr.dataOff, hhdr 12 (by omega)]
  rw [hoff] at hlen
  simp only [recvFragment, hsport, hdport, hoff]
  by_cases hpos : 0 < tcplen - hdrlenOf q * 4
  · have hbytes : p.bytes (hdrlenOf q * 4) (tcplen - hdrlenOf q * 4).toNat =
        q.bytes (hdrlenOf q * 4) (tcplen - hdrlenOf q * 4).toNat := hdata.bytes (by omega)
    simp only [hbytes]
  · simp only [if_neg hpos]

theorem storeAndAck_congr {b : SegBranch} {t : NgTcpStream} {len : Int} {delta : BitVec 32}
    (hhdr : Ptr.Agrees 18 p q) (hdata : Ptr.Agrees k p q)
    (hlen : len ≤ k ∨ len ≤ hdrlenOf p * 4) :
    storeAndAck env b t p len delta = storeAndAck env b t q len delta := by
  -- the sequence number is printed only, so the effect does not depend on it
  have hack : TcpHdr.recvAck p = TcpHdr.recvAck q := hhdr.load32 (by omega)
  have hfragment : ∀ t, ackFragment t p = ackFragment t q := by
    intro t
    have hsport : TcpHdr.srcPort p = TcpHdr.srcPort q := hhdr.load16 (by omega)
    have hdport : TcpHdr.dstPort p = TcpHdr.dstPort q := hhdr.load16 (by omega)
    simp only [ackFragment, hsport, hdport]
  simp only [storeAndAck, ngTcpEnqueueRecvbuffer, ngTcpSendAckpkt, hack, hfragment,
    recvFragment_congr hhdr hdata hlen]

theorem ngTcpHandleEstablished_congr {t : NgTcpStream} {tcplen : Int} (hhdr : Ptr.Agrees 18 p q)
    (hdata : Ptr.Agrees k p q) (hlen : tcplen ≤ k) :
    ngTcpHandleEstablished env t p tcplen = ngTcpHandleEstablished env t q tcplen := by
  have hflags : TcpHdr.tcpFlags p = TcpHdr.tcpFlags q := hhdr 13 (by omega)
  have hoff : hdrlenOf p = hdrlenOf q := by
    rw [hdrlenOf, hdrlenOf, TcpHdr.dataOff, TcpHdr.dataOff, hhdr 12 (by omega)]
  have hpsh : ∀ t, handleEstablishedPsh env t p tcplen = handleEstablishedPsh env t q tcplen := by
    intro t
    simp only [handleEstablishedPsh, hoff]
    exact storeAndAck_congr hhdr hdata (.inl hlen)
  have hfin : ∀ t, handleEstablishedFin env t p = handleEstablishedFin env t q := by
    intro t
    rw [handleEstablishedFin, handleEstablishedFin, ← hoff]
    -- the length in words leaves nothing to copy
    exact storeAndAck_congr hhdr hdata (.inr (by omega))
  simp only [ngTcpHandleEstablished, ifFlag, hflags, hpsh, hfin]

theorem dispatchSegment_congr {ip ip' : Ptr} {a : Addr} {t : NgTcpStream}
    (hip : Ptr.Agrees 20 ip ip') (hhdr : Ptr.Agrees 18 p q)
    (hdata : Ptr.Agrees ((ntohs (Ipv4Hdr.totalLength ip)).toNat - sizeofIpv4Hdr) p q) :
    dispatchSegment env s a t ip p = dispatchSegment env s a t ip' q := by
  have hseg : Segment.ofHdrs ip p = Segment.ofHdrs ip' q := hip.segment hhdr
  have htcplen : tcplenOf ip = tcplenOf ip' := congrArg Segment.tcplen hseg
  have hest : ngTcpHandleEstablished env t p (tcplenOf ip') =
      ngTcpHandleEstablished env t q (tcplenOf ip') := by
    apply ngTcpHandleEstablished_congr hhdr hdata
    rw [← htcplen, tcplenOf]
    omega
  simp only [dispatchSegment, hseg, htcplen, hest]

end Congr

/-- The way out depends on `dgram_len` only where it is read. -/
theorem udpExit_congr (h : Ptr.Agrees (udpNeeds env s m) m.data m'.data) :
    udpExit env s m = udpExit env s m' := by
  have h38 : 38 ≤ udpNeeds env s m := le_udpNeeds
  have hip : Ptr.Agrees 20 m.iphdr m'.iphdr := (h.offset 14).mono (by omega)
  have hl4 : ∀ {k}, k + 34 ≤ udpNeeds env s m → Ptr.Agrees k m.l4hdr m'.l4hdr :=
    fun hk => ((h.offset 14).offset 20).mono (by omega)
  have hproto : Ipv4Hdr.nextProtoId m.iphdr = Ipv4Hdr.nextProtoId m'.iphdr := hip 9 (by omega)
  have hdip : Ipv4Hdr.dstAddr m.iphdr = Ipv4Hdr.dstAddr m'.iphdr := hip.load32 (by omega)
  have hdport : UdpHdr.dstPort m.l4hdr = UdpHdr.dstPort m'.l4hdr :=
    (hl4 (k := 4) h38).load16 (by omega)
  have hfound : getHostinfoFromipPort s (Ipv4Hdr.dstAddr m.iphdr) (UdpHdr.dstPort m.l4hdr)
        (Ipv4Hdr.nextProtoId m.iphdr) =
      getHostinfoFromipPort s (Ipv4Hdr.dstAddr m'.iphdr) (UdpHdr.dstPort m'.l4hdr)
        (Ipv4Hdr.nextProtoId m'.iphdr) := by
    rw [hproto, hdip, hdport]
  by_cases hread : udpExit env s m = .noHost ∨ udpExit env s m = .noOffload
  -- `dgram_len` was not looked at
  · simp only [udpExit, hfound] at hread ⊢
    split
    · rfl
    · rename_i a host hhost
      simp only [hhost] at hread
      split
      · rfl
      · rename_i hoffload
        rw [if_neg hoffload] at hread
        split at hread
        · simp at hread
        · split at hread <;> simp at hread
  · rw [not_or] at hread
    have hlen : UdpHdr.dgramLen m.l4hdr = UdpHdr.dgramLen m'.l4hdr :=
      (hl4 (k := 6) (le_udpNeeds_of_read hread.1 hread.2)).load16 (by omega)
    have hsize : udpDataSize m = udpDataSize m' := by rw [udpDataSize, udpDataSize, hlen]
    rw [udpExit, udpExit, hfound, hsize]

theorem udpProcess_congr (h : Ptr.Agrees (udpNeeds env s m) m.data m'.data) :
    udpProcess env s m = udpProcess env s m' := by
  rw [udpProcess, udpProcess, ← udpExit_congr h]
  cases hexit : udpExit env s m with
  | noHost | noOffload | noData | overrun => rfl
  | queued a host =>
      have hlen : sizeofUdpHdr < m.dgramLen := (udpExit_eq_queued_iff.mp hexit).2.2.2
      rw [udpNeeds, hexit, UdpExit.needs] at h
      simp only [sizeofUdpHdr] at hlen
      have hip : Ptr.Agrees 20 m.iphdr m'.iphdr := (h.offset 14).mono (by omega)
      have hl4 : Ptr.Agrees m.dgramLen m.l4hdr m'.l4hdr :=
        ((h.offset 14).offset 20).mono (by omega)
      have hsip : Ipv4Hdr.srcAddr m.iphdr = Ipv4Hdr.srcAddr m'.iphdr := hip.load32 (by omega)
      have hdip : Ipv4Hdr.dstAddr m.iphdr = Ipv4Hdr.dstAddr m'.iphdr := hip.load32 (by omega)
      have hsport : UdpHdr.srcPort m.l4hdr = UdpHdr.srcPort m'.l4hdr := hl4.load16 (by omega)
      have hdport : UdpHdr.dstPort m.l4hdr = UdpHdr.dstPort m'.l4hdr := hl4.load16 (by omega)
      have hdgram : UdpHdr.dgramLen m.l4hdr = UdpHdr.dgramLen m'.l4hdr := hl4.load16 (by omega)
      have hbytes : m.l4hdr.bytes sizeofUdpHdr (m.dgramLen - sizeofUdpHdr) =
          m'.l4hdr.bytes sizeofUdpHdr (m.dgramLen - sizeofUdpHdr) :=
        hl4.bytes (by simp only [sizeofUdpHdr]; omega)
      rw [Mbuf.dgramLen, hdgram] at hbytes
      simp only [hsip, hdip, hsport, hdport, hdgram, hbytes]

theorem ngTcpProcess_congr (h : Ptr.Agrees (max 52 (14 + m.totalLength)) m.data m'.data) :
    ngTcpProcess env s m = ngTcpProcess env s m' := by
  have hip : Ptr.Agrees 20 m.iphdr m'.iphdr := (h.offset 14).mono (by omega)
  have hl4 : ∀ {k}, k + 34 ≤ max 52 (14 + m.totalLength) → Ptr.Agrees k m.l4hdr m'.l4hdr :=
    fun hk => ((h.offset 14).offset 20).mono (by omega)
  have hhdr : Ptr.Agrees 18 m.l4hdr m'.l4hdr := hl4 (by omega)
  have hdata : Ptr.Agrees ((ntohs (Ipv4Hdr.totalLength m.iphdr)).toNat - sizeofIpv4Hdr)
      m.l4hdr m'.l4hdr := hl4 (by rw [← Mbuf.totalLength, sizeofIpv4Hdr]; omega)
  have hseg : m.segment = m'.segment := hip.segment hhdr
  have hcksum : tcpCksumOk m = tcpCksumOk m' := by
    have hfield : TcpHdr.cksum m.l4hdr = TcpHdr.cksum m'.l4hdr := hhdr.load16 (by omega)
    rw [tcpCksumOk, tcpCksumOk, hip.udptcpCksum (hdata.setCksum 0), hfield]
  have hsearch : ∀ tcbs, ngTcpStreamSearch tcbs (Ipv4Hdr.srcAddr m.iphdr)
      (Ipv4Hdr.dstAddr m.iphdr) (TcpHdr.srcPort (TcpHdr.setCksum m.l4hdr 0))
      (TcpHdr.dstPort (TcpHdr.setCksum m.l4hdr 0)) =
      ngTcpStreamSearch tcbs (Ipv4Hdr.srcAddr m'.iphdr)
      (Ipv4Hdr.dstAddr m'.iphdr) (TcpHdr.srcPort (TcpHdr.setCksum m'.l4hdr 0))
      (TcpHdr.dstPort (TcpHdr.setCksum m'.l4hdr 0)) := by
    intro tcbs
    have hseg' := hip.segment (hhdr.setCksum 0)
    exact congrArg (fun seg : Segment => ngTcpStreamSearch tcbs seg.sip seg.dip seg.sport seg.dport)
      hseg'
  have hdispatch : ∀ a t, dispatchSegment env s a t m.iphdr (TcpHdr.setCksum m.l4hdr 0) =
      dispatchSegment env s a t m'.iphdr (TcpHdr.setCksum m'.l4hdr 0) :=
    fun a t => dispatchSegment_congr hip (hhdr.setCksum 0) (hdata.setCksum 0)
  simp only [ngTcpProcess, hcksum, hsearch, hdispatch, hseg]

/-- The first bytes of the frame decide what becomes of it. -/
theorem pktProcess_congr (h : Ptr.Agrees (pktNeeds env s m) m.data m'.data) :
    pktProcess env s m = pktProcess env s m' := by
  have h14 : 14 ≤ pktNeeds env s m := le_pktNeeds
  have hty : EtherHdr.etherType m.data = EtherHdr.etherType m'.data := h.load16 (by omega)
  by_cases hip : m.IsIpv4
  · have hip' : m'.IsIpv4 := hty.symm.trans hip
    have h30 : 30 ≤ pktNeeds env s m := le_pktNeeds_of_ipv4 hip
    have hiphdr : Ptr.Agrees 16 m.iphdr m'.iphdr := (h.offset 14).mono (by omega)
    have hproto : Ipv4Hdr.nextProtoId m.iphdr = Ipv4Hdr.nextProtoId m'.iphdr :=
      hiphdr 9 (by omega)
    have hsip : Ipv4Hdr.srcAddr m.iphdr = Ipv4Hdr.srcAddr m'.iphdr := hiphdr.load32 (by omega)
    have hmac : EtherHdr.sAddr m.data = EtherHdr.sAddr m'.data :=
      h.bytes (by rw [etherAddrLen]; omega)
    have hlearn : s.learnFrom env m = s.learnFrom env m' := by
      rw [State.learnFrom, State.learnFrom, hsip, hmac]
    by_cases hudp : m.IsUdp
    · have hudp' : m'.IsUdp := ⟨hip', hproto.symm.trans hudp.2⟩
      -- what `udp_process` needs does not depend on the ARP table
      have hneeds : pktNeeds env s m = udpNeeds env (s.learnFrom env m) m := pktNeeds_of_udp hudp
      rw [pktProcess_of_udp hudp, pktProcess_of_udp hudp', ← hlearn]
      exact udpProcess_congr (hneeds ▸ h)
    · by_cases htcp : m.IsTcp
      · have htcp' : m'.IsTcp := ⟨hip', hproto.symm.trans htcp.2⟩
        rw [pktProcess_of_tcp htcp, pktProcess_of_tcp htcp', ← hlearn]
        exact ngTcpProcess_congr (pktNeeds_of_tcp htcp ▸ h)
      · have hnudp : Ipv4Hdr.nextProtoId m'.iphdr ≠ IPPROTO_UDP :=
          fun h => hudp ⟨hip, hproto.trans h⟩
        have hntcp : Ipv4Hdr.nextProtoId m'.iphdr ≠ IPPROTO_TCP :=
          fun h => htcp ⟨hip, hproto.trans h⟩
        simp only [pktProcess, hty, hproto, hsip, hmac, if_neg hnudp, if_neg hntcp]
  · have hnot : EtherHdr.etherType m.data ≠ htons RTE_ETHER_TYPE_IPV4 := hip
    rw [hty] at hnot
    simp only [pktProcess, hty, if_neg hnot]

/-- Where the size of the copy wraps, `udp_process` reads out of the frame,
    whatever the frame. -/
theorem overrun_reads (hudp : m.IsUdp) (hexit : udpExit env s m = .overrun)
    (hlen : m.dataLen < 2 ^ 16) : ¬ Within m.dataLen (pktReads env s m) := by
  have hneeds := lt_udpNeeds_of_overrun hexit
  rw [within_pkt_iff, pktNeeds_of_udp hudp]
  omega

/-- A frame is read inside its bounds just when it has the bytes its headers
    claim, and then nothing but its bytes matters. -/
theorem frame_reads (env : Env) (s : State) (m : Mbuf) :
    (Within m.dataLen (pktReads env s m) ↔ pktNeeds env s m ≤ m.dataLen) ∧
    (pktNeeds env s m ≤ m.dataLen → ∀ m', Ptr.Agrees m.dataLen m.data m'.data →
      pktProcess env s m' = pktProcess env s m) := by
  refine ⟨within_pkt_iff, ?_⟩
  intro hneeds m' hagrees
  exact (pktProcess_congr (hagrees.mono hneeds)).symm

/-- A datagram of one byte for a bound socket is read to its last byte, and
    no further. -/
theorem frame_reads_datagram :
    let s := udpServerSetup .plain (State.init []) 0x0100000A (htons 8889)
    let m := peerDatagram 0x0100000A [7]
    m.dataLen = 43 ∧ Within m.dataLen (pktReads .plain s m) ∧
    ∀ m', Ptr.Agrees m.dataLen m.data m'.data → pktProcess .plain s m' = pktProcess .plain s m := by
  intro s m
  have hneeds : pktNeeds .plain s m ≤ m.dataLen := by decide +kernel
  have hreads := frame_reads .plain s m
  exact ⟨by decide, hreads.1.mpr hneeds, hreads.2 hneeds⟩

/-- A frame of 60 bytes whose UDP header claims 1008. -/
def lyingDatagram : Mbuf where
  data := (peerDatagram 0x0100000A [7]).data.store16 38 (htons 1008)
  dataLen := 60

/-- `udp_process` copies the 1000 bytes behind the header. -/
theorem frame_read_behind_the_end : ∃ hist s, SystemRun (State.init []) hist s ∧
    lyingDatagram.dataLen ≤ 2048 ∧ ⟨42, 1000⟩ ∈ pktReads .plain s lyingDatagram ∧
    ¬ Within lyingDatagram.dataLen (pktReads .plain s lyingDatagram) := by
  have hruns : runsTo (State.init [])
      [.nsocket .plain SOCK_DGRAM, .nbind 3 0x0100000A (htons 8889)]
      (fun _ s => decide (⟨42, 1000⟩ ∈ pktReads .plain s lyingDatagram)) = true := by
    decide +kernel
  obtain ⟨hist, s, hrun, hP⟩ := run_of_runsTo hruns
  have hread : ⟨42, 1000⟩ ∈ pktReads .plain s lyingDatagram := of_decide_eq_true hP
  refine ⟨hist, s, hrun, by decide, hread, ?_⟩
  intro hwithin
  exact absurd (hwithin _ hread) (by decide)

end LinuxLearning.Ustack
