/-
  LinuxLearning.Ustack.TcpInput

  The receive side of the TCP stack: `ng_tcp_stream_search`,
  `ng_tcp_stream_create`, the handlers of the status switch, and
  `ng_tcp_process`.

  Handlers that touch one control block only work on the block; the caller
  writes it back to `tcb_set`.  They report what they did as `StreamOp`s.
-/

import LinuxLearning.Ustack.State

namespace LinuxLearning.Ustack

open Lib

def TCP_MAX_SEQ : Nat := 4294967295
def TCP_INITIAL_WINDOW : BitVec 16 := 14600

/-! ## Segments -/

/-- `ntohs(iphdr->total_length) - sizeof(struct rte_ipv4_hdr)`, as the `int`
    it is assigned to. -/
def tcplenOf (iphdr : Ptr) : Int :=
  ((ntohs (Ipv4Hdr.totalLength iphdr)).toNat : Int) - sizeofIpv4Hdr

/-- `tcphdr->data_off >> 4`. -/
def hdrlenOf (tcphdr : Ptr) : Nat := (TcpHdr.dataOff tcphdr >>> 4).toNat

/-- What the handlers read of a segment's headers. -/
def Segment.ofHdrs (iphdr tcphdr : Ptr) : Segment where
  sip := Ipv4Hdr.srcAddr iphdr
  dip := Ipv4Hdr.dstAddr iphdr
  sport := TcpHdr.srcPort tcphdr
  dport := TcpHdr.dstPort tcphdr
  sentSeq := ntohl (TcpHdr.sentSeq tcphdr)
  recvAck := ntohl (TcpHdr.recvAck tcphdr)
  flags := TcpHdr.tcpFlags tcphdr
  tcplen := tcplenOf iphdr
  hdrlen := hdrlenOf tcphdr

/-- The segment in a packet buffer. -/
def Mbuf.segment (m : Mbuf) : Segment := .ofHdrs m.iphdr m.l4hdr

theorem tcplenOf_bounds (iphdr : Ptr) : -20 ≤ tcplenOf iphdr ∧ tcplenOf iphdr < 65516 := by
  have := (ntohs (Ipv4Hdr.totalLength iphdr)).isLt
  simp only [tcplenOf, sizeofIpv4Hdr]
  omega

/-- Zeroing the checksum does not change what the handlers read. -/
@[simp] theorem ofHdrs_setCksum (iphdr tcphdr : Ptr) (v : BitVec 16) :
    Segment.ofHdrs iphdr (TcpHdr.setCksum tcphdr v) = Segment.ofHdrs iphdr tcphdr := by
  simp [Segment.ofHdrs, hdrlenOf]

/-- The payload of the segment in a packet buffer, as the handlers find it:
    with the checksum field cleared.  Empty if the length comes out
    negative. -/
def Mbuf.payload (m : Mbuf) : List Byte :=
  (TcpHdr.setCksum m.l4hdr 0).bytes (hdrlenOf m.l4hdr * 4) m.segment.payloadlen.toNat

@[simp] theorem length_payload (m : Mbuf) :
    m.payload.length = m.segment.payloadlen.toNat := Ptr.length_bytes ..

/-! ## Lookup and creation -/

/-- The test of the first loop of `ng_tcp_stream_search`. -/
def NgTcpStream.hasKey (t : NgTcpStream) (sip dip : BitVec 32) (sport dport : BitVec 16) :
    Bool :=
  t.sip == sip && t.dip == dip && t.sport == sport && t.dport == dport

/-- The test of the second loop. -/
def NgTcpStream.listensOn (t : NgTcpStream) (dport : BitVec 16) : Bool :=
  t.dport == dport && t.status == .listen

/-- `ng_tcp_stream_search`: an exact match first, else a listener on the
    port. -/
def ngTcpStreamSearch (tcbs : Table NgTcpStream) (sip dip : BitVec 32)
    (sport dport : BitVec 16) : Option (Addr × NgTcpStream) :=
  match tcbs.find? (·.hasKey sip dip sport dport) with
  | some found => some found
  -- the address plays no part for a listener
  | none => tcbs.find? (·.listensOn dport)

/-- `snprintf(sbufname, 32, "sndbuf%x%d", sip, sport)`. -/
def sbufname (sip : BitVec 32) (sport : BitVec 16) : RingName :=
  ['s', 'n', 'd', 'b', 'u', 'f'] ++ Nat.toDigits 16 sip.toNat ++ Nat.toDigits 10 sport.toNat

/-- `snprintf(rbufname, 32, "rcvbuf%x%d", sip, sport)`. -/
def rbufname (sip : BitVec 32) (sport : BitVec 16) : RingName :=
  ['r', 'c', 'v', 'b', 'u', 'f'] ++ Nat.toDigits 16 sip.toNat ++ Nat.toDigits 10 sport.toNat

/-- `ng_tcp_stream_create`: the block and the names of the live rings, or
    `none` when its allocation fails.  Neither ring is checked. -/
def ngTcpStreamCreate (env : Env) (s : State) (sip dip : BitVec 32)
    (sport dport : BitVec 16) : Option (NgTcpStream × List RingName) :=
  if env.malloc .synStream then
    let snd := rteRingCreate env .synSndRing (sbufname sip sport) s.ringNames
    let rcv := rteRingCreate env .synRcvRing (rbufname sip sport) snd.2
    some ({ fd := -1, dip := dip, localmac := s.gSrcMac, dport := dport, sport := sport,
            sip := sip, sndNxt := BitVec.ofNat 32 (env.rand % TCP_MAX_SEQ),
            -- `rcv_nxt` is what `rte_malloc` left there
            rcvNxt := env.staleRcvNxt, status := .listen,
            sndbuf := snd.1, rcvbuf := rcv.1 }, rcv.2)
  else none

/-! ## The handlers -/

/-- The SYN-ACK of `ng_tcp_handle_listen`. -/
def synAckFragment (syn : NgTcpStream) (seg : Segment) : NgTcpFragment :=
  { NgTcpFragment.zero with
    sport := seg.dport
    dport := seg.sport
    seqnum := syn.sndNxt
    acknum := seg.sentSeq + 1
    tcpFlags := RTE_TCP_SYN_FLAG ||| RTE_TCP_ACK_FLAG
    windows := TCP_INITIAL_WINDOW
    hdrlenOff := 0x50 }

/-- `ng_tcp_handle_listen`. -/
def ngTcpHandleListen (env : Env) (s : State) (stream : NgTcpStream) (seg : Segment) :
    Except Halt (State × List (Addr × StreamOp)) :=
  if seg.syn = true ∧ stream.status = .listen then
    match ngTcpStreamCreate env s seg.sip seg.dip seg.sport seg.dport with
    -- `LL_ADD` writes through the null pointer
    | none => .error .segv
    | some (syn, live) =>
        let b := s.tcbSet.next
        -- linked before the fragment is allocated
        let s := { s with tcbSet := s.tcbSet.add syn, ringNames := live }
        if env.malloc .synFragment then
          let fragment := synAckFragment syn seg
          match syn.sndbuf with
          | none => .error .segv
          | some r =>
              let r := r.mpEnqueue fragment
              .ok (s.setTcb b { syn with rcvNxt := fragment.acknum, sndbuf := some r.1,
                                         status := .synRcvd },
                [(b, .link (some seg)), (b, .sndPut fragment r.2)])
        -- the block stays linked, still in LISTEN
        else .ok (s, [(b, .link (some seg))])
  else .ok (s, [])

/-- `ng_tcp_handle_syn_rcvd`.  The comparison of `recv_ack` with
    `snd_nxt + 1` guards an empty block. -/
def ngTcpHandleSynRcvd (s : State) (a : Addr) (stream : NgTcpStream) (seg : Segment) :
    Except Halt (State × List (Addr × StreamOp)) :=
  if seg.ack = true ∧ stream.status = .synRcvd then
    let s := s.setTcb a { stream with status := .established }
    -- meant for the listener, but a socket bound to address 0 has this key too
    match ngTcpStreamSearch s.tcbSet 0 0 0 stream.dport with
    | none => .error .rteExit
    | some (listener, _) => .ok (s, [(listener, .signal)])
  else .ok (s, [])

/-- The fragment `ng_tcp_enqueue_recvbuffer` builds, `none` when one of its
    two allocations fails. -/
def recvFragment (env : Env) (b : SegBranch) (tcphdr : Ptr) (tcplen : Int) :
    Option NgTcpFragment :=
  let head : NgTcpFragment :=
    { NgTcpFragment.zero with
      dport := ntohs (TcpHdr.dstPort tcphdr)
      sport := ntohs (TcpHdr.srcPort tcphdr) }
  let hdrlen := hdrlenOf tcphdr
  let payloadlen := tcplen - hdrlen * 4
  if env.malloc (.recvFragment b) then
    if 0 < payloadlen then
      if env.malloc (.recvData b) then
        some { head with
          -- `payloadlen + 1` bytes, of which the last stays 0
          data := some (tcphdr.bytes (hdrlen * 4) payloadlen.toNat ++ [0])
          length := payloadlen.toNat }
      else none
    -- zero length: set to no data; negative: left as `memset` made it
    else some head
  else none

/-- `rte_ring_mp_enqueue(stream->rcvbuf, f)`. -/
def NgTcpStream.enqueueRcv (t : NgTcpStream) (f : NgTcpFragment) :
    Except Halt (NgTcpStream × Bool) :=
  match t.rcvbuf with
  | none => .error .segv
  | some r => .ok ({ t with rcvbuf := some (r.mpEnqueue f).1 }, (r.mpEnqueue f).2)

/-- `rte_ring_mp_enqueue(stream->sndbuf, f)`. -/
def NgTcpStream.enqueueSnd (t : NgTcpStream) (f : NgTcpFragment) :
    Except Halt (NgTcpStream × Bool) :=
  match t.sndbuf with
  | none => .error .segv
  | some r => .ok ({ t with sndbuf := some (r.mpEnqueue f).1 }, (r.mpEnqueue f).2)

/-- `ng_tcp_enqueue_recvbuffer`; the last component is its return value,
    which no caller looks at. -/
def ngTcpEnqueueRecvbuffer (env : Env) (b : SegBranch) (stream : NgTcpStream) (tcphdr : Ptr)
    (tcplen : Int) : Except Halt (NgTcpStream × List StreamOp × Int) :=
  match recvFragment env b tcphdr tcplen with
  | none => .ok (stream, [], -1)
  | some rfragment =>
      match stream.enqueueRcv rfragment with
      | .error h => .error h
      | .ok (stream, stored) => .ok (stream, [.rcvPut rfragment stored, .signal], 0)

/-- The acknowledgement of `ng_tcp_send_ackpkt`. -/
def ackFragment (stream : NgTcpStream) (tcphdr : Ptr) : NgTcpFragment :=
  { NgTcpFragment.zero with
    dport := TcpHdr.srcPort tcphdr
    sport := TcpHdr.dstPort tcphdr
    acknum := stream.rcvNxt
    seqnum := stream.sndNxt
    tcpFlags := RTE_TCP_ACK_FLAG
    windows := TCP_INITIAL_WINDOW
    hdrlenOff := 0x50 }

/-- `ng_tcp_send_ackpkt`. -/
def ngTcpSendAckpkt (env : Env) (b : SegBranch) (stream : NgTcpStream) (tcphdr : Ptr) :
    Except Halt (NgTcpStream × List StreamOp × Int) :=
  if env.malloc (.ackFragment b) then
    match stream.enqueueSnd (ackFragment stream tcphdr) with
    | .error h => .error h
    | .ok (stream', stored) =>
        .ok (stream', [.sndPut (ackFragment stream tcphdr) stored], 0)
  else .ok (stream, [], -1)

/-- What both blocks of `ng_tcp_handle_established` do: store the payload of
    a segment taken to be `len` bytes long, advance `rcv_nxt` by `delta`,
    take `snd_nxt` from the segment, and queue an acknowledgement. -/
def storeAndAck (env : Env) (b : SegBranch) (stream : NgTcpStream) (tcphdr : Ptr) (len : Int)
    (delta : BitVec 32) : Except Halt (NgTcpStream × List StreamOp) := do
  let (stream, ops₁, _) ← ngTcpEnqueueRecvbuffer env b stream tcphdr len
  -- also when the payload could not be stored
  let stream := { stream with
    rcvNxt := stream.rcvNxt + delta
    sndNxt := ntohl (TcpHdr.recvAck tcphdr) }
  let (stream, ops₂, _) ← ngTcpSendAckpkt env b stream tcphdr
  return (stream, ops₁ ++ ops₂)

/-- The `RTE_TCP_PSH_FLAG` block of `ng_tcp_handle_established`. -/
def handleEstablishedPsh (env : Env) (stream : NgTcpStream) (tcphdr : Ptr) (tcplen : Int) :
    Except Halt (NgTcpStream × List StreamOp) :=
  let payloadlen := tcplen - hdrlenOf tcphdr * 4
  storeAndAck env .psh stream tcphdr tcplen (BitVec.ofInt 32 payloadlen)

/-- The `RTE_TCP_FIN_FLAG` block of `ng_tcp_handle_established`.  The header
    length in words is passed where the segment's length is expected. -/
def handleEstablishedFin (env : Env) (stream : NgTcpStream) (tcphdr : Ptr) :
    Except Halt (NgTcpStream × List StreamOp) :=
  storeAndAck env .fin { stream with status := .closeWait } tcphdr (hdrlenOf tcphdr) 1

/-- `if (tcphdr->tcp_flags & flag) { block }`. -/
def ifFlag (tcphdr : Ptr) (flag : Byte)
    (block : NgTcpStream → Except Halt (NgTcpStream × List StreamOp)) (stream : NgTcpStream) :
    Except Halt (NgTcpStream × List StreamOp) :=
  if hasFlag (TcpHdr.tcpFlags tcphdr) flag then block stream else .ok (stream, [])

/-- `ng_tcp_handle_established`; its SYN and ACK blocks are empty. -/
def ngTcpHandleEstablished (env : Env) (stream : NgTcpStream) (tcphdr : Ptr) (tcplen : Int) :
    Except Halt (NgTcpStream × List StreamOp) := do
  let (stream, ops₁) ←
    ifFlag tcphdr RTE_TCP_PSH_FLAG (handleEstablishedPsh env · tcphdr tcplen) stream
  -- a segment with both flags goes through both blocks
  let (stream, ops₂) ←
    ifFlag tcphdr RTE_TCP_FIN_FLAG (handleEstablishedFin env · tcphdr) stream
  return (stream, ops₁ ++ ops₂)

/-- `ng_tcp_handle_last_ack`. -/
def ngTcpHandleLastAck (s : State) (a : Addr) (stream : NgTcpStream) (seg : Segment) :
    State × List (Addr × StreamOp) :=
  if seg.ack = true ∧ stream.status = .lastAck then
    ({ s with tcbSet := s.tcbSet.remove a
              ringNames := rteRingFree stream.rcvbuf (rteRingFree stream.sndbuf s.ringNames) },
      [(a, .unlink)])
  else (s, [])

/-! ## `ng_tcp_process` -/

/-- The checksum test of `ng_tcp_process`. -/
def tcpCksumOk (m : Mbuf) : Bool :=
  rteIpv4UdptcpCksum m.iphdr (TcpHdr.setCksum m.l4hdr 0) == TcpHdr.cksum m.l4hdr

/-- The status switch of `ng_tcp_process`.  `ng_tcp_handle_close_wait` does
    nothing, as do the client's states. -/
def dispatchSegment (env : Env) (s : State) (a : Addr) (stream : NgTcpStream)
    (iphdr tcphdr : Ptr) : Except Halt (State × List (Addr × StreamOp)) :=
  match stream.status with
  | .listen => ngTcpHandleListen env s stream (.ofHdrs iphdr tcphdr)
  | .synRcvd => ngTcpHandleSynRcvd s a stream (.ofHdrs iphdr tcphdr)
  | .established => do
      let (stream, ops) ← ngTcpHandleEstablished env stream tcphdr (tcplenOf iphdr)
      return (s.setTcb a stream, ops.map (a, ·))
  | .lastAck => .ok (ngTcpHandleLastAck s a stream (.ofHdrs iphdr tcphdr))
  | .closed | .synSent | .finWait1 | .finWait2 | .closing | .timeWait | .closeWait =>
      .ok (s, [])

/-- `ng_tcp_process`. -/
def ngTcpProcess (env : Env) (s : State) (m : Mbuf) : Except Halt (State × Out) :=
  -- the checksum field is zeroed in the buffer before the sum is taken
  let tcphdr := TcpHdr.setCksum m.l4hdr 0
  if tcpCksumOk m then
    match ngTcpStreamSearch s.tcbSet (Ipv4Hdr.srcAddr m.iphdr) (Ipv4Hdr.dstAddr m.iphdr)
        (TcpHdr.srcPort tcphdr) (TcpHdr.dstPort tcphdr) with
    | none => .ok (s, .ofRet (-2))
    | some (a, stream) => do
        let (s, ops) ← dispatchSegment env s a stream m.iphdr tcphdr
        return (s, { Out.ofRet 0 with ops := (a, .segment stream.status m.segment) :: ops })
  else .ok (s, .ofRet (-1))

end LinuxLearning.Ustack
