/-
  LinuxLearning.Tcp.Stack

  The TCP input of `tcp.c`, the stack that was written after
  `tcp_from_king.c`: `ng_tcp_stream_search`, `ng_tcp_stream_create`, the
  handlers of the status switch, and `ng_tcp_process`.  Its structures have
  the fields of those of `tcp_from_king.c` and are taken from there.

  The file uses names that it declares nowhere.  `payload_len` and the
  `payloadlen` of `ng_tcp_send_ackpkt` are read as the payload length of the
  segment; the others are fields of `Env`.
-/

import LinuxLearning.Ustack.Connection

namespace LinuxLearning.Tcp

open Lib Ustack

/-! ## State -/

/-- What is outside the state, as for `tcp_from_king.c`, and what only
    `tcp.c` depends on. -/
structure Env extends Ustack.Env where
  /-- Do the two allocations of the echo succeed? -/
  echoFragment : Bool
  echoData : Bool
  /-- The address of the IP header, cut to an `int`: `ng_tcp_process` passes
      it for `tcplen`. -/
  iphdr : BitVec 32
  /-- What `rfragment` points to in `ng_tcp_send_ackpkt`. -/
  rfragment : NgTcpFragment
  /-- `tcphdr->status == NG_TCP_STATUS_ACK_FLAG`. -/
  statusIsAck : Bool

structure State where
  tcbSet : Table NgTcpStream
  /-- The blocks that were created and that no list has. -/
  unlinked : List NgTcpStream
  /-- The names of the live rings. -/
  ringNames : List RingName
  smac : List Byte

def State.setTcb (s : State) (a : Addr) (t : NgTcpStream) : State :=
  { s with tcbSet := s.tcbSet.modify a fun _ => t }

/-! ## Lookup and creation -/

/-- `ng_tcp_stream_search`. -/
def ngTcpStreamSearch (tcbs : Table NgTcpStream) (sip dip : BitVec 32) (sport dport : BitVec 16) :
    Option (Addr × NgTcpStream) :=
  match tcbs.find? (·.hasKey sip dip sport dport) with
  | some found => some found
  | none => tcbs.find? (·.listensOn dport)

/-- The search is that of `tcp_from_king.c`. -/
theorem ngTcpStreamSearch_eq : ngTcpStreamSearch = Ustack.ngTcpStreamSearch := rfl

/-- `ng_tcp_stream_create`: the block and the names of the live rings.  Every
    block asks for the same two names, and `LL_ADD` is commented out. -/
def ngTcpStreamCreate (env : Env) (s : State) (sip dip : BitVec 32) (sport dport : BitVec 16) :
    Option (NgTcpStream × List RingName) :=
  if env.malloc .synStream then
    let snd := rteRingCreate env.toEnv .synSndRing "sndbuf".toList s.ringNames
    let rcv := rteRingCreate env.toEnv .synRcvRing "rcvbuf".toList snd.2
    some ({ fd := -1, dip := dip, localmac := s.smac.take etherAddrLen, dport := dport,
            sport := sport, sip := sip, sndNxt := BitVec.ofNat 32 (env.rand % TCP_MAX_SEQ),
            rcvNxt := 0, status := .listen, sndbuf := snd.1, rcvbuf := rcv.1 }, rcv.2)
  else none

/-! ## The handlers -/

/-- The SYN-ACK of `ng_tcp_handle_listen`, with a number of the listener. -/
def synAckFragment (stream : NgTcpStream) (seg : Segment) : NgTcpFragment :=
  { NgTcpFragment.zero with
    sport := seg.dport
    dport := seg.sport
    seqnum := stream.sndNxt
    acknum := seg.sentSeq + 1
    tcpFlags := RTE_TCP_SYN_FLAG ||| RTE_TCP_ACK_FLAG
    windows := TCP_INITIAL_WINDOW
    hdrlenOff := 0x50 }

/-- `ng_tcp_handle_listen`. -/
def ngTcpHandleListen (env : Env) (s : State) (stream : NgTcpStream) (seg : Segment) :
    Except Halt State :=
  if seg.syn = true ∧ stream.status = .listen then
    -- the destination goes where the search has the source
    match ngTcpStreamCreate env s seg.dip seg.sip seg.dport seg.sport with
    | none => .ok s
    | some (syn, live) =>
        if env.malloc .synFragment then
          let fragment := synAckFragment stream seg
          match syn.sndbuf with
          | none => .error .segv
          | some r =>
              .ok { s with
                unlinked := { syn with rcvNxt := fragment.acknum, status := .synRcvd,
                                       sndbuf := some (r.mpEnqueue fragment).1 } :: s.unlinked
                ringNames := live }
        else .ok { s with unlinked := syn :: s.unlinked, ringNames := live }
  else .ok s

/-- `ng_tcp_handle_syn_rcvd`. -/
def ngTcpHandleSynRcvd (s : State) (a : Addr) (stream : NgTcpStream) (seg : Segment) :
    Except Halt State :=
  if seg.ack = true ∧ stream.status = .synRcvd then
    let s := s.setTcb a { stream with status := .established }
    match ngTcpStreamSearch s.tcbSet 0 0 0 stream.dport with
    | none => .error .rteExit
    | some _ => .ok s
  else .ok s

/-- The fragment `ng_tcp_enqueue_recvbuffer` builds, `none` when one of its
    two allocations fails. -/
def recvFragment (env : Env) (b : SegBranch) (tcphdr : Ptr) (tcplen : Int) :
    Option NgTcpFragment :=
  let head : NgTcpFragment :=
    { NgTcpFragment.zero with
      sport := TcpHdr.srcPort tcphdr
      dport := TcpHdr.dstPort tcphdr }
  let hdrlen := hdrlenOf tcphdr
  let payloadLen := tcplen - hdrlen * 4
  if env.malloc (.recvFragment b) then
    if 0 < payloadLen then
      if env.malloc (.recvData b) then
        some { head with
          data := some (tcphdr.bytes (hdrlen * 4) payloadLen.toNat ++ [0])
          length := payloadLen.toNat }
      else none
    else some head
  else none

/-- `ng_tcp_enqueue_recvbuffer`, which wakes nobody up. -/
def ngTcpEnqueueRecvbuffer (env : Env) (b : SegBranch) (stream : NgTcpStream) (tcphdr : Ptr)
    (tcplen : Int) : Except Halt NgTcpStream :=
  match recvFragment env b tcphdr tcplen with
  | none => .ok stream
  | some rfragment => (stream.enqueueRcv rfragment).map Prod.fst

/-- `ng_tcp_send_ackpkt`.  The acknowledgement is built and put nowhere; what
    goes on a ring, the receive ring, is `rfragment`. -/
def ngTcpSendAckpkt (env : Env) (b : SegBranch) (stream : NgTcpStream) (tcphdr : Ptr)
    (payloadlen : Int) : Except Halt NgTcpStream :=
  if env.malloc (.ackFragment b) then
    let stream := { stream with
      rcvNxt := stream.rcvNxt + BitVec.ofInt 32 payloadlen
      sndNxt := ntohl (TcpHdr.recvAck tcphdr) }
    (stream.enqueueRcv env.rfragment).map Prod.fst
  else .ok stream

/-- The echo of `ng_tcp_handle_established`. -/
def echoFragment (stream : NgTcpStream) (tcphdr : Ptr) (payloadLen : Int) : NgTcpFragment :=
  { NgTcpFragment.zero with
    dport := TcpHdr.srcPort tcphdr
    sport := TcpHdr.dstPort tcphdr
    acknum := stream.rcvNxt
    seqnum := stream.sndNxt
    tcpFlags := RTE_TCP_ACK_FLAG
    windows := TCP_INITIAL_WINDOW
    hdrlenOff := 0x50
    data := some (tcphdr.bytes (hdrlenOf tcphdr * 4) payloadLen.toNat ++ [0])
    length := payloadLen.toNat }

/-- The echo part of the `RTE_TCP_PSH_FLAG` block: the block, and whether the
    handler goes on behind it. -/
def sendEcho (env : Env) (stream : NgTcpStream) (tcphdr : Ptr) (payloadlen payloadLen : Int) :
    Except Halt (NgTcpStream × Bool) :=
  if env.echoFragment then
    let stream := { stream with
      rcvNxt := stream.rcvNxt + BitVec.ofInt 32 payloadlen
      sndNxt := ntohl (TcpHdr.recvAck tcphdr) }
    -- a negative size is a huge one, and the allocation fails, as for none
    if env.echoData = true ∧ 0 ≤ payloadLen then
      (stream.enqueueSnd (echoFragment stream tcphdr payloadLen)).map fun p => (p.1, true)
    else .ok (stream, false)
  else .ok (stream, false)

/-- The `RTE_TCP_PSH_FLAG` block of `ng_tcp_handle_established`. -/
def handleEstablishedPsh (env : Env) (stream : NgTcpStream) (iphdr tcphdr : Ptr) :
    Except Halt (NgTcpStream × Bool) := do
  let tcplen := env.iphdr.toInt
  let stream ← ngTcpEnqueueRecvbuffer env .psh stream tcphdr tcplen
  let payloadlen := tcplen - hdrlenOf tcphdr * 4
  let stream := { stream with
    rcvNxt := stream.rcvNxt + BitVec.ofInt 32 payloadlen
    sndNxt := ntohl (TcpHdr.recvAck tcphdr) }
  let stream ← ngTcpSendAckpkt env .psh stream tcphdr (Segment.ofHdrs iphdr tcphdr).payloadlen
  sendEcho env stream tcphdr payloadlen (Segment.ofHdrs iphdr tcphdr).payloadlen

/-- The `RTE_TCP_FIN_FLAG` block of `ng_tcp_handle_established`. -/
def handleEstablishedFin (env : Env) (stream : NgTcpStream) (iphdr tcphdr : Ptr) :
    Except Halt NgTcpStream := do
  let stream ← ngTcpEnqueueRecvbuffer env .fin { stream with status := .closeWait } tcphdr
    (hdrlenOf tcphdr)
  let stream := { stream with
    rcvNxt := stream.rcvNxt + 1
    sndNxt := ntohl (TcpHdr.recvAck tcphdr) }
  ngTcpSendAckpkt env .fin stream tcphdr (Segment.ofHdrs iphdr tcphdr).payloadlen

/-- `ng_tcp_handle_established`. -/
def ngTcpHandleEstablished (env : Env) (stream : NgTcpStream) (iphdr tcphdr : Ptr) :
    Except Halt NgTcpStream := do
  let (stream, goesOn) ←
    if hasFlag (TcpHdr.tcpFlags tcphdr) RTE_TCP_PSH_FLAG then
      handleEstablishedPsh env stream iphdr tcphdr
    else .ok (stream, true)
  if goesOn = true ∧ hasFlag (TcpHdr.tcpFlags tcphdr) RTE_TCP_FIN_FLAG = true then
    handleEstablishedFin env stream iphdr tcphdr
  else .ok stream

/-- `ng_tcp_handle_last_ack`. -/
def ngTcpHandleLastAck (env : Env) (s : State) (a : Addr) (stream : NgTcpStream) : State :=
  if env.statusIsAck = true ∧ stream.status = .lastAck then
    { s with tcbSet := s.tcbSet.remove a
             ringNames := rteRingFree stream.rcvbuf (rteRingFree stream.sndbuf s.ringNames) }
  else s

/-! ## `ng_tcp_process` -/

/-- The status switch of `ng_tcp_process`. -/
def dispatchSegment (env : Env) (s : State) (a : Addr) (stream : NgTcpStream)
    (iphdr tcphdr : Ptr) : Except Halt State :=
  match stream.status with
  | .listen => ngTcpHandleListen env s stream (.ofHdrs iphdr tcphdr)
  | .synRcvd => ngTcpHandleSynRcvd s a stream (.ofHdrs iphdr tcphdr)
  | .established => (ngTcpHandleEstablished env stream iphdr tcphdr).map (s.setTcb a)
  | .lastAck => .ok (ngTcpHandleLastAck env s a stream)
  | .closed | .synSent | .finWait1 | .finWait2 | .closing | .timeWait | .closeWait => .ok s

/-- `ng_tcp_process`; its checksum test is that of `tcp_from_king.c`. -/
def ngTcpProcess (env : Env) (s : State) (m : Mbuf) : Except Halt (State × Int) :=
  let tcphdr := TcpHdr.setCksum m.l4hdr 0
  if tcpCksumOk m then
    match ngTcpStreamSearch s.tcbSet (Ipv4Hdr.srcAddr m.iphdr) (Ipv4Hdr.dstAddr m.iphdr)
        (TcpHdr.srcPort tcphdr) (TcpHdr.dstPort tcphdr) with
    | none => .ok (s, -2)
    | some (a, stream) => (dispatchSegment env s a stream m.iphdr tcphdr).map (·, 0)
  else .ok (s, -1)

end LinuxLearning.Tcp
