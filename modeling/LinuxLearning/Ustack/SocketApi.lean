/-
  LinuxLearning.Ustack.SocketApi

  The socket calls of the application threads: `nsocket`, `nbind`,
  `nlisten`, `naccept`, `nsend`, `nrecv`, `nrecvfrom`, `nsendto`, `nclose`,
  and the descriptor lookup they share.

  A call that would wait on its condition variable answers `Halt.blocked`
  and changes nothing: the model takes the call as one step, made at the
  moment it can go through.
-/

import LinuxLearning.Ustack.TcpInput

namespace LinuxLearning.Ustack

open Lib

/-! ## Descriptors -/

/-- What `get_hostinfo_fromfd` points to.  The callers tell the two kinds
    apart by the `protocol` byte, which lies at the same offset in both. -/
inductive HostInfo where
  | localhost (a : Addr) (host : Localhost)
  | stream (a : Addr) (stream : NgTcpStream)
deriving DecidableEq, Repr

/-- A socket of either kind, by its address. -/
inductive Sock where
  | udp (a : Addr)
  | tcp (a : Addr)
deriving DecidableEq, Repr

/-- The socket a lookup points to. -/
def HostInfo.sock : HostInfo → Sock
  | .localhost a _ => .udp a
  | .stream a _ => .tcp a

/-- The control block, if it is one. -/
def HostInfo.stream? : HostInfo → Option NgTcpStream
  | .localhost _ _ => none
  | .stream _ t => some t

/-- `get_hostinfo_fromfd`: the list of UDP sockets first, then `tcb_set`. -/
def getHostinfoFromfd (s : State) (sockfd : Int) : Option HostInfo :=
  match s.lhost.find? (fun host => sockfd == host.fd) with
  | some (a, host) => some (.localhost a host)
  | none =>
      match s.tcbSet.find? (fun stream => sockfd == stream.fd) with
      | some (a, stream) => some (.stream a stream)
      | none => none

/-- `get_accept_tcb`. -/
def getAcceptTcb (s : State) (dport : BitVec 16) : Option (Addr × NgTcpStream) :=
  s.tcbSet.find? fun apt => dport == apt.dport && apt.fd == -1

/-! ## Opening and naming sockets -/

def SOCK_STREAM : Int := 1
def SOCK_DGRAM : Int := 2

/-- The two rings `nsocket` creates, and the names of the live rings; the
    first ring is freed again when the second cannot be had. -/
def socketRings (α : Type) (env : Env) (rcvName sndName : RingName)
    (live : List RingName) : Option (RteRing α × RteRing α) × List RingName :=
  match rteRingCreate env .rcvRing rcvName live with
  | (none, live) => (none, live)
  | (some rcvbuf, live) =>
      match rteRingCreate env .sndRing sndName live with
      | (none, live) => (none, rteRingFree (some rcvbuf) live)
      | (some sndbuf, live) => (some (rcvbuf, sndbuf), live)

/-- `nsocket`.  The descriptor is taken from the bitmap before anything that
    can fail, and not given back. -/
def nsocket (env : Env) (s : State) (type : Int) : State × Out :=
  -- −1 is not checked for: a socket without a descriptor is linked all the same
  let fd := (getFdFrombitmap s.fdTable).2
  let s := { s with fdTable := (getFdFrombitmap s.fdTable).1 }
  if type = SOCK_DGRAM then
    if env.malloc .localhost then
      match socketRings Offload env "recv buffer".toList "send buffer".toList s.ringNames with
      | (none, live) => ({ s with ringNames := live }, .ofRet (-1))
      | (some (rcvbuf, sndbuf), live) =>
          ({ s with
              lhost := s.lhost.add
                { fd := fd, localip := 0, localmac := List.replicate etherAddrLen 0,
                  localport := 0, sndbuf := some sndbuf, rcvbuf := some rcvbuf }
              ringNames := live }, .ofRet fd)
    else (s, .ofRet (-1))
  else if type = SOCK_STREAM then
    if env.malloc .tcpStream then
      match socketRings NgTcpFragment env "tcp recv buffer".toList "tcp send buffer".toList
          s.ringNames with
      | (none, live) => ({ s with ringNames := live }, .ofRet (-1))
      | (some (rcvbuf, sndbuf), live) =>
          ({ s with
              tcbSet := s.tcbSet.add
                { fd := fd, dip := 0, localmac := List.replicate etherAddrLen 0, dport := 0,
                  sport := 0, sip := 0, sndNxt := 0, rcvNxt := 0, status := .closed,
                  sndbuf := some sndbuf, rcvbuf := some rcvbuf }
              ringNames := live },
            { Out.ofRet fd with ops := [(s.tcbSet.next, .link none)] })
    else (s, .ofRet (-1))
  -- another type: a descriptor and no socket
  else (s, .ofRet fd)

/-- `nbind`, to the address and port of its `sockaddr_in`. -/
def nbind (s : State) (sockfd : Int) (ip : BitVec 32) (port : BitVec 16) : State × Out :=
  match getHostinfoFromfd s sockfd with
  | none => (s, .ofRet (-1))
  | some (.localhost a host) =>
      (s.setHost a { host with localport := port, localip := ip, localmac := s.gSrcMac },
        .ofRet 0)
  | some (.stream a stream) =>
      (s.setTcb a { stream with dport := port, dip := ip, localmac := s.gSrcMac,
                                status := .closed }, .ofRet 0)

/-- `nlisten`. -/
def nlisten (s : State) (sockfd : Int) : State × Out :=
  match getHostinfoFromfd s sockfd with
  | none => (s, .ofRet (-1))
  | some (.localhost _ _) => (s, .ofRet 0)
  -- whatever the status was
  | some (.stream a stream) => (s.setTcb a { stream with status := .listen }, .ofRet 0)

/-- `naccept`. -/
def naccept (s : State) (sockfd : Int) : Except Halt (State × Out) :=
  match getHostinfoFromfd s sockfd with
  | none => .ok (s, .ofRet (-1))
  | some (.localhost _ _) => .ok (s, .ofRet (-1))
  | some (.stream _ stream) =>
      match getAcceptTcb s stream.dport with
      -- `pthread_cond_wait`
      | none => .error .blocked
      | some (b, apt) =>
          let fd := (getFdFrombitmap s.fdTable).2
          let s := { s with fdTable := (getFdFrombitmap s.fdTable).1 }
          .ok (s.setTcb b { apt with fd := fd },
            { Out.ofRet fd with peer := some (apt.sip, apt.sport), ops := [(b, .accept fd)] })

/-! ## TCP data -/

/-- The fragment `nsend` queues for `buf`; its length field has 32 bits. -/
def sendFragment (stream : NgTcpStream) (buf : List Byte) : NgTcpFragment :=
  { NgTcpFragment.zero with
    dport := stream.sport
    sport := stream.dport
    acknum := stream.rcvNxt
    seqnum := stream.sndNxt
    tcpFlags := RTE_TCP_ACK_FLAG ||| RTE_TCP_PSH_FLAG
    windows := TCP_INITIAL_WINDOW
    hdrlenOff := 0x50
    data := some (buf ++ [0])
    length := buf.length % 2 ^ 32 }

/-- `nsend`; the result of the ring insertion is ignored. -/
def nsend (env : Env) (s : State) (sockfd : Int) (buf : List Byte) :
    Except Halt (State × Out) :=
  match getHostinfoFromfd s sockfd with
  | none => .ok (s, .ofRet (-1))
  | some (.localhost _ _) => .ok (s, .ofRet 0)
  | some (.stream a stream) =>
      if env.malloc .sendFragment = false then .ok (s, .ofRet (-2))
      -- `rte_free(fragment)`
      else if env.malloc .sendData = false then .ok (s, .ofRet (-1))
      else
        let fragment := sendFragment stream buf
        match stream.enqueueSnd fragment with
        | .error h => .error h
        | .ok (stream, stored) =>
            .ok (s.setTcb a stream,
              { Out.ofRet fragment.length with ops := [(a, .sndPut fragment stored)] })

/-- A fragment after `nrecv` took `len` of its bytes: the rest is moved to
    the front of its data. -/
def NgTcpFragment.shift (f : NgTcpFragment) (data : List Byte) (len : Nat) : NgTcpFragment :=
  let rest := f.length - len
  { f with data := some ((data.drop len).take rest ++ data.drop rest), length := rest }

/-- The body of `nrecv`, on the control block of its descriptor: the block
    and what was done to it, the bytes written to the caller's buffer of
    `len` bytes, and the return value. -/
def nrecvStream (stream : NgTcpStream) (len : Nat) :
    Except Halt (NgTcpStream × List StreamOp × List Byte × Int) :=
  match stream.rcvbuf with
  | none => .error .segv
  | some r =>
      match r.mcDequeue with
      -- `pthread_cond_wait`
      | none => .error .blocked
      | some (fragment, r) =>
          if fragment.length > len then
            match fragment.data with
            | none => .error .segv
            | some data =>
                -- the return value is `length` after it was reduced
                let rest := fragment.shift data len
                let r := r.mpEnqueue rest
                .ok ({ stream with rcvbuf := some r.1 },
                  [.rcvGet fragment, .rcvRequeue rest r.2], data.take len, rest.length)
          -- a fragment without payload: the end of the stream
          else if fragment.length = 0 then
            .ok ({ stream with rcvbuf := some r }, [.rcvGet fragment], [], 0)
          else
            match fragment.data with
            | none => .error .segv
            | some data =>
                .ok ({ stream with rcvbuf := some r }, [.rcvGet fragment],
                  data.take fragment.length, fragment.length)

/-- `nrecv` with a buffer of `len` bytes. -/
def nrecv (s : State) (sockfd : Int) (len : Nat) : Except Halt (State × Out) :=
  match getHostinfoFromfd s sockfd with
  | none => .ok (s, .ofRet (-1))
  | some (.localhost _ _) => .ok (s, .ofRet 0)
  | some (.stream a stream) =>
      match nrecvStream stream len with
      | .error h => .error h
      | .ok (stream, ops, buf, ret) =>
          .ok (s.setTcb a stream, { Out.ofRet ret with buf := buf, ops := ops.map (a, ·) })

/-! ## UDP data -/

/-- What a copy out of an offload's data sees: the heap behind the
    allocation once it runs past its end. -/
def Offload.read (ol : Offload) (heap : Ptr) (off n : Nat) : List Byte :=
  (List.range n).map fun i => ol.data.getD (off + i) (heap (off + i - ol.data.length))

/-- `nrecvfrom` with a buffer of `len` bytes.  It does not check the kind of
    socket: of a TCP control block it takes other fields for the ring. -/
def nrecvfrom (env : Env) (s : State) (sockfd : Int) (len : Nat) : Except Halt (State × Out) :=
  match getHostinfoFromfd s sockfd with
  | none => .ok (s, .ofRet (-1))
  | some (.stream _ _) => .error .segv
  | some (.localhost a host) =>
      match host.rcvbuf with
      | none => .error .segv
      | some r =>
          match r.mcDequeue with
          -- `pthread_cond_wait`
          | none => .error .blocked
          | some (ol, r) =>
              if len < ol.length.toNat then
                -- the new buffer is not checked before the copy
                if env.malloc .recvfromRest = false then .error .segv
                else
                  let rest := { ol with
                    data := ol.read env.staleHeap len (ol.length.toNat - len)
                    length := ol.length - BitVec.ofNat 16 len }
                  .ok (s.setHost a { host with rcvbuf := some (r.mpEnqueue rest).1 },
                    { Out.ofRet len with
                      buf := ol.read env.staleHeap 0 len
                      peer := some (ol.sip, ol.sport) })
              else
                .ok (s.setHost a { host with rcvbuf := some r },
                  { Out.ofRet ol.length.toNat with
                    buf := ol.read env.staleHeap 0 ol.length.toNat
                    peer := some (ol.sip, ol.sport) })

/-- `nsendto`, to the address and port of its `sockaddr_in`.  `rte_malloc`
    of no bytes fails. -/
def nsendto (env : Env) (s : State) (sockfd : Int) (buf : List Byte) (ip : BitVec 32)
    (port : BitVec 16) : Except Halt (State × Out) :=
  match getHostinfoFromfd s sockfd with
  | none => .ok (s, .ofRet (-1))
  | some info =>
      if env.malloc .sendtoOffload = false then .ok (s, .ofRet (-1))
      else if env.malloc .sendtoData = false ∨ buf.length = 0 then .ok (s, .ofRet (-1))
      else
        match info with
        | .stream _ _ => .error .segv
        | .localhost a host =>
            match host.sndbuf with
            | none => .error .segv
            | some r =>
                let ol : Offload :=
                  { sip := host.localip, dip := ip, sport := host.localport, dport := port,
                    data := buf, length := BitVec.ofNat 16 buf.length }
                .ok (s.setHost a { host with sndbuf := some (r.mpEnqueue ol).1 },
                  .ofRet buf.length)

/-! ## Closing -/

/-- The FIN fragment of `nclose`, which is not cleared after its
    allocation. -/
def finFragment (env : Env) (stream : NgTcpStream) : NgTcpFragment where
  sport := stream.dport
  dport := stream.sport
  seqnum := stream.sndNxt
  acknum := stream.rcvNxt
  hdrlenOff := 0x50
  tcpFlags := RTE_TCP_FIN_FLAG ||| RTE_TCP_ACK_FLAG
  windows := TCP_INITIAL_WINDOW
  tcpUrp := env.staleTcpUrp
  optlen := env.staleOptlen
  data := none
  length := 0

/-- `nclose`. -/
def nclose (env : Env) (s : State) (fd : Int) : Except Halt (State × Out) :=
  match getHostinfoFromfd s fd with
  | none => .ok (s, .ofRet (-1))
  | some (.localhost a host) =>
      .ok ({ s with
              lhost := s.lhost.remove a
              ringNames := rteRingFree host.sndbuf (rteRingFree host.rcvbuf s.ringNames)
              fdTable := (setFdFrombitmap s.fdTable fd).1 }, .ofRet 0)
  | some (.stream a stream) =>
      if stream.status ≠ .listen then
        if env.malloc .closeFragment = false then .ok (s, .ofRet (-1))
        else
          let fragment := finFragment env stream
          match stream.enqueueSnd fragment with
          | .error h => .error h
          | .ok (stream, stored) =>
              .ok ({ s.setTcb a { stream with status := .lastAck } with
                      fdTable := (setFdFrombitmap s.fdTable fd).1 },
                { Out.ofRet 0 with ops := [(a, .sndPut fragment stored)] })
      -- the rings stay allocated and the descriptor stays taken
      else .ok ({ s with tcbSet := s.tcbSet.remove a },
        { Out.ofRet 0 with ops := [(a, .unlink)] })

/-! ## The servers -/

/-- What `tcp_server_entry` does before it accepts: `nsocket`, `nbind` and
    `nlisten`. -/
def tcpServerSetup (env : Env) (s : State) (ip : BitVec 32) (port : BitVec 16) : State :=
  let listenfd := (nsocket env s SOCK_STREAM).2.ret
  let s := (nsocket env s SOCK_STREAM).1
  let s := (nbind s listenfd ip port).1
  (nlisten s listenfd).1

/-- What `udp_server_entry` does before it receives: `nsocket` and `nbind`. -/
def udpServerSetup (env : Env) (s : State) (ip : BitVec 32) (port : BitVec 16) : State :=
  let connfd := (nsocket env s SOCK_DGRAM).2.ret
  let s := (nsocket env s SOCK_DGRAM).1
  (nbind s connfd ip port).1

end LinuxLearning.Ustack
