/-
  LinuxLearning.Ustack.State

  The data model of `tcp_from_king.c`: rings, fragments, offloads, the two
  kinds of sockets with the lists they are linked on, the file-descriptor
  bitmap and the ARP table, and the outcomes a call can have.

  What the environment decides during one call (which allocations succeed,
  what `rand_r` returns, what freshly allocated memory holds) is the `Env`
  argument of the call.  What a call does to a ring or a list is reported in
  its `Out`, so that a run's history says everything the claims about it
  need.
-/

import LinuxLearning.Lib.BoundedQueue
import LinuxLearning.Lib.Table
import LinuxLearning.Ustack.Memory

namespace LinuxLearning.Ustack

open Lib

/-! ## Outcomes and environment -/

/-- How a call can fail to return. -/
inductive Halt where
  /-- An access through an invalid pointer. -/
  | segv
  /-- `rte_exit`. -/
  | rteExit
  /-- The call waits on its condition variable. -/
  | blocked
deriving DecidableEq, Repr

/-- The two branches of `ng_tcp_handle_established` that allocate. -/
inductive SegBranch where
  | psh
  | fin
deriving DecidableEq, Repr

/-- The allocations of the modelled functions, one name per call site
    (`rte_malloc`, the memory of `rte_ring_create`, `rte_pktmbuf_alloc`). -/
inductive AllocSite where
  | localhost
  | tcpStream
  | rcvRing
  | sndRing
  | synStream
  | synSndRing
  | synRcvRing
  | synFragment
  | recvFragment (b : SegBranch)
  | recvData (b : SegBranch)
  | ackFragment (b : SegBranch)
  | sendFragment
  | sendData
  | closeFragment
  | arpEntry
  | mbuf
  | udpOffload
  | udpData
  | sendtoOffload
  | sendtoData
  | recvfromRest
deriving DecidableEq, Repr

/-- What the environment decides during one call. -/
structure Env where
  /-- Does the allocation at this site succeed? -/
  malloc : AllocSite → Bool
  /-- What `rand_r` returns. -/
  rand : Nat
  /-- `rcv_nxt` of a stream allocated by `ng_tcp_stream_create`, which does
      not clear it. -/
  staleRcvNxt : BitVec 32
  /-- `optlen` and `tcp_urp` of the fragment allocated by `nclose`, which
      does not clear them either. -/
  staleOptlen : BitVec 32
  staleTcpUrp : BitVec 16
  /-- The heap behind an offload's data. -/
  staleHeap : Ptr

/-- Every allocation of the call succeeds. -/
def Env.Succeeds (env : Env) : Prop := ∀ site, env.malloc site = true

/-! ## Rings -/

/-- A ring's name: the characters `snprintf` produced. -/
abbrev RingName := List Char

def RING_SIZE : Nat := 1024

/-- An `rte_ring` of `RING_SIZE` slots, of which one stays free. -/
structure RteRing (α : Type) where
  name : RingName
  queue : BoundedQueue α
deriving DecidableEq, Repr

namespace RteRing

variable {α : Type}

/-- The objects on the ring, oldest first. -/
def items (r : RteRing α) : List α := r.queue.items

/-- A ring of the given name as `rte_ring_init` leaves it. -/
def init (name : RingName) : RteRing α where
  name := name
  queue := .empty (RING_SIZE - 1)

@[simp] theorem items_init (name : RingName) : (init name : RteRing α).items = [] := rfl

/-- `rte_ring_mp_enqueue`: the new ring and whether the object was stored;
    a full ring stores nothing (`-ENOBUFS`). -/
def mpEnqueue (r : RteRing α) (x : α) : RteRing α × Bool :=
  match r.queue.push? x with
  | some q => ({ r with queue := q }, true)
  | none => (r, false)

/-- `rte_ring_mc_dequeue`: `none` when the ring is empty. -/
def mcDequeue (r : RteRing α) : Option (α × RteRing α) :=
  match r.queue.pop? with
  | some (x, q) => some (x, { r with queue := q })
  | none => none

/-- Room for one more object. -/
def HasRoom (r : RteRing α) : Prop := r.queue.HasRoom

instance (r : RteRing α) : Decidable r.HasRoom :=
  inferInstanceAs (Decidable r.queue.HasRoom)

theorem mpEnqueue_of_hasRoom {r : RteRing α} {x : α} (h : r.HasRoom) :
    (r.mpEnqueue x).1.items = r.items ++ [x] ∧ (r.mpEnqueue x).2 = true := by
  unfold mpEnqueue
  cases hq : r.queue.push? x with
  | none => exact absurd h (BoundedQueue.push?_eq_none_iff.mp hq)
  | some q =>
      obtain ⟨-, hitems, -⟩ := BoundedQueue.push?_eq_some_iff.mp hq
      exact ⟨hitems, rfl⟩

theorem mpEnqueue_of_full {r : RteRing α} {x : α} (h : ¬ r.HasRoom) :
    r.mpEnqueue x = (r, false) := by
  unfold mpEnqueue
  rw [BoundedQueue.push?_eq_none_iff.mpr h]

theorem capacity_mpEnqueue (r : RteRing α) (x : α) :
    (r.mpEnqueue x).1.queue.capacity = r.queue.capacity := by
  unfold mpEnqueue
  cases hq : r.queue.push? x with
  | none => rfl
  | some q => exact (BoundedQueue.push?_eq_some_iff.mp hq).2.2

/-- What is on the ring afterwards: the object too, if it was stored. -/
theorem items_mpEnqueue (r : RteRing α) (x : α) :
    (r.mpEnqueue x).1.items = r.items ++ (if (r.mpEnqueue x).2 then [x] else []) := by
  by_cases h : r.HasRoom
  · obtain ⟨hitems, hstored⟩ := mpEnqueue_of_hasRoom (x := x) h
    rw [hitems, hstored, if_pos rfl]
  · rw [mpEnqueue_of_full h]
    simp

theorem mcDequeue_eq_some {r r' : RteRing α} {x : α} (h : r.mcDequeue = some (x, r')) :
    r.items = x :: r'.items ∧ r'.HasRoom := by
  unfold mcDequeue at h
  cases hq : r.queue.pop? with
  | none => simp [hq] at h
  | some n =>
      obtain ⟨y, q⟩ := n
      obtain ⟨rfl, rfl⟩ : y = x ∧ { r with queue := q } = r' := by simpa [hq] using h
      exact ⟨(BoundedQueue.pop?_eq_some_iff.mp hq).1, BoundedQueue.hasRoom_of_pop? hq⟩

theorem mcDequeue_eq_none_iff {r : RteRing α} : r.mcDequeue = none ↔ r.items = [] := by
  unfold mcDequeue items
  rw [← BoundedQueue.pop?_eq_none_iff]
  cases r.queue.pop? <;> simp

/-- The ring with `f` applied to every object. -/
def map {β : Type} (f : α → β) (r : RteRing α) : RteRing β where
  name := r.name
  queue := r.queue.map f

theorem map_congr {β : Type} {r : RteRing α} {f g : α → β} (h : ∀ x ∈ r.items, f x = g x) :
    r.map f = r.map g :=
  congrArg (RteRing.mk r.name) (BoundedQueue.map_congr h)

theorem mpEnqueue_map {β : Type} (f : α → β) (r : RteRing α) (x : α) :
    ((r.map f).mpEnqueue (f x)).1 = (r.mpEnqueue x).1.map f := by
  unfold mpEnqueue
  rw [map, BoundedQueue.push?_map]
  cases r.queue.push? x <;> rfl

theorem mcDequeue_map {β : Type} (f : α → β) (r : RteRing α) :
    (r.map f).mcDequeue = r.mcDequeue.map (Prod.map f (map f)) := by
  unfold mcDequeue
  rw [map, BoundedQueue.pop?_map]
  cases r.queue.pop? <;> rfl

end RteRing

/-- `rte_ring_create`: `none` if a live ring has the name already or the
    memory is not to be had.  Also returns the names of the live rings. -/
def rteRingCreate {α : Type} (env : Env) (site : AllocSite) (name : RingName)
    (live : List RingName) : Option (RteRing α) × List RingName :=
  if name ∈ live ∨ env.malloc site = false then (none, live)
  else (some (.init name), name :: live)

/-- `rte_ring_free`, which ignores a null pointer. -/
def rteRingFree {α : Type} (ring : Option (RteRing α)) (live : List RingName) :
    List RingName :=
  match ring with
  | none => live
  | some r => live.erase r.name

/-! ## TCP control blocks -/

/-- `NG_TCP_STATUS`. -/
inductive NgTcpStatus where
  | closed
  | listen
  | synRcvd
  | synSent
  | established
  | finWait1
  | finWait2
  | closing
  | timeWait
  | closeWait
  | lastAck
deriving DecidableEq, Repr

/-- `struct ng_tcp_fragment`; `data` is `none` for a null pointer.  Its
    fields `cksum` and `option` are never read. -/
structure NgTcpFragment where
  sport : BitVec 16
  dport : BitVec 16
  seqnum : BitVec 32
  acknum : BitVec 32
  hdrlenOff : Byte
  tcpFlags : Byte
  windows : BitVec 16
  tcpUrp : BitVec 16
  optlen : BitVec 32
  data : Option (List Byte)
  length : Nat
deriving DecidableEq, Repr

/-- The fragment `memset` leaves: all fields zero. -/
def NgTcpFragment.zero : NgTcpFragment where
  sport := 0
  dport := 0
  seqnum := 0
  acknum := 0
  hdrlenOff := 0
  tcpFlags := 0
  windows := 0
  tcpUrp := 0
  optlen := 0
  data := none
  length := 0

/-- The bytes a fragment carries: the first `length` of its data. -/
def NgTcpFragment.payload (f : NgTcpFragment) : List Byte :=
  (f.data.getD []).take f.length

/-- `struct ng_tcp_stream`; its `protocol` is always `IPPROTO_TCP`. -/
structure NgTcpStream where
  fd : Int
  dip : BitVec 32
  localmac : List Byte
  dport : BitVec 16
  sport : BitVec 16
  sip : BitVec 32
  sndNxt : BitVec 32
  rcvNxt : BitVec 32
  status : NgTcpStatus
  sndbuf : Option (RteRing NgTcpFragment)
  rcvbuf : Option (RteRing NgTcpFragment)
deriving DecidableEq, Repr

/-! ## UDP sockets -/

/-- `struct offload`; its `protocol` is written and never read. -/
structure Offload where
  sip : BitVec 32
  dip : BitVec 32
  sport : BitVec 16
  dport : BitVec 16
  data : List Byte
  length : BitVec 16
deriving DecidableEq, Repr

/-- `struct localhost`; its `protocol` is always `IPPROTO_UDP`. -/
structure Localhost where
  fd : Int
  localip : BitVec 32
  localmac : List Byte
  localport : BitVec 16
  sndbuf : Option (RteRing Offload)
  rcvbuf : Option (RteRing Offload)
deriving DecidableEq, Repr

def Localhost.protocol (_ : Localhost) : Byte := IPPROTO_UDP

/-! ## The file-descriptor bitmap -/

def DEFAULT_FD_NUM : Nat := 3
def MAX_FD_COUNT : Nat := 1024

/-- `fd_table`. -/
abbrev FdTable := Fin MAX_FD_COUNT → Byte

namespace FdTable

/-- The byte that holds the bit of `fd`. -/
def slot (fd : Nat) (h : fd < MAX_FD_COUNT) : Fin MAX_FD_COUNT :=
  ⟨fd / 8, Nat.lt_of_le_of_lt (Nat.div_le_self _ _) h⟩

/-- `0x1 << (fd % 8)`. -/
def mask (fd : Nat) : Byte := 1#8 <<< (fd % 8)

/-- The search of `get_fd_frombitmap` from `fd` on, for `n` more numbers. -/
def search (t : FdTable) : Nat → Nat → FdTable × Int
  | 0, _ => (t, -1)
  | n + 1, fd =>
      if h : fd < MAX_FD_COUNT then
        if t (slot fd h) &&& mask fd = 0 then
          (Function.update t (slot fd h) (t (slot fd h) ||| mask fd), fd)
        else search t n (fd + 1)
      else (t, -1)

end FdTable

/-- `get_fd_frombitmap`. -/
def getFdFrombitmap (t : FdTable) : FdTable × Int :=
  t.search (MAX_FD_COUNT - DEFAULT_FD_NUM) DEFAULT_FD_NUM

/-- `set_fd_frombitmap`: releases the number.  For a negative one the shift
    count is negative too; the target takes it modulo 32, and the bit then
    lies above the byte (only −1 occurs). -/
def setFdFrombitmap (t : FdTable) (fd : Int) : FdTable × Int :=
  match fd with
  | .ofNat n =>
      if h : n < MAX_FD_COUNT then
        (Function.update t (FdTable.slot n h) (t (FdTable.slot n h) &&& ~~~FdTable.mask n), 0)
      else (t, -1)
  | .negSucc _ => (t, 0)

/-! ## The ARP table -/

/-- `struct arp_entry`; its `type` is never read. -/
structure ArpEntry where
  ip : BitVec 32
  hwaddr : List Byte
deriving DecidableEq, Repr

/-- `struct arp_table`.  Its `count` is an `int`, which this one equals as long
    as there are fewer than 2^31 entries. -/
structure ArpTable where
  entries : List ArpEntry
  count : Nat
deriving DecidableEq, Repr

namespace ArpTable

def empty : ArpTable := { entries := [], count := 0 }

/-- The walk of `ng_get_dst_macaddr`: at most `count` nodes. -/
def walk (dip : BitVec 32) : Nat → List ArpEntry → Option (List Byte)
  | 0, _ => none
  | _ + 1, [] => none
  | n + 1, e :: rest => if dip = e.ip then some e.hwaddr else walk dip n rest

/-- `ng_get_dst_macaddr`. -/
def ngGetDstMacaddr (t : ArpTable) (dip : BitVec 32) : Option (List Byte) :=
  walk dip t.count t.entries

/-- `ng_arp_entry_insert`. -/
def ngArpEntryInsert (env : Env) (t : ArpTable) (ip : BitVec 32) (mac : List Byte) :
    ArpTable × Int :=
  match t.ngGetDstMacaddr ip with
  | some _ => (t, 0)
  | none =>
      if env.malloc .arpEntry then
        ({ entries := { ip := ip, hwaddr := mac } :: t.entries, count := t.count + 1 }, 1)
      else (t, 1)

end ArpTable

/-! ## The whole stack -/

/-- The state of the stack: its global variables and what they point to. -/
structure State where
  fdTable : FdTable
  lhost : Table Localhost
  tcbSet : Table NgTcpStream
  /-- The names of the rings not freed yet. -/
  ringNames : List RingName
  arpt : ArpTable
  gSrcMac : List Byte

/-- The stack as it starts. -/
def State.init (gSrcMac : List Byte) : State where
  fdTable := fun _ => 0
  lhost := .empty
  tcbSet := .empty
  ringNames := []
  arpt := .empty
  gSrcMac := gSrcMac

/-- The TCP control block at an address, if it is linked in `tcb_set`. -/
def State.tcb (s : State) (a : Addr) : Option NgTcpStream := s.tcbSet.get? a

/-- Write a TCP control block. -/
def State.setTcb (s : State) (a : Addr) (t : NgTcpStream) : State :=
  { s with tcbSet := s.tcbSet.modify a fun _ => t }

/-- Write a UDP socket. -/
def State.setHost (s : State) (a : Addr) (h : Localhost) : State :=
  { s with lhost := s.lhost.modify a fun _ => h }

/-! ## What a call reports -/

/-- A TCP segment as the handlers see it: addresses and ports as they lie in
    the packet, numbers in host order, `tcplen` the bytes behind the IP
    header according to `total_length`, `hdrlen` the header length in words
    according to `data_off`. -/
structure Segment where
  sip : BitVec 32
  dip : BitVec 32
  sport : BitVec 16
  dport : BitVec 16
  sentSeq : BitVec 32
  recvAck : BitVec 32
  flags : Byte
  tcplen : Int
  hdrlen : Nat
deriving DecidableEq, Repr

namespace Segment

/-- `tcplen - hdrlen * 4`; negative if the header claims more than there is. -/
def payloadlen (seg : Segment) : Int := seg.tcplen - seg.hdrlen * 4

def syn (seg : Segment) : Bool := hasFlag seg.flags RTE_TCP_SYN_FLAG
def ack (seg : Segment) : Bool := hasFlag seg.flags RTE_TCP_ACK_FLAG
def psh (seg : Segment) : Bool := hasFlag seg.flags RTE_TCP_PSH_FLAG
def fin (seg : Segment) : Bool := hasFlag seg.flags RTE_TCP_FIN_FLAG
def rst (seg : Segment) : Bool := hasFlag seg.flags RTE_TCP_RST_FLAG

end Segment

/-- What a call did to one TCP control block. -/
inductive StreamOp where
  /-- Linked in `tcb_set`: by `ng_tcp_handle_listen` for a SYN, or by
      `nsocket`. -/
  | link (syn : Option Segment)
  /-- Unlinked and freed. -/
  | unlink
  /-- `ng_tcp_process` found the block for a segment, in this status. -/
  | segment (status : NgTcpStatus) (seg : Segment)
  /-- Insertion of a new fragment on `sndbuf`, successful or not. -/
  | sndPut (f : NgTcpFragment) (stored : Bool)
  /-- `ng_tcp_out` dequeued the fragment and built its frame. -/
  | sent (f : NgTcpFragment)
  /-- `ng_tcp_out` dequeued the fragment and put it back. -/
  | sndRequeue (f : NgTcpFragment) (stored : Bool)
  /-- Insertion of a received fragment on `rcvbuf`, successful or not. -/
  | rcvPut (f : NgTcpFragment) (stored : Bool)
  /-- `nrecv` dequeued the fragment. -/
  | rcvGet (f : NgTcpFragment)
  /-- `nrecv` put the rest of a fragment back. -/
  | rcvRequeue (f : NgTcpFragment) (stored : Bool)
  /-- `naccept` gave the block this file descriptor. -/
  | accept (fd : Int)
  /-- `pthread_cond_signal` on the block's condition variable. -/
  | signal
deriving DecidableEq, Repr

/-- A frame built for transmission. -/
inductive Frame where
  /-- `ng_send_arp(mbuf_pool, RTE_ARP_OP_REQUEST, gDefaultArpMac, sip, dip)`. -/
  | arpRequest (sip dip : BitVec 32)
  /-- `ng_tcp_pkt(mbuf_pool, sip, dip, srcmac, dstmac, fragment)`. -/
  | tcp (sip dip : BitVec 32) (srcmac dstmac : List Byte) (fragment : NgTcpFragment)
  /-- `ng_udp_pkt` with the fields of the offload. -/
  | udp (srcmac dstmac : List Byte) (ol : Offload)
deriving DecidableEq, Repr

/-- What a call reports: its return value, the bytes and the peer address it
    wrote for the caller, what it did to TCP control blocks, and the frames
    it built. -/
structure Out where
  ret : Int
  buf : List Byte
  peer : Option (BitVec 32 × BitVec 16)
  ops : List (Addr × StreamOp)
  frames : List Frame
deriving DecidableEq, Repr

/-- A call that only returns a value. -/
def Out.ofRet (ret : Int) : Out where
  ret := ret
  buf := []
  peer := none
  ops := []
  frames := []

/-- The operations on the contents of one control block (a signal changes
    none). -/
def Out.opsOf (o : Out) (a : Addr) : List StreamOp :=
  o.ops.filterMap fun p => if p.1 = a ∧ p.2 ≠ .signal then some p.2 else none

end LinuxLearning.Ustack
