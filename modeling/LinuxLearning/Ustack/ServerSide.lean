/-
  LinuxLearning.Ustack.ServerSide

  A connection as the server is to have it while the peer opens it and sends
  data: a small machine over segments, and the block in `tcb_set` that shows
  its state.  `ng_tcp_process` follows the machine as long as its allocations
  succeed and the receive ring has room.
-/

import LinuxLearning.Ustack.Demultiplexing
import LinuxLearning.Ustack.Reception

namespace LinuxLearning.Ustack

open Lib

/-! ## The connection -/

/-- A passively opened connection.  `isn` is the number of the server's SYN,
    `received` what each data segment carried. -/
structure ServerConn where
  peer : Peer
  status : NgTcpStatus
  isn : BitVec 32
  rcvNxt : BitVec 32
  received : List (List Byte)

namespace ServerConn

/-- Behind the SYN. -/
def opened (syn : Segment) (isn : BitVec 32) : ServerConn where
  peer := syn.peer
  status := .synRcvd
  isn := isn
  rcvNxt := syn.sentSeq + 1
  received := []

/-- Behind the next segment of the peer: the first completes the handshake,
    the others carry data. -/
def recv (c : ServerConn) (m : Mbuf) : ServerConn :=
  if c.status = .synRcvd then { c with status := .established }
  else
    { c with rcvNxt := c.rcvNxt + BitVec.ofInt 32 m.segment.payloadlen,
             received := c.received ++ [m.payload] }

/-- The segment in `m` comes next: the acknowledgement of the SYN-ACK, or
    data in order. -/
structure Expects (c : ServerConn) (m : Mbuf) : Prop where
  cksum : tcpCksumOk m = true
  peer : m.segment.peer = c.peer
  sentSeq : m.segment.sentSeq = c.rcvNxt
  no_syn : m.segment.syn = false
  no_fin : m.segment.fin = false
  handshake : c.status = .synRcvd → m.segment.ack = true ∧ m.segment.recvAck = c.isn + 1
  data : c.status = .established → m.segment.psh = true ∧ 0 < m.segment.payloadlen

/-- The segments come one after the other. -/
def Follow : ServerConn → List Mbuf → Prop
  | _, [] => True
  | c, m :: ms => c.Expects m ∧ (c.recv m).Follow ms

/-- The block is that of the connection. -/
structure Describes (c : ServerConn) (t : NgTcpStream) : Prop where
  peer : t.peer = c.peer
  status : t.status = c.status
  rcvNxt : t.rcvNxt = c.rcvNxt
  sndNxt : c.status = .synRcvd → t.sndNxt = c.isn
  synAck : ∃ f rest, t.sndItems = f :: rest ∧
    f.tcpFlags = RTE_TCP_SYN_FLAG ||| RTE_TCP_ACK_FLAG ∧ f.seqnum = c.isn
  received : t.rcvItems.map NgTcpFragment.payload = c.received

/-- One block was linked between `before` and `after`, that of the
    connection. -/
def Shows (c : ServerConn) (before after : Table NgTcpStream) : Prop :=
  ∃ a t, before.get? a = none ∧ after.get? a = some t ∧ c.Describes t ∧
    ∀ b u, after.get? b = some u → before.get? b = none → b = a

end ServerConn

/-! ## `ng_tcp_process` follows the connection -/

variable {env : Env} {s s₀ s' : State} {m : Mbuf} {c : ServerConn} {a : Addr} {t : NgTcpStream}

/-- `ng_tcp_process` with the block it found. -/
theorem ngTcpProcess_of_finds (hf : s.Finds m a t) :
    ngTcpProcess env s m =
      (dispatchSegment env s a t m.iphdr (TcpHdr.setCksum m.l4hdr 0)).map fun r =>
        (r.1, { Out.ofRet 0 with ops := (a, .segment t.status m.segment) :: r.2 }) := by
  obtain ⟨hcksum, hsearch⟩ := State.finds_iff.mp hf
  have hsearch' : ngTcpStreamSearch s.tcbSet (Ipv4Hdr.srcAddr m.iphdr) (Ipv4Hdr.dstAddr m.iphdr)
      (TcpHdr.srcPort m.l4hdr) (TcpHdr.dstPort m.l4hdr) = some (a, t) := hsearch
  simp only [ngTcpProcess, srcPort_setCksum, dstPort_setCksum, hcksum, if_true, hsearch']
  cases dispatchSegment env s a t m.iphdr (TcpHdr.setCksum m.l4hdr 0) <;> rfl

/-- A listener is found for every key on its port, if nothing else is. -/
theorem search_ne_none {tcbs : Table NgTcpStream} (sip dip : BitVec 32) (sport : BitVec 16)
    {dport : BitVec 16} {l : Addr} {u : NgTcpStream} (hu : tcbs.get? l = some u)
    (hlisten : u.listensOn dport = true) :
    ngTcpStreamSearch tcbs sip dip sport dport ≠ none := by
  unfold ngTcpStreamSearch
  split
  · exact Option.some_ne_none _
  · intro hnone
    have hnot := Table.find?_eq_none_iff.mp hnone l u hu
    rw [hlisten] at hnot
    cases hnot

/-- The block at `a` was linked since `s₀`, for the connection `c`, with the
    rings it needs; the others are as they were. -/
structure ServedAt (s₀ : State) (c : ServerConn) (a : Addr) (s : State) : Prop where
  new : s₀.tcb a = none
  others : ∀ b, b ≠ a → s.tcb b = s₀.tcb b
  block : ∃ t r, s.connection c.peer = some (a, t) ∧ c.Describes t ∧ t.sndbuf.isSome = true ∧
    t.rcvbuf = some r ∧ r.queue.capacity = RING_SIZE - 1

theorem ServedAt.shows (h : ServedAt s₀ c a s) : c.Shows s₀.tcbSet s.tcbSet := by
  obtain ⟨t, r, hconn, hdescribes, -⟩ := h.block
  refine ⟨a, t, h.new, (tcb_of_connection hconn).1, hdescribes, fun b u hu hnone => ?_⟩
  by_contra hb
  have hsame : s.tcb b = s₀.tcb b := h.others b hb
  rw [State.tcb, State.tcb, hu, hnone] at hsame
  cases hsame

/-- The found block written back keeps its place in the search. -/
theorem connection_setTcb {k : Peer} {t' : NgTcpStream} (hconn : s.connection k = some (a, t))
    (hpeer : t'.peer = t.peer) : (s.setTcb a t').connection k = some (a, t') := by
  obtain ⟨ht, hk⟩ := tcb_of_connection hconn
  have hfind : (s.tcbSet.modify a fun _ => t').find?
      (fun u => u.hasKey k.sip k.dip k.sport k.dport) =
      (s.tcbSet.find? fun u => u.hasKey k.sip k.dip k.sport k.dport).map fun n =>
        (n.1, if n.1 = a then t' else n.2) := by
    refine Table.find?_modify fun y hy => ?_
    obtain rfl := Option.some.inj (ht.symm.trans hy)
    rw [Bool.eq_iff_iff, hasKey_iff, hasKey_iff, hpeer]
  have hold : s.tcbSet.find? (fun u => u.hasKey k.sip k.dip k.sport k.dport) = some (a, t) := hconn
  have hnew : (s.setTcb a t').connection k = (s.tcbSet.modify a fun _ => t').find?
      (fun u => u.hasKey k.sip k.dip k.sport k.dport) := rfl
  rw [hnew, hfind, hold]
  simp

/-- The block at `a` is written, the others are not. -/
theorem ServedAt.setTcb {c' : ServerConn} {t' : NgTcpStream} {r : RteRing NgTcpFragment}
    (h : ServedAt s₀ c a s) (hconn : s.connection c.peer = some (a, t))
    (hpeer : c'.peer = c.peer) (hdescribes : c'.Describes t') (hsnd : t'.sndbuf.isSome = true)
    (hrcv : t'.rcvbuf = some r) (hcap : r.queue.capacity = RING_SIZE - 1) :
    ServedAt s₀ c' a (s.setTcb a t') where
  new := h.new
  others b hb := by
    rw [tcb_setTcb, if_neg hb]
    exact h.others b hb
  block := by
    refine ⟨t', r, ?_, hdescribes, hsnd, hrcv, hcap⟩
    rw [hpeer]
    refine connection_setTcb hconn ?_
    rw [hdescribes.peer, hpeer, (tcb_of_connection hconn).2]

/-! ## The three kinds of segments -/

/-- The names of the rings for the segment's sender are free. -/
def State.NamesFree (s : State) (seg : Segment) : Prop :=
  sbufname seg.sip seg.sport ∉ s.ringNames ∧ rbufname seg.sip seg.sport ∉ s.ringNames

instance (s : State) (seg : Segment) : Decidable (s.NamesFree seg) :=
  inferInstanceAs (Decidable (_ ∧ _))

/-- The block `ng_tcp_stream_create` makes when nothing fails. -/
def newStream (env : Env) (s : State) (seg : Segment) : NgTcpStream where
  fd := -1
  dip := seg.dip
  localmac := s.gSrcMac
  dport := seg.dport
  sport := seg.sport
  sip := seg.sip
  sndNxt := BitVec.ofNat 32 (env.rand % TCP_MAX_SEQ)
  rcvNxt := env.staleRcvNxt
  status := .listen
  sndbuf := some (.init (sbufname seg.sip seg.sport))
  rcvbuf := some (.init (rbufname seg.sip seg.sport))

theorem ngTcpStreamCreate_of_succeeds {seg : Segment} (henv : env.Succeeds)
    (hnames : s.NamesFree seg) :
    ngTcpStreamCreate env s seg.sip seg.dip seg.sport seg.dport =
      some (newStream env s seg,
        rbufname seg.sip seg.sport :: sbufname seg.sip seg.sport :: s.ringNames) := by
  have hne : rbufname seg.sip seg.sport ≠ sbufname seg.sip seg.sport := by
    simp [rbufname, sbufname]
  simp only [ngTcpStreamCreate, henv .synStream, if_true, rteRingCreate, henv .synSndRing,
    henv .synRcvRing, hnames.1, hnames.2, List.mem_cons, hne, or_false, Bool.true_eq_false,
    if_false]
  rfl

/-- The same block when its SYN-ACK is queued. -/
def answeredStream (env : Env) (s : State) (seg : Segment) : NgTcpStream :=
  { newStream env s seg with
    rcvNxt := seg.sentSeq + 1
    status := .synRcvd
    sndbuf := some ((RteRing.init (sbufname seg.sip seg.sport)).mpEnqueue
      (synAckFragment (newStream env s seg) seg)).1 }

theorem ngTcpHandleListen_of_succeeds {seg : Segment} (henv : env.Succeeds)
    (hnames : s.NamesFree seg) (hsyn : seg.syn = true) (hst : t.status = .listen) :
    ∃ live ops, ngTcpHandleListen env s t seg =
      .ok (State.setTcb { s with tcbSet := s.tcbSet.add (newStream env s seg), ringNames := live }
        s.tcbSet.next (answeredStream env s seg), ops) := by
  simp only [ngTcpHandleListen, hsyn, hst, and_self, if_true,
    ngTcpStreamCreate_of_succeeds henv hnames, henv .synFragment]
  exact ⟨_, _, rfl⟩

theorem describes_answeredStream (env : Env) (s : State) (seg : Segment) :
    (ServerConn.opened seg (BitVec.ofNat 32 (env.rand % TCP_MAX_SEQ))).Describes
      (answeredStream env s seg) where
  peer := rfl
  status := rfl
  rcvNxt := rfl
  sndNxt _ := rfl
  synAck := by
    have hroom : (RteRing.init (sbufname seg.sip seg.sport) : RteRing NgTcpFragment).HasRoom := by
      show 0 < RING_SIZE - 1
      decide
    exact ⟨_, [], (RteRing.mpEnqueue_of_hasRoom hroom).1, rfl, rfl⟩
  received := rfl

/-- A SYN to a listener, from a peer that has no block yet. -/
theorem servedAt_of_syn (hcksum : tcpCksumOk m = true) (hsyn : m.segment.syn = true)
    (hnew : s.connection m.segment.peer = none)
    (hlisten : ∃ l u, s.tcb l = some u ∧ u.listensOn m.segment.dport = true)
    (henv : env.Succeeds) (hnames : s.NamesFree m.segment) :
    ∃ s' o, ngTcpProcess env s m = .ok (s', o) ∧
      ServedAt s (.opened m.segment (BitVec.ofNat 32 (env.rand % TCP_MAX_SEQ))) s.tcbSet.next
        s' := by
  obtain ⟨l, u, hu, hlisten⟩ := hlisten
  -- the search ends in its second loop, with a listener
  have hkey : s.tcbSet.find? (·.hasKey m.segment.sip m.segment.dip m.segment.sport
      m.segment.dport) = none := hnew
  obtain ⟨⟨l', u'⟩, hfind⟩ : ∃ found, s.tcbSet.find? (·.listensOn m.segment.dport) = some found :=
    Option.ne_none_iff_exists'.mp fun hnone => by
      have hnot := Table.find?_eq_none_iff.mp hnone l u hu
      rw [hlisten] at hnot
      cases hnot
  have hf : s.Finds m l' u' := State.finds_iff.mpr ⟨hcksum, by rw [ngTcpStreamSearch, hkey, hfind]⟩
  have hst : u'.status = .listen :=
    (listensOn_iff.mp (Table.prop_of_find? (p := fun t : NgTcpStream =>
      t.listensOn m.segment.dport) hfind)).2
  obtain ⟨live, ops, hhandled⟩ :=
    ngTcpHandleListen_of_succeeds (t := u') henv hnames hsyn hst
  have hdispatch : dispatchSegment env s l' u' m.iphdr (TcpHdr.setCksum m.l4hdr 0) =
      ngTcpHandleListen env s u' m.segment := by
    rw [dispatchSegment, hst, ofHdrs_setCksum]
    rfl
  rw [ngTcpProcess_of_finds hf, hdispatch, hhandled]
  refine ⟨_, _, rfl, Table.get?_next .., ?_, ?_⟩
  · intro b hb
    rw [tcb_setTcb_add, if_neg hb]
  · have hadded : State.connection
        { s with tcbSet := s.tcbSet.add (newStream env s m.segment), ringNames := live }
        m.segment.peer = some (s.tcbSet.next, newStream env s m.segment) := by
      have hown : (newStream env s m.segment).hasKey m.segment.peer.sip m.segment.peer.dip
          m.segment.peer.sport m.segment.peer.dport = true := hasKey_iff.mpr rfl
      simp [State.connection, Table.find?, Table.add, hown]
    exact ⟨_, _, connection_setTcb hadded rfl, describes_answeredStream .., rfl, rfl, rfl⟩

/-- The handshake is completed; `ng_tcp_handle_syn_rcvd` looks for a listener
    to wake up and finds one. -/
theorem ServedAt.handshake (h : ServedAt s₀ c a s)
    (hlisten : ∃ l u, s₀.tcb l = some u ∧ u.listensOn c.peer.dport = true)
    (hst : c.status = .synRcvd) (hm : c.Expects m) :
    ∃ s' o, ngTcpProcess env s m = .ok (s', o) ∧ ServedAt s₀ (c.recv m) a s' := by
  obtain ⟨t, r, hconn, hdescribes, hsnd, hrcv, hcap⟩ := h.block
  obtain ⟨hack, -⟩ := hm.handshake hst
  have htst : t.status = .synRcvd := hdescribes.status.trans hst
  have hdport : t.dport = c.peer.dport := congrArg Peer.dport hdescribes.peer
  obtain ⟨l, u, hu, hlisten⟩ := hlisten
  have hla : l ≠ a := by
    rintro rfl
    rw [h.new] at hu
    cases hu
  let t' : NgTcpStream := { t with status := .established }
  have hl : (s.setTcb a t').tcb l = some u := by
    rw [tcb_setTcb, if_neg hla, h.others l hla, hu]
  obtain ⟨found, hsearch⟩ := Option.ne_none_iff_exists'.mp
    (search_ne_none 0 0 0 hl (hdport ▸ hlisten))
  have hdispatch : dispatchSegment env s a t m.iphdr (TcpHdr.setCksum m.l4hdr 0) =
      .ok (s.setTcb a t', [(found.1, .signal)]) := by
    rw [dispatchSegment, htst, ofHdrs_setCksum]
    have hack' : (Segment.ofHdrs m.iphdr m.l4hdr).ack = true := hack
    simp only [ngTcpHandleSynRcvd, hack', htst, and_self, if_true]
    rw [hsearch]
  rw [ngTcpProcess_of_finds (finds_of_connection hconn hm.cksum hm.peer), hdispatch]
  have hrecv : c.recv m = { c with status := .established } := if_pos hst
  refine ⟨_, _, rfl, h.setTcb hconn (by rw [hrecv]) ?_ hsnd hrcv hcap⟩
  rw [hrecv]
  refine ⟨hdescribes.peer, rfl, hdescribes.rcvNxt, fun hsyn => ?_, hdescribes.synAck,
    hdescribes.received⟩
  cases hsyn

theorem recv_of_established (hst : c.status = .established) :
    c.recv m = { c with
      rcvNxt := c.rcvNxt + BitVec.ofInt 32 m.segment.payloadlen,
      received := c.received ++ [m.payload] } :=
  if_neg (by simp [hst])

/-- What the PSH block does to the block of a connection, if the fragment can
    be made and stored. -/
theorem describes_of_stored {r : RteRing NgTcpFragment} {t' : NgTcpStream} {ops : List StreamOp}
    (hc : c.Describes t) (hst : c.status = .established) (henv : env.Succeeds)
    (hrcv : t.rcvbuf = some r) (hroom : r.HasRoom)
    (h : StoredAndAcked env .psh (TcpHdr.setCksum m.l4hdr 0) (tcplenOf m.iphdr)
      (BitVec.ofInt 32 m.segment.payloadlen) t ops t') :
    (c.recv m).Describes t' ∧
      ∃ r', t'.rcvbuf = some r' ∧ r'.queue.capacity = r.queue.capacity := by
  obtain ⟨f, hf⟩ : ∃ f, recvFragment env .psh (TcpHdr.setCksum m.l4hdr 0) (tcplenOf m.iphdr) =
      some f := Option.isSome_iff_exists.mp (recvFragment_isSome_iff.mpr
    ⟨henv (.recvFragment .psh), fun _ => henv (.recvData .psh)⟩)
  have hpayload : f.payload = m.payload := by
    rw [(recvFragment_payload hf).2, hdrlenOf_setCksum]
    rfl
  obtain ⟨put, ack, -, hput, hacked⟩ := h.rings
  rw [hf, hrcv] at hput
  have hrcv' : t'.rcvbuf = some (r.mpEnqueue f).1 := by
    rcases hput.cases_eq with ⟨hnone, -⟩ | ⟨f', r', hf', hr', hring, -⟩
    · cases hnone
    · obtain rfl := Option.some.inj hf'
      obtain rfl := Option.some.inj hr'
      exact hring
  refine ⟨?_, _, hrcv', RteRing.capacity_mpEnqueue ..⟩
  rw [recv_of_established hst]
  constructor
  · rw [h.fields]
    exact hc.peer
  · rw [h.fields]
    exact hc.status
  · rw [h.fields, ← hc.rcvNxt]
  · intro hsyn
    rw [hst] at hsyn
    cases hsyn
  · -- the acknowledgement goes behind the SYN-ACK
    obtain ⟨g, rest, hsnd, hg⟩ := hc.synAck
    have hsnd' : t'.sndItems = t.sndItems ++ _ := hacked.items
    exact ⟨g, _, by rw [hsnd', hsnd, List.cons_append], hg⟩
  · have hitems : r.items.map NgTcpFragment.payload = c.received := by
      rw [← hc.received, NgTcpStream.rcvItems, hrcv, ringItems_some]
    rw [NgTcpStream.rcvItems, hrcv', ringItems_some, (RteRing.mpEnqueue_of_hasRoom hroom).1,
      List.map_append, hitems, List.map_singleton, hpayload]

/-- A data segment that can be stored. -/
theorem ServedAt.data (h : ServedAt s₀ c a s) (hst : c.status = .established) (hm : c.Expects m)
    (henv : env.Succeeds) (hroom : c.received.length < RING_SIZE - 1) :
    ∃ s' o, ngTcpProcess env s m = .ok (s', o) ∧ ServedAt s₀ (c.recv m) a s' := by
  obtain ⟨t, r, hconn, hdescribes, hsnd, hrcv, hcap⟩ := h.block
  have htst : t.status = .established := hdescribes.status.trans hst
  have hrings : t.HasRings := ⟨by rw [hrcv]; rfl, hsnd⟩
  obtain ⟨t', ops, hest⟩ :=
    ngTcpHandleEstablished_returns env (TcpHdr.setCksum m.l4hdr 0) (tcplenOf m.iphdr) hrings
  have hdispatch : dispatchSegment env s a t m.iphdr (TcpHdr.setCksum m.l4hdr 0) =
      .ok (s.setTcb a t', ops.map (a, ·)) := by
    rw [dispatchSegment, htst]
    simp only [hest]
    rfl
  rw [ngTcpProcess_of_finds (finds_of_connection hconn hm.cksum hm.peer), hdispatch]
  -- only the PSH block runs
  obtain ⟨t₁, ops₁, ops₂, -, hpushed, hfinished⟩ := (ngTcpHandleEstablished_ok hest).blocks
  rw [OptBlock, hm.no_fin, if_neg (by simp)] at hfinished
  obtain ⟨rfl, -⟩ := hfinished
  rw [OptBlock, (hm.data hst).1, if_pos rfl] at hpushed
  have hroom' : r.HasRoom := by
    have hlen : r.items.length = c.received.length := by
      rw [← hdescribes.received, List.length_map, NgTcpStream.rcvItems, hrcv, ringItems_some]
    show r.items.length < r.queue.capacity
    rw [hlen, hcap]
    exact hroom
  obtain ⟨hdescribes', r', hrcv', hcap'⟩ :=
    describes_of_stored hdescribes hst henv hrcv hroom' hpushed
  exact ⟨_, _, rfl, h.setTcb hconn (by rw [recv_of_established hst]) hdescribes'
    (hpushed.hasRings hrings).2 hrcv' (hcap'.trans hcap)⟩

/-- Every segment that comes next is followed. -/
theorem ServedAt.recv (h : ServedAt s₀ c a s)
    (hlisten : ∃ l u, s₀.tcb l = some u ∧ u.listensOn c.peer.dport = true)
    (hst : c.status = .synRcvd ∨ c.status = .established) (hm : c.Expects m)
    (henv : env.Succeeds) (hroom : c.received.length < RING_SIZE - 1) :
    ∃ s' o, ngTcpProcess env s m = .ok (s', o) ∧ ServedAt s₀ (c.recv m) a s' := by
  rcases hst with hst | hst
  · exact h.handshake hlisten hst hm
  · exact h.data hst hm henv hroom

end LinuxLearning.Ustack
