/-
  LinuxLearning.Ustack.Demultiplexing

  Which socket a packet is for.

  A datagram goes to the first UDP socket bound to exactly its destination;
  an address of zero is an address like any other.  A SYN goes to any
  listener on its port, whatever address that one was bound to.
-/

import LinuxLearning.Ustack.Connection
import LinuxLearning.Ustack.UdpOutput

namespace LinuxLearning.Ustack

open Lib

variable {env : Env} {s s' : State} {m : Mbuf} {o : Out} {a : Addr}

/-! ## UDP -/

/-- `nbind` gave the socket this address and port. -/
def Localhost.BoundTo (host : Localhost) (ip : BitVec 32) (port : BitVec 16) : Prop :=
  host.localip = ip ∧ host.localport = port

/-- The socket at `a` is the first one on the list that is bound to the
    address and port. -/
def State.FirstBoundTo (s : State) (ip : BitVec 32) (port : BitVec 16) (a : Addr) : Prop :=
  ∃ pre host post, s.lhost.nodes = pre ++ (a, host) :: post ∧ host.BoundTo ip port ∧
    ∀ n ∈ pre, ¬ n.2.BoundTo ip port

/-- The step from `s` to `s'` queued the datagram in `m` on the socket at
    `a`. -/
def QueuedOn (s s' : State) (m : Mbuf) (a : Addr) : Prop :=
  ∃ host host', s.localhost a = some host ∧ s'.localhost a = some host' ∧
    host'.rcvItems = host.rcvItems ++ [m.offload]

/-- Memory and ring room for the datagram in `m` can be had, and it is longer
    than its header. -/
structure CanStore (env : Env) (s : State) (m : Mbuf) : Prop where
  offload : env.malloc .udpOffload = true
  data : env.malloc .udpData = true
  length : sizeofUdpHdr < m.offload.length.toNat
  room : ∀ n ∈ s.lhost.nodes, ∃ r ∈ n.2.rcvbuf, r.HasRoom

/-- `get_hostinfo_fromip_port` finds the first socket bound to the
    destination. -/
theorem receiver_eq_some_iff (hproto : Ipv4Hdr.nextProtoId m.iphdr = IPPROTO_UDP) :
    (∃ host, s.receiver m = some (a, host)) ↔
      s.FirstBoundTo (Ipv4Hdr.dstAddr m.iphdr) (UdpHdr.dstPort m.l4hdr) a := by
  have hbound : ∀ host : Localhost,
      (Ipv4Hdr.dstAddr m.iphdr == host.localip && UdpHdr.dstPort m.l4hdr == host.localport &&
        IPPROTO_UDP == host.protocol) = true ↔
      host.BoundTo (Ipv4Hdr.dstAddr m.iphdr) (UdpHdr.dstPort m.l4hdr) := by
    intro host
    simp only [Localhost.protocol, Localhost.BoundTo, beq_self_eq_true, Bool.and_true,
      Bool.and_eq_true, beq_iff_eq]
    exact and_congr eq_comm eq_comm
  simp only [State.receiver, getHostinfoFromipPort, Table.find?, hproto,
    List.find?_eq_some_iff_append, State.FirstBoundTo]
  constructor
  · rintro ⟨host, hhost, pre, post, hnodes, hpre⟩
    refine ⟨pre, host, post, hnodes, (hbound host).mp hhost, fun n hn hb => ?_⟩
    have hnot := hpre n hn
    rw [(hbound n.2).mpr hb] at hnot
    cases hnot
  · rintro ⟨pre, host, post, hnodes, hhost, hpre⟩
    refine ⟨host, (hbound host).mpr hhost, pre, post, hnodes, fun n hn => ?_⟩
    rw [Bool.not_eq_true', ← Bool.not_eq_true]
    exact fun hb => hpre n hn ((hbound n.2).mp hb)

/-- `udp_process` returns, and has queued the datagram on the socket it found,
    if any. -/
theorem udpProcess_queues (hcan : CanStore env s m) :
    ∃ s' o, udpProcess env s m = .ok (s', o) ∧
      ∀ a, QueuedOn s s' m a ↔ ∃ host, s.receiver m = some (a, host) := by
  cases hrcv : s.receiver m with
  | none =>
      -- nobody found: the datagram is dropped and no queue changes
      refine ⟨s, .ofRet (-3), ?_, fun a => ⟨?_, nofun⟩⟩
      · unfold State.receiver at hrcv
        simp only [udpProcess, udpExit, hrcv]
      · rintro ⟨host, host', hhost, hhost', hitems⟩
        obtain rfl := Option.some.inj (hhost.symm.trans hhost')
        simp at hitems
  | some found =>
      obtain ⟨b, host⟩ := found
      have hhost := localhost_of_receiver hrcv
      obtain ⟨r, hr, hroom⟩ : ∃ r ∈ host.rcvbuf, r.HasRoom :=
        hcan.room (b, host) (Table.mem_nodes_iff.mpr hhost)
      rw [Option.mem_def] at hr
      have hput := (RteRing.mpEnqueue_of_hasRoom (x := m.offload) hroom).1
      refine ⟨s.setHost b { host with rcvbuf := some (r.mpEnqueue m.offload).1 }, .ofRet 0, ?_,
        fun a => ⟨?_, ?_⟩⟩
      · rw [udpProcess,
          udpExit_eq_queued_iff.mpr ⟨hrcv, hcan.offload, hcan.data, hcan.length⟩]
        simp only [hr]
        rfl
      · rintro ⟨h₁, h₂, hh₁, hh₂, hitems⟩
        rw [localhost_setHost] at hh₂
        -- another socket's queue is as it was
        by_cases hab : a = b
        · exact ⟨host, by rw [hab]⟩
        · rw [if_neg hab, hh₁] at hh₂
          obtain rfl := Option.some.inj hh₂
          simp at hitems
      · rintro ⟨host', heq⟩
        obtain ⟨rfl, rfl⟩ := Prod.mk.inj (Option.some.inj heq)
        refine ⟨host, _, hhost, by rw [localhost_setHost, if_pos rfl, hhost]; rfl, ?_⟩
        simp only [Localhost.rcvItems, offloadItems_some, hr, hput]

/-! ## TCP -/

/-- The step from `s` to `s'` linked a block for the sender of the segment in
    `m`. -/
def CreatesConnection (s s' : State) (m : Mbuf) : Prop :=
  ∃ a t, s.tcb a = none ∧ s'.tcb a = some t ∧ t.peer = m.segment.peer

/-- Memory for a block and for a ring can be had, and no live ring has the
    name. -/
structure CanCreate (env : Env) (s : State) (m : Mbuf) : Prop where
  stream : env.malloc .synStream = true
  sndRing : env.malloc .synSndRing = true
  name : sbufname m.segment.sip m.segment.sport ∉ s.ringNames

theorem ngTcpStreamCreate_of_can (hcan : CanCreate env s m) : ∃ syn live r,
    ngTcpStreamCreate env s m.segment.sip m.segment.dip m.segment.sport m.segment.dport =
      some (syn, live) ∧ syn.sndbuf = some r := by
  have hring : rteRingCreate (α := NgTcpFragment) env .synSndRing
      (sbufname m.segment.sip m.segment.sport) s.ringNames =
      (some (.init (sbufname m.segment.sip m.segment.sport)),
        sbufname m.segment.sip m.segment.sport :: s.ringNames) := by
    simp [rteRingCreate, hcan.name, hcan.sndRing]
  unfold ngTcpStreamCreate
  rw [if_pos hcan.stream, hring]
  exact ⟨_, _, _, rfl, rfl⟩

/-- A SYN that found a listener makes a block. -/
theorem ngTcpHandleListen_creates {t : NgTcpStream} (hsyn : m.segment.syn = true)
    (hst : t.status = .listen) (hcan : CanCreate env s m) :
    ∃ s' ops, ngTcpHandleListen env s t m.segment = .ok (s', ops) ∧
      CreatesConnection s s' m := by
  obtain ⟨syn, live, r, hcreate, hsnd⟩ := ngTcpStreamCreate_of_can hcan
  obtain ⟨⟨hsip, hdip, hsport, hdport⟩, -⟩ := ngTcpStreamCreate_ok hcreate
  have hpeer : syn.peer = m.segment.peer := by
    simp only [NgTcpStream.peer, Segment.peer, hsip, hdip, hsport, hdport]
  have hnone : s.tcb s.tcbSet.next = none := Table.get?_next ..
  have hadd : (s.tcbSet.add syn).get? s.tcbSet.next = some syn := by
    rw [Table.get?_add, if_pos rfl]
  simp only [ngTcpHandleListen, hsyn, hst, and_self, if_true, hcreate, hsnd]
  -- the block is linked whether or not the SYN-ACK can be allocated
  cases env.malloc .synFragment with
  | true =>
      refine ⟨_, _, rfl, s.tcbSet.next, ?_⟩
      rw [tcb_setTcb, if_pos rfl, State.tcb, State.tcb, hadd]
      exact ⟨_, hnone, rfl, hpeer⟩
  | false => exact ⟨_, _, rfl, s.tcbSet.next, syn, hnone, hadd, hpeer⟩

/-- A block listens on the destination port of the segment in `m`, under any
    address. -/
def State.ListensFor (s : State) (m : Mbuf) : Prop :=
  ∃ l t, s.tcb l = some t ∧ t.status = .listen ∧ t.dport = m.segment.dport

theorem listensOn_iff {t : NgTcpStream} {dport : BitVec 16} :
    t.listensOn dport = true ↔ t.dport = dport ∧ t.status = .listen := by
  rw [NgTcpStream.listensOn, Bool.and_eq_true, beq_iff_eq, beq_iff_eq]

/-- For the segment of a new peer only the second loop of the search can find
    a block. -/
theorem search_of_new_peer (hnew : ∀ a t, s.tcb a = some t → t.peer ≠ m.segment.peer) :
    ngTcpStreamSearch s.tcbSet (Ipv4Hdr.srcAddr m.iphdr) (Ipv4Hdr.dstAddr m.iphdr)
      (TcpHdr.srcPort (TcpHdr.setCksum m.l4hdr 0)) (TcpHdr.dstPort (TcpHdr.setCksum m.l4hdr 0)) =
    s.tcbSet.find? (·.listensOn m.segment.dport) := by
  have hkey : s.tcbSet.find? (·.hasKey m.segment.sip m.segment.dip m.segment.sport
      m.segment.dport) = none := by
    rw [Table.find?_eq_none_iff]
    intro a t ht
    rw [← Bool.not_eq_true]
    exact fun h => hnew a t ht (hasKey_iff.mp h)
  have hsearch : ngTcpStreamSearch s.tcbSet m.segment.sip m.segment.dip m.segment.sport
      m.segment.dport = s.tcbSet.find? (·.listensOn m.segment.dport) := by
    rw [ngTcpStreamSearch, hkey]
  rw [srcPort_setCksum, dstPort_setCksum]
  exact hsearch

theorem ngTcpProcess_creates (hcksum : tcpCksumOk m = true) (hsyn : m.segment.syn = true)
    (hnew : ∀ a t, s.tcb a = some t → t.peer ≠ m.segment.peer) (hcan : CanCreate env s m) :
    ∃ s' o, ngTcpProcess env s m = .ok (s', o) ∧
      (CreatesConnection s s' m ↔ s.ListensFor m) := by
  have hsearch := search_of_new_peer hnew
  cases hfind : s.tcbSet.find? (·.listensOn m.segment.dport) with
  | none =>
      -- the segment is dropped, and the state stays
      refine ⟨s, .ofRet (-2), ?_, iff_of_false ?_ ?_⟩
      · simp only [ngTcpProcess, hcksum, if_true, hsearch, hfind]
      · rintro ⟨a, t, hnone, hsome, -⟩
        rw [hnone] at hsome
        cases hsome
      · rintro ⟨l, t, ht, hst, hdport⟩
        have hnot := Table.find?_eq_none_iff.mp hfind l t ht
        rw [listensOn_iff.mpr ⟨hdport, hst⟩] at hnot
        cases hnot
  | some found =>
      obtain ⟨l, t⟩ := found
      have hlisten : t.listensOn m.segment.dport = true :=
        Table.prop_of_find? (p := fun t : NgTcpStream => t.listensOn m.segment.dport) hfind
      obtain ⟨hdport, hst⟩ := listensOn_iff.mp hlisten
      obtain ⟨s', ops, hhandled, hcreates⟩ := ngTcpHandleListen_creates hsyn hst hcan
      refine ⟨s', { Out.ofRet 0 with ops := (l, .segment t.status m.segment) :: ops }, ?_,
        iff_of_true hcreates ⟨l, t, Table.get?_of_find? hfind, hst, hdport⟩⟩
      simp only [ngTcpProcess, hcksum, if_true, hsearch, hfind, dispatchSegment, hst,
        ofHdrs_setCksum]
      rw [show Segment.ofHdrs m.iphdr m.l4hdr = m.segment from rfl, hhandled]
      rfl

/-! ## The law -/

/-- A datagram that can be stored is queued on the first socket bound to its
    destination and on no other.  A SYN that matches no block's ends makes a
    block, if one can be made, exactly when some block listens on its
    destination port. -/
theorem demultiplexing (env : Env) (s : State) (m : Mbuf) :
    (m.IsUdp → CanStore env s m → ∃ s' o, step s (.packet env m) = .ok (s', o) ∧
      ∀ a, QueuedOn s s' m a ↔
        s.FirstBoundTo (Ipv4Hdr.dstAddr m.iphdr) (UdpHdr.dstPort m.l4hdr) a) ∧
    (m.IsTcp → tcpCksumOk m = true → m.segment.syn = true →
      (∀ a t, s.tcb a = some t → t.peer ≠ m.segment.peer) → CanCreate env s m →
      ∃ s' o, step s (.packet env m) = .ok (s', o) ∧
        (CreatesConnection s s' m ↔ s.ListensFor m)) := by
  constructor
  · intro hudp hcan
    -- `pkt_process` updates the ARP table first, which changes none of this
    have hcan' : CanStore env (s.learnFrom env m) m :=
      ⟨hcan.offload, hcan.data, hcan.length, hcan.room⟩
    obtain ⟨s', o, hok, hqueued⟩ := udpProcess_queues hcan'
    refine ⟨s', o, (pktProcess_of_udp hudp).trans hok, fun a => ?_⟩
    exact (hqueued a).trans (receiver_eq_some_iff hudp.2)
  · intro htcp hcksum hsyn hnew hcan
    have hcan' : CanCreate env (s.learnFrom env m) m := ⟨hcan.stream, hcan.sndRing, hcan.name⟩
    have hnew' : ∀ a t, (s.learnFrom env m).tcb a = some t → t.peer ≠ m.segment.peer := hnew
    obtain ⟨s', o, hok, hcreates⟩ := ngTcpProcess_creates hcksum hsyn hnew' hcan'
    exact ⟨s', o, (pktProcess_of_tcp htcp).trans hok, hcreates⟩

/-- A UDP server on port 8889 and a TCP server on port 9999, bound to these
    addresses. -/
def bothServers (udpIp tcpIp : BitVec 32) : State :=
  tcpServerSetup .plain (udpServerSetup .plain (State.init []) udpIp (htons 8889)) tcpIp
    (htons 9999)

/-- Both servers are bound to 10.0.0.1, where the peer sends a datagram and a
    SYN. -/
theorem demultiplexing_servers :
    (∃ s' o, step (bothServers 0x0100000A 0x0100000A)
        (.packet .plain (peerDatagram 0x0100000A [7])) = .ok (s', o) ∧
      QueuedOn (bothServers 0x0100000A 0x0100000A) s' (peerDatagram 0x0100000A [7]) 0) ∧
    (∃ s' o, step (bothServers 0x0100000A 0x0100000A)
        (.packet .plain (peerSegment RTE_TCP_SYN_FLAG 500 0 [])) = .ok (s', o) ∧
      CreatesConnection (bothServers 0x0100000A 0x0100000A) s'
        (peerSegment RTE_TCP_SYN_FLAG 500 0 [])) := by
  constructor
  · have hcan : CanStore .plain (bothServers 0x0100000A 0x0100000A)
        (peerDatagram 0x0100000A [7]) := ⟨rfl, rfl, by decide +kernel, by decide +kernel⟩
    obtain ⟨s', o, hok, hqueued⟩ :=
      (demultiplexing .plain (bothServers 0x0100000A 0x0100000A) _).1 (by decide +kernel) hcan
    refine ⟨s', o, hok, (hqueued 0).mpr ⟨[], _, [], rfl, ?_, nofun⟩⟩
    exact ⟨by decide +kernel, by decide +kernel⟩
  · have hcan : CanCreate .plain (bothServers 0x0100000A 0x0100000A)
        (peerSegment RTE_TCP_SYN_FLAG 500 0 []) := ⟨rfl, rfl, by decide +kernel⟩
    have hnew : ∀ n ∈ (bothServers 0x0100000A 0x0100000A).tcbSet.nodes,
        n.2.peer ≠ (peerSegment RTE_TCP_SYN_FLAG 500 0 []).segment.peer := by
      decide +kernel
    obtain ⟨s', o, hok, hcreates⟩ :=
      (demultiplexing .plain (bothServers 0x0100000A 0x0100000A) _).2 (by decide +kernel)
        (by decide +kernel) (by decide +kernel)
        (fun a t ht => hnew (a, t) (Table.mem_nodes_iff.mpr ht)) hcan
    refine ⟨s', o, hok, hcreates.mpr ⟨0, _, rfl, ?_, ?_⟩⟩
    · decide +kernel
    · decide +kernel

/-- The UDP server is bound to INADDR_ANY, and a datagram for its port is not
    queued; the TCP server is bound to 10.0.0.9, and a SYN to 10.0.0.1 makes a
    block. -/
theorem demultiplexing_any_address :
    ((∃ host, (bothServers 0 0x0900000A).localhost 0 = some host ∧ host.BoundTo 0 (htons 8889)) ∧
      CanStore .plain (bothServers 0 0x0900000A) (peerDatagram 0x0100000A [7]) ∧
      UdpHdr.dstPort (peerDatagram 0x0100000A [7]).l4hdr = htons 8889 ∧
      ∃ s' o, step (bothServers 0 0x0900000A) (.packet .plain (peerDatagram 0x0100000A [7])) =
          .ok (s', o) ∧
        ¬ QueuedOn (bothServers 0 0x0900000A) s' (peerDatagram 0x0100000A [7]) 0) ∧
    ((∀ a t, (bothServers 0 0x0900000A).tcb a = some t → t.dip = 0x0900000A) ∧
      (peerSegment RTE_TCP_SYN_FLAG 500 0 []).segment.dip = 0x0100000A ∧
      ∃ s' o, step (bothServers 0 0x0900000A)
          (.packet .plain (peerSegment RTE_TCP_SYN_FLAG 500 0 [])) = .ok (s', o) ∧
        CreatesConnection (bothServers 0 0x0900000A) s'
          (peerSegment RTE_TCP_SYN_FLAG 500 0 [])) := by
  refine ⟨⟨⟨_, rfl, by decide +kernel, by decide +kernel⟩,
    ⟨rfl, rfl, by decide +kernel, by decide +kernel⟩, by decide +kernel, ?_⟩,
    fun a t ht => ?_, by decide +kernel, ?_⟩
  · have hstep : stepOk (bothServers 0 0x0900000A) (.packet .plain (peerDatagram 0x0100000A [7]))
        (fun s' _ => decide ((s'.localhost 0).map (·.rcvItems) = some [])) = true := by
      decide +kernel
    obtain ⟨s', o, hstep, hempty⟩ := step_of_stepOk hstep
    rw [decide_eq_true_eq] at hempty
    refine ⟨s', o, hstep, ?_⟩
    rintro ⟨host, host', -, hhost', hitems⟩
    rw [hhost', Option.map_some, Option.some.injEq, hitems] at hempty
    simp at hempty
  · have hnodes : ∀ n ∈ (bothServers 0 0x0900000A).tcbSet.nodes, n.2.dip = 0x0900000A := by
      decide +kernel
    exact hnodes (a, t) (Table.mem_nodes_iff.mpr ht)
  · have hstep : stepOk (bothServers 0 0x0900000A)
        (.packet .plain (peerSegment RTE_TCP_SYN_FLAG 500 0 []))
        (fun s' _ => decide ((s'.tcb 1).map (·.peer) =
          some (peerSegment RTE_TCP_SYN_FLAG 500 0 []).segment.peer)) = true := by
      decide +kernel
    obtain ⟨s', o, hstep, hpeer⟩ := step_of_stepOk hstep
    rw [decide_eq_true_eq] at hpeer
    obtain ⟨t, ht, hpeer⟩ := Option.map_eq_some_iff.mp hpeer
    exact ⟨s', o, hstep, 1, t, by decide +kernel, ht, hpeer⟩

end LinuxLearning.Ustack
