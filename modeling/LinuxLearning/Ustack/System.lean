/-
  LinuxLearning.Ustack.System

  The packet loop and the whole system: `udp_process`, `udp_out`,
  `ng_tcp_out`, the body of `pkt_process`, and the step function over every
  packet and every socket call.
-/

import LinuxLearning.Lib.Transition
import LinuxLearning.Ustack.SocketApi

namespace LinuxLearning.Ustack

open Lib

/-! ## UDP input -/

/-- `get_hostinfo_fromip_port`. -/
def getHostinfoFromipPort (s : State) (dip : BitVec 32) (port : BitVec 16) (proto : Byte) :
    Option (Addr × Localhost) :=
  s.lhost.find? fun host =>
    dip == host.localip && port == host.localport && proto == host.protocol

/-- `RTE_CACHE_LINE_ROUNDUP`, in `size_t`. -/
def cacheLineRoundup (size : BitVec 64) : BitVec 64 := 64 * ((size + 63) / 64)

/-- The size of the block that `rte_malloc` returns: it refuses to allocate no
    bytes, and `heap_alloc` looks for `size` rounded up to cache lines. -/
def rteMallocSize (avail : Bool) (size : BitVec 64) : Option (BitVec 64) :=
  if size = 0 ∨ avail = false then none else some (cacheLineRoundup size)

/-- `ol->length - sizeof(struct rte_udp_hdr)`, in `size_t`. -/
def udpDataSize (m : Mbuf) : BitVec 64 :=
  (ntohs (UdpHdr.dgramLen m.l4hdr)).setWidth 64 - BitVec.ofNat 64 sizeofUdpHdr

/-- The ways out of `udp_process`. -/
inductive UdpExit where
  | noHost
  | noOffload
  | noData
  /-- The copy is larger than the block, and leaves the mapped memory. -/
  | overrun
  | queued (a : Addr) (host : Localhost)
deriving DecidableEq, Repr

/-- The way `udp_process` goes. -/
def udpExit (env : Env) (s : State) (m : Mbuf) : UdpExit :=
  match getHostinfoFromipPort s (Ipv4Hdr.dstAddr m.iphdr) (UdpHdr.dstPort m.l4hdr)
      (Ipv4Hdr.nextProtoId m.iphdr) with
  | none => .noHost
  | some (a, host) =>
      if env.malloc .udpOffload = false then .noOffload
      else
        match rteMallocSize (env.malloc .udpData) (udpDataSize m) with
        | none => .noData
        | some block => if block < udpDataSize m then .overrun else .queued a host

/-- `udp_process`. -/
def udpProcess (env : Env) (s : State) (m : Mbuf) : Except Halt (State × Out) :=
  match udpExit env s m with
  | .noHost => .ok (s, .ofRet (-3))
  | .noOffload => .ok (s, .ofRet (-1))
  | .noData => .ok (s, .ofRet (-2))
  | .overrun => .error .segv
  | .queued a host =>
      match host.rcvbuf with
      | none => .error .segv
      | some r =>
          let length := ntohs (UdpHdr.dgramLen m.l4hdr)
          let ol : Offload :=
            { sip := Ipv4Hdr.srcAddr m.iphdr, dip := Ipv4Hdr.dstAddr m.iphdr
              sport := UdpHdr.srcPort m.l4hdr, dport := UdpHdr.dstPort m.l4hdr
              data := m.l4hdr.bytes sizeofUdpHdr (length.toNat - sizeofUdpHdr)
              length := length }
          -- a full ring is not noticed
          .ok (s.setHost a { host with rcvbuf := some (r.mpEnqueue ol).1 }, .ofRet 0)

section UdpExit

variable {env : Env} {s : State} {m : Mbuf}

theorem toNat_udpDataSize : (udpDataSize m).toNat =
    (2 ^ 64 + (ntohs (UdpHdr.dgramLen m.l4hdr)).toNat - sizeofUdpHdr) % 2 ^ 64 := by
  have hlt : (ntohs (UdpHdr.dgramLen m.l4hdr)).toNat < 2 ^ 16 := BitVec.isLt _
  simp only [udpDataSize, sizeofUdpHdr, BitVec.toNat_sub, BitVec.toNat_setWidth, BitVec.toNat_ofNat]
  omega

theorem udpDataSize_eq_zero_iff :
    udpDataSize m = 0 ↔ (ntohs (UdpHdr.dgramLen m.l4hdr)).toNat = sizeofUdpHdr := by
  have hlt : (ntohs (UdpHdr.dgramLen m.l4hdr)).toNat < 2 ^ 16 := BitVec.isLt _
  rw [← BitVec.toNat_inj, toNat_udpDataSize, sizeofUdpHdr, show (0 : BitVec 64).toNat = 0 from rfl]
  omega

/-- A length below the header's wraps to a size that rounds up to nothing. -/
theorem cacheLineRoundup_lt_iff : cacheLineRoundup (udpDataSize m) < udpDataSize m ↔
    (ntohs (UdpHdr.dgramLen m.l4hdr)).toNat < sizeofUdpHdr := by
  have hlt : (ntohs (UdpHdr.dgramLen m.l4hdr)).toNat < 2 ^ 16 := BitVec.isLt _
  have h63 : (63 : BitVec 64).toNat = 63 := rfl
  have h64 : (64 : BitVec 64).toNat = 64 := rfl
  rw [BitVec.lt_def, cacheLineRoundup, BitVec.toNat_mul, BitVec.toNat_udiv, BitVec.toNat_add,
    toNat_udpDataSize, h63, h64, sizeofUdpHdr]
  omega

/-- The way `udp_process` goes, by the length that the UDP header claims. -/
theorem udpExit_eq : udpExit env s m =
    match getHostinfoFromipPort s (Ipv4Hdr.dstAddr m.iphdr) (UdpHdr.dstPort m.l4hdr)
        (Ipv4Hdr.nextProtoId m.iphdr) with
    | none => .noHost
    | some (a, host) =>
        if env.malloc .udpOffload = false then .noOffload
        else if (ntohs (UdpHdr.dgramLen m.l4hdr)).toNat = sizeofUdpHdr ∨
            env.malloc .udpData = false then .noData
        else if (ntohs (UdpHdr.dgramLen m.l4hdr)).toNat < sizeofUdpHdr then .overrun
        else .queued a host := by
  unfold udpExit
  cases getHostinfoFromipPort s (Ipv4Hdr.dstAddr m.iphdr) (UdpHdr.dstPort m.l4hdr)
      (Ipv4Hdr.nextProtoId m.iphdr) with
  | none => rfl
  | some found =>
      obtain ⟨a, host⟩ := found
      simp only [rteMallocSize, udpDataSize_eq_zero_iff]
      by_cases hdata : (ntohs (UdpHdr.dgramLen m.l4hdr)).toNat = sizeofUdpHdr ∨
          env.malloc .udpData = false
      · simp only [if_pos hdata]
      · simp only [if_neg hdata, cacheLineRoundup_lt_iff]

end UdpExit

/-! ## Output -/

/-- What one turn of the loop of `udp_out` does to a socket. -/
def udpOutHost (arpt : ArpTable) (host : Localhost) : Localhost × List Frame :=
  match host.sndbuf with
  | none => (host, [])
  | some r =>
      match r.mcDequeue with
      | none => (host, [])
      | some (ol, r) =>
          match arpt.ngGetDstMacaddr ol.dip with
          -- an ARP request goes out and the datagram goes back to the tail
          | none => ({ host with sndbuf := some (r.mpEnqueue ol).1 },
              [.arpRequest ol.sip ol.dip])
          | some dstmac => ({ host with sndbuf := some r }, [.udp host.localmac dstmac ol])

/-- `udp_out`; it takes the ring without checking it, and exits when a frame
    cannot be allocated. -/
def udpOut (env : Env) (s : State) : Except Halt (State × Out) :=
  let frames := s.lhost.nodes.flatMap fun n => (udpOutHost s.arpt n.2).2
  if s.lhost.nodes.any fun n => n.2.sndbuf.isNone then .error .segv
  else if env.malloc .mbuf = false ∧ frames ≠ [] then .error .rteExit
  else .ok ({ s with lhost := s.lhost.mapNodes fun _ host => (udpOutHost s.arpt host).1 },
    { Out.ofRet 0 with frames := frames })

/-- What one turn of the loop of `ng_tcp_out` does to a control block: the
    oldest fragment becomes a frame, or goes back to the tail of the ring
    while the peer's hardware address is not known. -/
def tcpOutStream (arpt : ArpTable) (stream : NgTcpStream) :
    NgTcpStream × List StreamOp × List Frame :=
  match stream.sndbuf with
  | none => (stream, [], [])
  | some r =>
      match r.mcDequeue with
      | none => (stream, [], [])
      | some (fragment, r) =>
          match arpt.ngGetDstMacaddr stream.sip with
          | none =>
              let r := r.mpEnqueue fragment
              ({ stream with sndbuf := some r.1 }, [.sndRequeue fragment r.2],
                [.arpRequest stream.dip stream.sip])
          | some dstmac =>
              ({ stream with sndbuf := some r }, [.sent fragment],
                [.tcp stream.dip stream.sip stream.localmac dstmac fragment])

/-- `ng_tcp_out`: one turn for every control block.  It exits when a frame
    cannot be allocated. -/
def ngTcpOut (env : Env) (s : State) : Except Halt (State × Out) :=
  let frames := s.tcbSet.nodes.flatMap fun n => (tcpOutStream s.arpt n.2).2.2
  if env.malloc .mbuf = false ∧ frames ≠ [] then .error .rteExit
  else .ok ({ s with tcbSet := s.tcbSet.mapNodes fun _ t => (tcpOutStream s.arpt t).1 },
    { Out.ofRet 0 with
      ops := s.tcbSet.nodes.flatMap fun n => (tcpOutStream s.arpt n.2).2.1.map (n.1, ·)
      frames := frames })

/-! ## The packet loop -/

/-- The body of the burst loop of `pkt_process`, for one packet: learn the
    sender's hardware address, then dispatch on the protocol.  Everything
    else goes to the kernel interface and leaves the stack alone. -/
def pktProcess (env : Env) (s : State) (m : Mbuf) : Except Halt (State × Out) :=
  if EtherHdr.etherType m.data = htons RTE_ETHER_TYPE_IPV4 then
    let s := { s with arpt := (s.arpt.ngArpEntryInsert env (Ipv4Hdr.srcAddr m.iphdr)
                                (EtherHdr.sAddr m.data)).1 }
    if Ipv4Hdr.nextProtoId m.iphdr = IPPROTO_UDP then udpProcess env s m
    else if Ipv4Hdr.nextProtoId m.iphdr = IPPROTO_TCP then ngTcpProcess env s m
    else .ok (s, .ofRet 0)
  else .ok (s, .ofRet 0)

/-- The frame carries an IPv4 packet. -/
def Mbuf.IsIpv4 (m : Mbuf) : Prop := EtherHdr.etherType m.data = htons RTE_ETHER_TYPE_IPV4

/-- The packet is one of UDP. -/
def Mbuf.IsUdp (m : Mbuf) : Prop := m.IsIpv4 ∧ Ipv4Hdr.nextProtoId m.iphdr = IPPROTO_UDP

/-- The packet is one of TCP. -/
def Mbuf.IsTcp (m : Mbuf) : Prop := m.IsIpv4 ∧ Ipv4Hdr.nextProtoId m.iphdr = IPPROTO_TCP

instance (m : Mbuf) : Decidable m.IsIpv4 := inferInstanceAs (Decidable (_ = _))
instance (m : Mbuf) : Decidable m.IsUdp := inferInstanceAs (Decidable (_ ∧ _))
instance (m : Mbuf) : Decidable m.IsTcp := inferInstanceAs (Decidable (_ ∧ _))

/-- The state in which `pkt_process` dispatches a packet of IPv4. -/
def State.learnFrom (s : State) (env : Env) (m : Mbuf) : State :=
  { s with arpt := (s.arpt.ngArpEntryInsert env (Ipv4Hdr.srcAddr m.iphdr)
                      (EtherHdr.sAddr m.data)).1 }

section PktProcess

variable {env : Env} {s s' : State} {m : Mbuf} {o : Out}

theorem pktProcess_of_udp (h : m.IsUdp) :
    pktProcess env s m = udpProcess env (s.learnFrom env m) m := by
  simp only [pktProcess, if_pos (show EtherHdr.etherType m.data = _ from h.1), if_pos h.2]
  rfl

theorem pktProcess_of_tcp (h : m.IsTcp) :
    pktProcess env s m = ngTcpProcess env (s.learnFrom env m) m := by
  have hudp : Ipv4Hdr.nextProtoId m.iphdr ≠ IPPROTO_UDP := by
    rw [h.2]
    decide
  simp only [pktProcess, if_pos (show EtherHdr.etherType m.data = _ from h.1), if_neg hudp,
    if_pos h.2]
  rfl

/-- `pkt_process` hands the packet to UDP or to TCP, or does no more than to
    learn its sender. -/
theorem pktProcess_cases (h : pktProcess env s m = .ok (s', o)) :
    (m.IsUdp ∧ udpProcess env (s.learnFrom env m) m = .ok (s', o)) ∨
    (m.IsTcp ∧ ngTcpProcess env (s.learnFrom env m) m = .ok (s', o)) ∨
    (¬ m.IsUdp ∧ ¬ m.IsTcp ∧ o = .ofRet 0 ∧ s' = if m.IsIpv4 then s.learnFrom env m else s) := by
  by_cases hudp : m.IsUdp
  · exact .inl ⟨hudp, pktProcess_of_udp hudp ▸ h⟩
  · by_cases htcp : m.IsTcp
    · exact .inr (.inl ⟨htcp, pktProcess_of_tcp htcp ▸ h⟩)
    · refine .inr (.inr ⟨hudp, htcp, ?_⟩)
      by_cases hip : m.IsIpv4
      · have hnudp : Ipv4Hdr.nextProtoId m.iphdr ≠ IPPROTO_UDP := fun h => hudp ⟨hip, h⟩
        have hntcp : Ipv4Hdr.nextProtoId m.iphdr ≠ IPPROTO_TCP := fun h => htcp ⟨hip, h⟩
        simp only [pktProcess, if_pos (show EtherHdr.etherType m.data = _ from hip),
          if_neg hnudp, if_neg hntcp] at h
        obtain ⟨rfl, rfl⟩ := Prod.mk.inj (Except.ok.inj h)
        exact ⟨rfl, (if_pos hip).symm⟩
      · simp only [pktProcess, if_neg (show ¬ EtherHdr.etherType m.data = _ from hip)] at h
        obtain ⟨rfl, rfl⟩ := Prod.mk.inj (Except.ok.inj h)
        exact ⟨rfl, (if_neg hip).symm⟩

end PktProcess

/-! ## The system -/

/-- What can happen next: a packet is taken from the input ring, an output
    pass runs, or an application thread makes a call. -/
inductive Event where
  | packet (env : Env) (m : Mbuf)
  | udpOut (env : Env)
  | tcpOut (env : Env)
  | nsocket (env : Env) (type : Int)
  | nbind (fd : Int) (ip : BitVec 32) (port : BitVec 16)
  | nlisten (fd : Int)
  | naccept (fd : Int)
  | nsend (env : Env) (fd : Int) (buf : List Byte)
  | nrecv (fd : Int) (len : Nat)
  | nrecvfrom (env : Env) (fd : Int) (len : Nat)
  | nsendto (env : Env) (fd : Int) (buf : List Byte) (ip : BitVec 32) (port : BitVec 16)
  | nclose (env : Env) (fd : Int)

/-- One step of the system. -/
def step (s : State) : Event → Except Halt (State × Out)
  | .packet env m => pktProcess env s m
  | .udpOut env => Ustack.udpOut env s
  | .tcpOut env => ngTcpOut env s
  | .nsocket env type => .ok (Ustack.nsocket env s type)
  | .nbind fd ip port => .ok (Ustack.nbind s fd ip port)
  | .nlisten fd => .ok (Ustack.nlisten s fd)
  | .naccept fd => Ustack.naccept s fd
  | .nsend env fd buf => Ustack.nsend env s fd buf
  | .nrecv fd len => Ustack.nrecv s fd len
  | .nrecvfrom env fd len => Ustack.nrecvfrom env s fd len
  | .nsendto env fd buf ip port => Ustack.nsendto env s fd buf ip port
  | .nclose env fd => Ustack.nclose env s fd

/-- The calls and passes that neither open nor close anything: no packets, and
    no calls that take a descriptor or give one back. -/
def Event.isTransfer : Event → Bool
  | .packet _ _ | .nsocket _ _ | .naccept _ | .nclose _ _ => false
  | _ => true

/-- They change sockets and control blocks only. -/
theorem step_of_transfer {s s' : State} {e : Event} {o : Out} (he : e.isTransfer = true)
    (h : step s e = .ok (s', o)) :
    ∃ lhost tcbs, s' = { s with lhost := lhost, tcbSet := tcbs } := by
  cases e with
  | packet | nsocket | naccept | nclose => cases he
  | udpOut | tcpOut | nbind | nlisten | nsend | nrecv | nrecvfrom | nsendto =>
      simp only [step, Ustack.udpOut, ngTcpOut, Ustack.nbind, Ustack.nlisten, Ustack.nsend,
        Ustack.nrecv, Ustack.nrecvfrom, Ustack.nsendto] at h
      repeat' split at h
      all_goals simp only [Except.ok.injEq, Prod.mk.injEq, reduceCtorEq] at h
      all_goals obtain ⟨rfl, -⟩ := h
      all_goals exact ⟨_, _, rfl⟩

/-- The event has its step, and `P` holds of what it leads to. -/
def stepOk (s : State) (e : Event) (P : State → Out → Bool) : Bool :=
  match step s e with
  | .error _ => false
  | .ok (s', o) => P s' o

theorem step_of_stepOk {s : State} {e : Event} {P : State → Out → Bool}
    (h : stepOk s e P = true) : ∃ s' o, step s e = .ok (s', o) ∧ P s' o = true := by
  unfold stepOk at h
  cases hstep : step s e with
  | error x =>
      rw [hstep] at h
      cases h
  | ok r =>
      rw [hstep] at h
      exact ⟨r.1, r.2, rfl, h⟩

/-- The history of a run: events with what they reported, oldest first. -/
abbrev History := List (Event × Out)

/-- `hist` leads from `s₀` to `s`. -/
abbrev SystemRun (s₀ : State) (hist : History) (s : State) : Prop :=
  Run (StepsOf step) s₀ hist s

/-- A run whose steps all meet `C`. -/
abbrev GuardedRun (C : State → Event → Prop) (s₀ : State) (hist : History) (s : State) :
    Prop :=
  Run (Guarded C (StepsOf step)) s₀ hist s

/-- The operations a run made on one control block. -/
def opsOf (hist : History) (a : Addr) : List StreamOp := hist.flatMap fun en => en.2.opsOf a

/-- Every event has its step, each step meets `C`, and `P` holds of the
    history and the last state. -/
def guardedRunsTo (C : State → Event → Prop) [∀ s e, Decidable (C s e)] (s₀ : State)
    (es : List Event) (P : History → State → Bool) : Bool :=
  execsTo (guardStep C .blocked step) s₀ es P

theorem run_of_guardedRunsTo {C : State → Event → Prop} [∀ s e, Decidable (C s e)] {s₀ : State}
    {es : List Event} {P : History → State → Bool} (h : guardedRunsTo C s₀ es P = true) :
    ∃ hist s, GuardedRun C s₀ hist s ∧ P hist s = true := by
  obtain ⟨hist, s, hexec, hP⟩ := exec_of_execsTo h
  exact ⟨hist, s, guarded_of_exec hexec, hP⟩

/-- Every event has its step, and `P` holds of the history and the last
    state. -/
def runsTo (s₀ : State) (es : List Event) (P : History → State → Bool) : Bool :=
  guardedRunsTo (fun _ _ => True) s₀ es P

theorem run_of_runsTo {s₀ : State} {es : List Event} {P : History → State → Bool}
    (h : runsTo s₀ es P = true) : ∃ hist s, SystemRun s₀ hist s ∧ P hist s = true := by
  obtain ⟨hist, s, hrun, hP⟩ := run_of_guardedRunsTo h
  exact ⟨hist, s, hrun.of_guarded, hP⟩

/-- Every event has its step, so does one more, each step meets `C`, and `P`
    holds of the last. -/
def guardedStepsTo (C : State → Event → Prop) [∀ s e, Decidable (C s e)] (s₀ : State)
    (es : List Event) (e : Event) (P : State → State → Out → Bool) : Bool :=
  guardedRunsTo C s₀ es fun _ s =>
    match guardStep C .blocked step s e with
    | .error _ => false
    | .ok (s', o) => P s s' o

theorem step_of_guardedStepsTo {C : State → Event → Prop} [∀ s e, Decidable (C s e)]
    {s₀ : State} {es : List Event} {e : Event} {P : State → State → Out → Bool}
    (h : guardedStepsTo C s₀ es e P = true) :
    ∃ hist s s' o, GuardedRun C s₀ hist s ∧ Guarded C (StepsOf step) s e o s' ∧
      P s s' o = true := by
  obtain ⟨hist, s, hrun, hstep⟩ := run_of_guardedRunsTo h
  split at hstep
  · cases hstep
  · rename_i s' o heq
    exact ⟨hist, s, s', o, hrun, guarded_of_guardStep heq, hstep⟩

/-- The same without a condition. -/
def stepsTo (s₀ : State) (es : List Event) (e : Event) (P : State → State → Out → Bool) :
    Bool :=
  guardedStepsTo (fun _ _ => True) s₀ es e P

theorem step_of_stepsTo {s₀ : State} {es : List Event} {e : Event}
    {P : State → State → Out → Bool} (h : stepsTo s₀ es e P = true) :
    ∃ hist s s' o, SystemRun s₀ hist s ∧ step s e = .ok (s', o) ∧ P s s' o = true := by
  obtain ⟨hist, s, s', o, hrun, hstep, hP⟩ := step_of_guardedStepsTo h
  exact ⟨hist, s, s', o, hrun.of_guarded, hstep.2, hP⟩

end LinuxLearning.Ustack
