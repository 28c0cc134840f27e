/-
  LinuxLearning.Ustack.Crashes

  How a packet, an output pass or a call fails to return while memory lasts.

  The SYN of a peer whose ring names are taken gets a block without rings,
  one of which the handler uses at once.  The ACK that completes a handshake
  ends the process where nobody listens on the port.  `nrecvfrom` and
  `nsendto` take a TCP control block for a UDP socket.  And the calls that
  wait do so on an empty ring, or for a connection to accept.

  There is no other way, because in every run the sockets that are linked
  have both their rings, and the fragments that wait for `nrecv` have their
  data.
-/

import LinuxLearning.Ustack.ByteStream
import LinuxLearning.Ustack.ListenerWakeUp
import LinuxLearning.Ustack.RingNames
import LinuxLearning.Ustack.ServerSide

namespace LinuxLearning.Ustack

open Lib

variable {env : Env} {s s' : State} {e : Event} {m : Mbuf} {o : Out} {a : Addr}
  {t : NgTcpStream} {host : Localhost}

/-! ## Failures -/

/-- No allocation of the event fails. -/
def Event.HasMemory : Event → Prop
  | .packet env _ | .udpOut env | .tcpOut env | .nsocket env _ | .nsend env _ _
  | .nrecvfrom env _ _ | .nsendto env _ _ _ _ | .nclose env _ => env.Succeeds
  | .nbind _ _ _ | .nlisten _ | .naccept _ | .nrecv _ _ => True

/-- The ways an event fails in state `s`, with what they come to. -/
inductive Halts (s : State) : Event → Halt → Prop where
  /-- A SYN to a listener, when a live ring has its peer's digits. -/
  | synClash {env : Env} {m : Mbuf} {l : Addr} {t : NgTcpStream} :
      m.IsTcp → s.Finds m l t → t.status = .listen → m.segment.syn = true →
      sbufname m.segment.sip m.segment.sport ∈ s.ringNames → Halts s (.packet env m) .segv
  /-- The ACK that completes a handshake, when nothing on the port can be
      taken for the listener. -/
  | noListener {env : Env} {m : Mbuf} {a : Addr} {t : NgTcpStream} :
      s.Completes m a t → listenerCandidates s.tcbSet t.dport = [] →
      Halts s (.packet env m) .rteExit
  /-- A datagram for a socket that claims less than its own header. -/
  | shortDatagram {env : Env} {m : Mbuf} {a : Addr} {host : Localhost} :
      m.IsUdp → s.receiver m = some (a, host) → m.offload.length.toNat < sizeofUdpHdr →
      Halts s (.packet env m) .segv
  | recvfromStream {env : Env} {fd : Int} {len : Nat} {a : Addr} {t : NgTcpStream} :
      getHostinfoFromfd s fd = some (.stream a t) → Halts s (.nrecvfrom env fd len) .segv
  /-- An empty datagram is refused before the ring is touched. -/
  | sendtoStream {env : Env} {fd : Int} {buf : List Byte} {ip : BitVec 32} {port : BitVec 16}
      {a : Addr} {t : NgTcpStream} :
      getHostinfoFromfd s fd = some (.stream a t) → buf ≠ [] →
      Halts s (.nsendto env fd buf ip port) .segv
  | acceptWaits {fd : Int} {a : Addr} {t : NgTcpStream} :
      getHostinfoFromfd s fd = some (.stream a t) →
      (∀ b u, s.tcb b = some u → u.dport = t.dport → u.fd ≠ -1) → Halts s (.naccept fd) .blocked
  | recvWaits {fd : Int} {len : Nat} {a : Addr} {t : NgTcpStream} :
      getHostinfoFromfd s fd = some (.stream a t) → t.rcvItems = [] →
      Halts s (.nrecv fd len) .blocked
  | recvfromWaits {env : Env} {fd : Int} {len : Nat} {a : Addr} {host : Localhost} :
      getHostinfoFromfd s fd = some (.localhost a host) → host.rcvItems = [] →
      Halts s (.nrecvfrom env fd len) .blocked

/-! ## What every run keeps -/

/-- The linked sockets have their rings, and the fragments on them their
    data. -/
structure State.Whole (s : State) : Prop where
  rings : ∃ held, RingsHeld s held
  filled : ∀ a t, s.tcb a = some t → ∀ f ∈ t.rcvItems, 0 < f.length → f.Filled

theorem State.Whole.hasRings (h : s.Whole) (ht : s.tcb a = some t) : t.HasRings := by
  obtain ⟨held, hheld⟩ := h.rings
  obtain ⟨p, -, -, hrings⟩ := hheld.linked (.tcp a) t.ringNames (by rw [ringsOf, ht]; rfl)
  obtain ⟨hsnd, hrcv⟩ := Prod.mk.inj hrings
  obtain ⟨snd, hsnd, -⟩ := Option.map_eq_some_iff.mp hsnd
  obtain ⟨rcv, hrcv, -⟩ := Option.map_eq_some_iff.mp hrcv
  exact ⟨by rw [hrcv]; rfl, by rw [hsnd]; rfl⟩

theorem State.Whole.hostRings (h : s.Whole) (ht : s.localhost a = some host) :
    (∃ r, host.rcvbuf = some r) ∧ ∃ r, host.sndbuf = some r := by
  obtain ⟨held, hheld⟩ := h.rings
  obtain ⟨p, -, -, hrings⟩ := hheld.linked (.udp a) host.ringNames (by rw [ringsOf, ht]; rfl)
  obtain ⟨hsnd, hrcv⟩ := Prod.mk.inj hrings
  obtain ⟨snd, hsnd, -⟩ := Option.map_eq_some_iff.mp hsnd
  obtain ⟨rcv, hrcv, -⟩ := Option.map_eq_some_iff.mp hrcv
  exact ⟨⟨rcv, hrcv⟩, snd, hsnd⟩

/-- A SYN that clashes crashes. -/
theorem step_of_synClash (henv : env.Succeeds) (htcp : m.IsTcp) (hf : s.Finds m a t)
    (hst : t.status = .listen) (hsyn : m.segment.syn = true)
    (hname : sbufname m.segment.sip m.segment.sport ∈ s.ringNames) :
    step s (.packet env m) = .error .segv := by
  have hf : (s.learnFrom env m).Finds m a t := hf
  have hname : sbufname m.segment.sip m.segment.sport ∈ (s.learnFrom env m).ringNames := hname
  have hdispatch : dispatchSegment env (s.learnFrom env m) a t m.iphdr
      (TcpHdr.setCksum m.l4hdr 0) = .error .segv := by
    rw [dispatchSegment, hst, ofHdrs_setCksum]
    -- `ng_tcp_stream_create` does not look at its rings
    show ngTcpHandleListen env (s.learnFrom env m) t m.segment = _
    simp only [ngTcpHandleListen, hsyn, hst, and_self, if_true, ngTcpStreamCreate,
      henv .synStream, henv .synFragment, rteRingCreate, hname, true_or]
  rw [step, pktProcess_of_tcp htcp, ngTcpProcess_of_finds hf, hdispatch]
  rfl

theorem socketRings_clash {α : Type} {rcvName sndName : RingName} {live : List RingName}
    (h : rcvName ∈ live) : socketRings α env rcvName sndName live = (none, live) := by
  rw [socketRings, rteRingCreate, if_pos (.inl h)]

/-- A socket whose names are taken is refused. -/
theorem nsocket_of_clash {type : Int} {p : Holder} (hasks : s.asks (.nsocket env type) = some p)
    (hname : p.rcvName ∈ s.ringNames) :
    (nsocket env s type).1 = { s with fdTable := (getFdFrombitmap s.fdTable).1 } := by
  simp only [State.asks] at hasks
  split at hasks
  · rename_i htype
    split at hasks
    · rename_i hmalloc
      obtain rfl := Option.some.inj hasks
      have hrings : socketRings Offload env "recv buffer".toList "send buffer".toList s.ringNames =
          (none, s.ringNames) := socketRings_clash hname
      simp only [nsocket, if_pos htype, if_pos hmalloc, hrings]
    · cases hasks
  · rename_i hdgram
    split at hasks
    · rename_i htype
      split at hasks
      · rename_i hmalloc
        obtain rfl := Option.some.inj hasks
        have hrings : socketRings NgTcpFragment env "tcp recv buffer".toList
            "tcp send buffer".toList s.ringNames = (none, s.ringNames) := socketRings_clash hname
        simp only [nsocket, if_neg hdgram, if_pos htype, if_pos hmalloc, hrings]
      · cases hasks
    · cases hasks

/-- Whoever clashes gets no rings, and takes none from anybody. -/
theorem exists_ringsHeld_of_step {held : List Holder} (hheld : RingsHeld s held)
    (he : e.HasMemory) (h : step s e = .ok (s', o)) : ∃ held', RingsHeld s' held' := by
  by_cases hapart : NamesApart (s, held) e
  · have hmem : RingMemory e := by
      cases e with
      | packet env m => exact ⟨he _, he _⟩
      | nsocket env type => exact ⟨he _, he _⟩
      | udpOut | tcpOut | nbind | nlisten | naccept | nsend | nrecv | nrecvfrom | nsendto
      | nclose => trivial
    exact ⟨_, hheld.after_step hmem hapart h⟩
  · simp only [NamesApart, not_forall, not_not] at hapart
    obtain ⟨p, hasks, q, hq, hclash⟩ := hapart
    cases e with
    | packet env m =>
        have hname : p.sndName ∈ s.ringNames :=
          (hheld.names _).mpr ⟨q, hq, .inl (Holder.sndName_eq_iff.mpr hclash)⟩
        simp only [State.asks] at hasks
        repeat' split at hasks
        all_goals cases hasks
        rename_i htcp _ l t hfound hcond
        rw [step_of_synClash he htcp hfound hcond.1 hcond.2.1 hname] at h
        cases h
    | nsocket env type =>
        have hs : (nsocket env s type).1 = s' := congrArg Prod.fst (Except.ok.inj h)
        have hname : p.rcvName ∈ s.ringNames :=
          (hheld.names _).mpr ⟨q, hq, .inr (Holder.rcvName_eq_iff.mpr hclash)⟩
        rw [← hs, nsocket_of_clash hasks hname]
        exact ⟨held, hheld.kept ⟨rfl, fun _ => rfl, fun _ => .inl rfl⟩ (Nat.le_refl _)⟩
    | udpOut | tcpOut | nbind | nlisten | naccept | nsend | nrecv | nrecvfrom | nsendto
    | nclose => cases hasks

/-- A run in which memory lasts. -/
abbrev MemoryRun (mac : List Byte) (hist : History) (s : State) : Prop :=
  GuardedRun (fun _ e => e.HasMemory) (State.init mac) hist s

theorem whole_of_run {mac : List Byte} {hist : History} (hrun : MemoryRun mac hist s) :
    s.Whole := by
  have hrings : ∃ held, RingsHeld s held := by
    induction hrun with
    | start => exact ⟨[], ringsHeld_init mac⟩
    | step _ hR ih =>
        obtain ⟨held, hheld⟩ := ih
        exact exists_ringsHeld_of_step hheld hR.1 hR.2
  exact ⟨hrings, fun a t ht => filled_of_run hrun.of_guarded ht⟩

/-! ## The failures happen -/

theorem step_of_halts {h : Halt} (hs : s.Whole) (he : e.HasMemory) (hhalts : Halts s e h) :
    step s e = .error h := by
  cases hhalts with
  | synClash htcp hf hst hsyn hname => exact step_of_synClash he htcp hf hst hsyn hname
  | noListener hcompletes hnil => rw [step_of_completes hcompletes, hnil, List.head?_nil]
  | @shortDatagram env m a host hudp hrcv hlen =>
      have hexit : udpExit env (s.learnFrom env m) m = .overrun :=
        udpExit_eq_overrun_iff.mpr ⟨⟨_, hrcv⟩, he .udpOffload, he .udpData, hlen⟩
      rw [step, pktProcess_of_udp hudp, udpProcess, hexit]
  | recvfromStream hinfo => rw [step, nrecvfrom, hinfo]
  | sendtoStream hinfo hbuf =>
      have hlength := mt List.length_eq_zero_iff.mp hbuf
      simp only [step, nsendto, hinfo, he .sendtoOffload, he .sendtoData, hlength, or_false,
        Bool.true_eq_false, if_false]
  | @acceptWaits fd a t hinfo hnone =>
      have haccept : getAcceptTcb s t.dport = none := by
        refine Table.find?_eq_none_iff.mpr fun b u hu => ?_
        by_contra htest
        rw [Bool.not_eq_false, Bool.and_eq_true, beq_iff_eq, beq_iff_eq] at htest
        exact hnone b u hu htest.1.symm htest.2
      simp only [step, naccept, hinfo, haccept]
  | recvWaits hinfo hnil =>
      obtain ⟨r, hr⟩ := Option.isSome_iff_exists.mp (hs.hasRings (tcb_of_hostinfo hinfo).1).1
      rw [NgTcpStream.rcvItems, hr, ringItems_some] at hnil
      simp only [step, nrecv, hinfo, nrecvStream, hr, RteRing.mcDequeue_eq_none_iff.mpr hnil]
  | recvfromWaits hinfo hnil =>
      obtain ⟨⟨r, hr⟩, -⟩ := hs.hostRings (localhost_of_hostinfo hinfo)
      rw [Localhost.rcvItems, hr, offloadItems_some] at hnil
      simp only [step, nrecvfrom, hinfo, hr, RteRing.mcDequeue_eq_none_iff.mpr hnil]

/-! ## Nothing else fails

  One lemma for each event that can: it returns, or it is one of the cases. -/

/-- The step returns, or fails in one of the ways there are. -/
def Settled (s : State) (e : Event) : Prop := (∃ r, step s e = .ok r) ∨ ∃ h, Halts s e h

/-- A handler that returns settles its segment. -/
theorem settled_of_dispatch (htcp : m.IsTcp) (hf : s.Finds m a t)
    (hok : ∃ r, dispatchSegment env (s.learnFrom env m) a t m.iphdr
      (TcpHdr.setCksum m.l4hdr 0) = .ok r) : Settled s (.packet env m) := by
  have hf : (s.learnFrom env m).Finds m a t := hf
  obtain ⟨r, hr⟩ := hok
  refine .inl ?_
  rw [step, pktProcess_of_tcp htcp, ngTcpProcess_of_finds hf, hr]
  exact ⟨_, rfl⟩

theorem settled_of_listen (henv : env.Succeeds) (hs : s.Whole) (htcp : m.IsTcp)
    (hf : s.Finds m a t) (hst : t.status = .listen) : Settled s (.packet env m) := by
  have hdispatch : dispatchSegment env (s.learnFrom env m) a t m.iphdr
      (TcpHdr.setCksum m.l4hdr 0) =
        ngTcpHandleListen env (s.learnFrom env m) t m.segment := by
    rw [dispatchSegment, hst, ofHdrs_setCksum]
    rfl
  by_cases hsyn : m.segment.syn = true
  · by_cases hname : sbufname m.segment.sip m.segment.sport ∈ s.ringNames
    · exact .inr ⟨_, .synClash htcp hf hst hsyn hname⟩
    · obtain ⟨held, hheld⟩ := hs.rings
      -- a free name of one ring is a free name of the other
      have hfree : (s.learnFrom env m).NamesFree m.segment := by
        refine (hheld.fresh_iff (.connection 0 m.segment.sip m.segment.sport)).mpr ?_
        intro q hq hclash
        exact hname ((hheld.names _).mpr ⟨q, hq, .inl (Holder.sndName_eq_iff.mpr hclash)⟩)
      obtain ⟨live, ops, hhandled⟩ := ngTcpHandleListen_of_succeeds henv hfree hsyn hst
      exact settled_of_dispatch htcp hf ⟨_, hdispatch.trans hhandled⟩
  · refine settled_of_dispatch htcp hf ⟨(s.learnFrom env m, []), ?_⟩
    rw [hdispatch, ngTcpHandleListen, if_neg fun h => hsyn h.1]

theorem settled_of_synRcvd (htcp : m.IsTcp) (hf : s.Finds m a t) (hst : t.status = .synRcvd) :
    Settled s (.packet env m) := by
  by_cases hack : m.segment.ack = true
  · have hcompletes : s.Completes m a t := ⟨htcp, hf, hst, hack⟩
    cases hhead : (listenerCandidates s.tcbSet t.dport).head? with
    | none => exact .inr ⟨_, .noListener hcompletes (List.head?_eq_none_iff.mp hhead)⟩
    | some n =>
        refine .inl ?_
        rw [step_of_completes hcompletes, hhead]
        exact ⟨_, rfl⟩
  · refine settled_of_dispatch htcp hf ⟨(s.learnFrom env m, []), ?_⟩
    rw [dispatchSegment, hst, ofHdrs_setCksum]
    exact if_neg fun h => hack h.1

theorem settled_of_tcp (henv : env.Succeeds) (hs : s.Whole) (htcp : m.IsTcp) :
    Settled s (.packet env m) := by
  cases hfound : s.found m with
  | none =>
      refine .inl ?_
      cases hprocess : ngTcpProcess env (s.learnFrom env m) m with
      | ok r => exact ⟨r, by rw [step, pktProcess_of_tcp htcp, hprocess]⟩
      | error x =>
          obtain ⟨a, t, hf, -⟩ := ngTcpProcess_error hprocess
          exact absurd (hfound.symm.trans hf).symm (Option.some_ne_none _)
  | some n =>
      obtain ⟨a, t⟩ := n
      have hf : s.Finds m a t := hfound
      cases hst : t.status with
      | listen => exact settled_of_listen henv hs htcp hf hst
      | synRcvd => exact settled_of_synRcvd htcp hf hst
      | established =>
          obtain ⟨t', ops, hest⟩ := ngTcpHandleEstablished_returns env
            (TcpHdr.setCksum m.l4hdr 0) (tcplenOf m.iphdr) (hs.hasRings hf.tcb_eq)
          refine settled_of_dispatch htcp hf ?_
          rw [dispatchSegment, hst]
          simp only [hest]
          exact ⟨_, rfl⟩
      | lastAck | closed | synSent | finWait1 | finWait2 | closing | timeWait | closeWait =>
          refine settled_of_dispatch htcp hf ?_
          rw [dispatchSegment, hst]
          exact ⟨_, rfl⟩

theorem settled_of_udp (hs : s.Whole) (hudp : m.IsUdp) : Settled s (.packet env m) := by
  rw [Settled, step, pktProcess_of_udp hudp, udpProcess]
  cases hexit : udpExit env (s.learnFrom env m) m with
  | noHost | noOffload | noData => exact .inl ⟨_, rfl⟩
  | overrun =>
      obtain ⟨⟨n, hrcv⟩, -, -, hlen⟩ := udpExit_eq_overrun_iff.mp hexit
      exact .inr ⟨_, .shortDatagram hudp hrcv hlen⟩
  | queued b host =>
      have hb : s.localhost b = some host :=
        localhost_of_receiver (s := s) (m := m) (udpExit_eq_queued_iff.mp hexit).1
      obtain ⟨⟨r, hr⟩, -⟩ := hs.hostRings hb
      simp only [hr]
      exact .inl ⟨_, rfl⟩

theorem settled_of_packet (henv : env.Succeeds) (hs : s.Whole) : Settled s (.packet env m) := by
  by_cases htcp : m.IsTcp
  · exact settled_of_tcp henv hs htcp
  · by_cases hudp : m.IsUdp
    · exact settled_of_udp hs hudp
    · refine .inl ?_
      rw [step, pktProcess]
      split
      · rename_i hip
        rw [if_neg fun h => hudp ⟨hip, h⟩, if_neg fun h => htcp ⟨hip, h⟩]
        exact ⟨_, rfl⟩
      · exact ⟨_, rfl⟩

theorem settled_of_nrecv {fd : Int} {len : Nat} (hs : s.Whole) : Settled s (.nrecv fd len) := by
  cases hinfo : getHostinfoFromfd s fd with
  | none => exact .inl ⟨_, by rw [step, nrecv, hinfo]⟩
  | some info =>
      cases info with
      | localhost a host => exact .inl ⟨_, by rw [step, nrecv, hinfo]⟩
      | stream a t =>
          have ht := (tcb_of_hostinfo hinfo).1
          obtain ⟨r, hr⟩ := Option.isSome_iff_exists.mp (hs.hasRings ht).1
          cases hpop : r.mcDequeue with
          | none =>
              refine .inr ⟨_, .recvWaits hinfo ?_⟩
              rw [NgTcpStream.rcvItems, hr, ringItems_some, RteRing.mcDequeue_eq_none_iff.mp hpop]
          | some n =>
              obtain ⟨f, r'⟩ := n
              have hmem : f ∈ t.rcvItems := by
                rw [NgTcpStream.rcvItems, hr, ringItems_some, (RteRing.mcDequeue_eq_some hpop).1]
                exact List.mem_cons_self ..
              have hfilled := hs.filled a t ht f hmem
              have hread : ∃ x, nrecvStream t len = .ok x := by
                simp only [nrecvStream, hr, hpop]
                by_cases hpos : 0 < f.length
                · obtain ⟨-, data, hdata, -⟩ := hfilled hpos
                  simp only [hdata]
                  repeat' split
                  all_goals exact ⟨_, rfl⟩
                -- the end of the stream has no data to copy
                · rw [if_neg (by omega), if_pos (by omega)]
                  exact ⟨_, rfl⟩
              obtain ⟨x, hx⟩ := hread
              refine .inl ?_
              simp only [step, nrecv, hinfo, hx]
              exact ⟨_, rfl⟩

theorem settled_of_nrecvfrom {fd : Int} {len : Nat} (henv : env.Succeeds) (hs : s.Whole) :
    Settled s (.nrecvfrom env fd len) := by
  cases hinfo : getHostinfoFromfd s fd with
  | none => exact .inl ⟨_, by rw [step, nrecvfrom, hinfo]⟩
  | some info =>
      cases info with
      | stream a t => exact .inr ⟨_, .recvfromStream hinfo⟩
      | localhost a host =>
          obtain ⟨⟨r, hr⟩, -⟩ := hs.hostRings (localhost_of_hostinfo hinfo)
          cases hpop : r.mcDequeue with
          | none =>
              refine .inr ⟨_, .recvfromWaits hinfo ?_⟩
              rw [Localhost.rcvItems, hr, offloadItems_some, RteRing.mcDequeue_eq_none_iff.mp hpop]
          | some n =>
              refine .inl ?_
              simp only [step, nrecvfrom, hinfo, hr, hpop, henv .recvfromRest, Bool.true_eq_false,
                if_false]
              split <;> exact ⟨_, rfl⟩

theorem settled_of_nsendto {fd : Int} {buf : List Byte} {ip : BitVec 32} {port : BitVec 16}
    (hs : s.Whole) : Settled s (.nsendto env fd buf ip port) := by
  cases hinfo : getHostinfoFromfd s fd with
  | none => exact .inl ⟨_, by rw [step, nsendto, hinfo]⟩
  | some info =>
      cases info with
      | stream a t =>
          by_cases hbuf : buf = []
          · refine .inl ?_
            simp only [step, nsendto, hinfo, hbuf, List.length_nil, or_true, if_true]
            split <;> exact ⟨_, rfl⟩
          · exact .inr ⟨_, .sendtoStream hinfo hbuf⟩
      | localhost a host =>
          obtain ⟨-, r, hr⟩ := hs.hostRings (localhost_of_hostinfo hinfo)
          refine .inl ?_
          simp only [step, nsendto, hinfo, hr]
          repeat' split
          all_goals exact ⟨_, rfl⟩

theorem settled_of_udpOut (henv : env.Succeeds) (hs : s.Whole) : Settled s (.udpOut env) := by
  have hrings : s.lhost.nodes.any (fun n => n.2.sndbuf.isNone) = false := by
    rw [List.any_eq_false]
    rintro ⟨b, host⟩ hmem
    have hhost : s.localhost b = some host := Table.mem_nodes_iff.mp hmem
    obtain ⟨-, r, hr⟩ := hs.hostRings hhost
    simp [hr]
  refine .inl ?_
  simp only [step, udpOut, hrings, henv .mbuf, Bool.true_eq_false, false_and, if_false,
    Bool.false_eq_true]
  exact ⟨_, rfl⟩

theorem settled_of_naccept {fd : Int} : Settled s (.naccept fd) := by
  cases hinfo : getHostinfoFromfd s fd with
  | none => exact .inl ⟨_, by rw [step, naccept, hinfo]⟩
  | some info =>
      cases info with
      | localhost a host => exact .inl ⟨_, by rw [step, naccept, hinfo]⟩
      | stream a t =>
          cases haccept : getAcceptTcb s t.dport with
          | none =>
              refine .inr ⟨_, .acceptWaits hinfo fun b u hu hport hfd => ?_⟩
              have htest := Table.find?_eq_none_iff.mp haccept b u hu
              rw [hport, hfd] at htest
              simp at htest
          | some n =>
              refine .inl ?_
              simp only [step, naccept, hinfo, haccept]
              exact ⟨_, rfl⟩

theorem settled_of_nsend {fd : Int} {buf : List Byte} (hs : s.Whole) :
    Settled s (.nsend env fd buf) := by
  refine .inl ?_
  cases hinfo : getHostinfoFromfd s fd with
  | none => exact ⟨_, by rw [step, nsend, hinfo]⟩
  | some info =>
      cases info with
      | localhost a host => exact ⟨_, by rw [step, nsend, hinfo]⟩
      | stream a t =>
          obtain ⟨r, hr⟩ := Option.isSome_iff_exists.mp (hs.hasRings (tcb_of_hostinfo hinfo).1).2
          simp only [step, nsend, hinfo, NgTcpStream.enqueueSnd, hr]
          repeat' split
          all_goals exact ⟨_, rfl⟩

theorem settled_of_nclose {fd : Int} (hs : s.Whole) : Settled s (.nclose env fd) := by
  refine .inl ?_
  cases hinfo : getHostinfoFromfd s fd with
  | none => exact ⟨_, by rw [step, nclose, hinfo]⟩
  | some info =>
      cases info with
      | localhost a host => exact ⟨_, by rw [step, nclose, hinfo]⟩
      | stream a t =>
          obtain ⟨r, hr⟩ := Option.isSome_iff_exists.mp (hs.hasRings (tcb_of_hostinfo hinfo).1).2
          simp only [step, nclose, hinfo, NgTcpStream.enqueueSnd, hr]
          repeat' split
          all_goals exact ⟨_, rfl⟩

theorem settled_of_whole (hs : s.Whole) (he : e.HasMemory) : Settled s e := by
  cases e with
  | packet env m => exact settled_of_packet he hs
  | udpOut env => exact settled_of_udpOut he hs
  | tcpOut env =>
      refine .inl ?_
      simp only [step, ngTcpOut, he .mbuf, Bool.true_eq_false, false_and, if_false]
      exact ⟨_, rfl⟩
  | nsocket | nbind | nlisten => exact .inl ⟨_, rfl⟩
  | naccept fd => exact settled_of_naccept
  | nsend env fd buf => exact settled_of_nsend hs
  | nrecv fd len => exact settled_of_nrecv hs
  | nrecvfrom env fd len => exact settled_of_nrecvfrom he hs
  | nsendto env fd buf ip port => exact settled_of_nsendto hs
  | nclose env fd => exact settled_of_nclose hs

/-- In every run in which memory lasts, the next event fails just in the ways
    listed, if memory lasts for it too. -/
theorem stack_halts_iff {mac : List Byte} {hist : History} (hrun : MemoryRun mac hist s)
    (he : e.HasMemory) (h : Halt) : step s e = .error h ↔ Halts s e h := by
  have hs := whole_of_run hrun
  constructor
  · intro herror
    rcases settled_of_whole hs he with ⟨r, hok⟩ | ⟨h', hhalts⟩
    · rw [hok] at herror
      cases herror
    · obtain rfl := Except.error.inj ((step_of_halts hs he hhalts).symm.trans herror)
      exact hhalts
  · exact step_of_halts hs he

/-- While 10.0.0.1:14640 is connected, the SYN of 161.0.0.16:10505 crashes the
    stack: `%x%d` prints `100000a12345` for both. -/
theorem stack_halts_clash : ∃ (hist : History) (s : State), MemoryRun [] hist s ∧
    step s (.packet .plain (synFrom 0x100000A1 2345)) = .error .segv := by
  have hplain : Env.plain.Succeeds := fun _ => rfl
  have hrun : execsTo step (State.init [])
      (openServer ++ [.packet .plain (synFrom 0x0100000A 12345)]) (fun _ s =>
        decide ((synFrom 0x100000A1 2345).IsTcp) &&
        (((s.found (synFrom 0x100000A1 2345)).any fun n => decide (n.2.status = .listen)) &&
        (decide ((synFrom 0x100000A1 2345).segment.syn = true) &&
        decide (sbufname (synFrom 0x100000A1 2345).segment.sip
          (synFrom 0x100000A1 2345).segment.sport ∈ s.ringNames)))) = true := by
    decide +kernel
  obtain ⟨hist, s, hexec, hP⟩ := exec_of_execsTo hrun
  simp only [Bool.and_eq_true, decide_eq_true_eq, Option.any_eq_true] at hP
  obtain ⟨htcp, ⟨⟨l, t⟩, hf, hst⟩, hsyn, hname⟩ := hP
  have hmemory : MemoryRun [] hist s := by
    refine guarded_run_of_exec (C := Event.HasMemory) ?_ hexec
    simp only [openServer, List.cons_append, List.nil_append, List.forall_mem_cons]
    exact ⟨hplain, trivial, trivial, hplain, List.forall_mem_nil _⟩
  have he : (Event.packet .plain (synFrom 0x100000A1 2345)).HasMemory := hplain
  exact ⟨hist, s, hmemory, (stack_halts_iff hmemory he .segv).mpr
    (.synClash htcp hf hst hsyn hname)⟩

end LinuxLearning.Ustack
