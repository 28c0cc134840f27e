/-
  LinuxLearning.Ustack.OutputProgress

  How long a fragment or a datagram waits for its frame.

  `ng_tcp_out` and `udp_out` deal with the oldest entry of every socket's
  send ring once in each pass, whoever waits elsewhere.  So an entry with `k`
  in front of it becomes a frame in the pass that has `k` passes before it,
  if its destination's hardware address is known, and brings an ARP request
  in that pass if it is not.
-/

import LinuxLearning.Lib.ServiceQueue
import LinuxLearning.Ustack.OutputOrder

namespace LinuxLearning.Ustack

open Lib

variable {env : Env} {s s₀ s' : State} {e : Event} {o : Out} {a : Addr} {t t' : NgTcpStream}
  {ops : List StreamOp} {host host' : Localhost}

/-- A pass of `ng_tcp_out`. -/
def Event.isTcpOut : Event → Bool
  | .tcpOut _ => true
  | _ => false

/-- A pass of `udp_out`. -/
def Event.isUdpOut : Event → Bool
  | .udpOut _ => true
  | _ => false

/-! ## Addresses stay known -/

/-- What is known at the start of a run is known at its end. -/
theorem knows_of_run {hist : History} {ip : BitVec 32} (hcount : s₀.arpt.Counted)
    (hrun : SystemRun s₀ hist s) (hknown : s₀.arpt.Knows ip) : s.arpt.Knows ip := by
  have hinv : s.arpt.Counted ∧ s.arpt.Knows ip := by
    refine hrun.invariant (P := fun _ s => s.arpt.Counted ∧ s.arpt.Knows ip) ⟨hcount, hknown⟩ ?_
    intro _ s e o s' ⟨hcount, hknown⟩ hR
    rw [arpt_of_step hR]
    exact ⟨State.counted_learned hcount e, State.knows_learned hcount hknown e⟩
  exact hinv.2

theorem counted_of_run {mac : List Byte} {hist : History}
    (hrun : SystemRun (State.init mac) hist s) : s.arpt.Counted := by
  refine hrun.invariant (P := fun _ s => s.arpt.Counted) rfl ?_
  intro _ s e o s' hcount hR
  rw [arpt_of_step hR]
  exact State.counted_learned hcount e

/-! ## The send rings of connections -/

/-- An operation that takes nothing off `sndbuf`. -/
def StreamOp.keepsSnd : StreamOp → Bool
  | .link _ | .unlink | .sent _ | .sndRequeue _ _ => false
  | .segment _ _ | .sndPut _ _ | .rcvPut _ _ | .rcvGet _ | .rcvRequeue _ _ | .accept _
  | .signal => true

theorem prefix_of_sndReplay {items items' : List NgTcpFragment}
    (hops : ∀ op ∈ ops, op.keepsSnd = true) (h : ops.foldlM sndReplay items = some items') :
    items <+: items' := by
  induction ops generalizing items with
  | nil =>
      obtain rfl := Option.some.inj h
      exact List.prefix_refl _
  | cons op rest ih =>
      rw [List.forall_mem_cons] at hops
      rw [List.foldlM_cons] at h
      obtain ⟨mid, hmid, hrest⟩ := Option.bind_eq_some_iff.mp h
      refine List.IsPrefix.trans ?_ (ih hops.2 hrest)
      cases op with
      | link | unlink | sent | sndRequeue => cases hops.1
      | sndPut f stored =>
          obtain rfl := Option.some.inj hmid
          exact List.prefix_append _ _
      | segment | rcvPut | rcvGet | rcvRequeue | accept | signal =>
          obtain rfl := Option.some.inj hmid
          exact List.prefix_refl _

/-- Only an output pass takes a fragment off the send ring of a block that
    stays linked. -/
theorem TcbChange.keepsSnd (h : TcbChange s e a ops (some t) (some t'))
    (he : e.isTcpOut = false) : ∀ op ∈ ops, op.keepsSnd = true := by
  cases h with
  | idle | bound | listening => exact List.forall_mem_nil _
  | seen | accepted | sending | closing | handshake => simp [StreamOp.keepsSnd]
  | reading he hinfo hread => cases nrecvStream_ok hread <;> simp [coreOps, StreamOp.keepsSnd]
  | data he hf hst hest =>
      rw [List.forall_mem_cons]
      refine ⟨rfl, fun op hop => ?_⟩
      rcases (ngTcpHandleEstablished_ok hest).mem_ops hop with
        ⟨b, len, f, stored, -, -, rfl⟩ | ⟨u, stored, rfl⟩
      · rfl
      · rfl
  | output he' =>
      subst he'
      cases he

/-- The entry of a history builds the frame of `f` for `sip`, or asks for the
    hardware address, if that was not known in `s₀`. -/
def FrameOrRequest (s₀ : State) (sip : BitVec 32) (en : Event × Out) (f : NgTcpFragment) : Prop :=
  (∃ dip srcmac dstmac, .tcp dip sip srcmac dstmac f ∈ en.2.frames) ∨
    ¬ s₀.arpt.Knows sip ∧ ∃ dip, .arpRequest dip sip ∈ en.2.frames

/-- One turn of `ng_tcp_out` is about the oldest fragment. -/
theorem tcpOutStream_head (arpt : ArpTable) {f : NgTcpFragment} (hf : f ∈ t.sndItems.head?) :
    (∃ dstmac, (tcpOutStream arpt t).2.2 = [.tcp t.dip t.sip t.localmac dstmac f]) ∨
      ¬ arpt.Knows t.sip ∧ (tcpOutStream arpt t).2.2 = [.arpRequest t.dip t.sip] := by
  unfold NgTcpStream.sndItems at hf
  cases hr : t.sndbuf with
  | none =>
      rw [hr] at hf
      cases hf
  | some r =>
      rw [hr, ringItems_some] at hf
      cases hpop : r.mcDequeue with
      | none =>
          rw [RteRing.mcDequeue_eq_none_iff.mp hpop] at hf
          cases hf
      | some n =>
          obtain ⟨f', r'⟩ := n
          rw [(RteRing.mcDequeue_eq_some hpop).1] at hf
          obtain rfl := Option.some.inj hf
          unfold tcpOutStream ArpTable.Knows
          cases harp : arpt.ngGetDstMacaddr t.sip with
          | none => exact .inr ⟨fun h => h rfl, by simp only [hr, hpop]⟩
          | some dstmac => exact .inl ⟨dstmac, by simp only [hr, hpop]⟩

/-- It takes the fragment away or puts it behind the others. -/
theorem OutCases.advances (h : OutCases t t' ops) : t.sndItems.tail <+: t'.sndItems := by
  cases h with
  | idle hnil =>
      rw [hnil]
      exact List.prefix_refl _
  | sent hitems =>
      rw [hitems]
      exact List.prefix_refl _
  | requeued hitems hput =>
      rw [hitems, NgTcpStream.sndItems, ringItems_some, hput]
      exact List.prefix_append _ _

/-- A pass goes over all blocks. -/
theorem ngTcpOut_turn (h : ngTcpOut env s = .ok (s', o)) (ht : s.tcb a = some t) :
    s'.tcb a = some (tcpOutStream s.arpt t).1 ∧
      ∀ frame ∈ (tcpOutStream s.arpt t).2.2, frame ∈ o.frames := by
  simp only [ngTcpOut] at h
  split at h
  · cases h
  · obtain ⟨rfl, rfl⟩ := Prod.mk.inj (Except.ok.inj h)
    refine ⟨?_, fun frame hframe => ?_⟩
    · simp only [State.tcb, Table.get?_mapNodes]
      rw [← State.tcb, ht]
      rfl
    · exact List.mem_flatMap.mpr ⟨(a, t), Table.mem_nodes_iff.mpr ht, hframe⟩

theorem queueStep_of_tcb (h : step s e = .ok (s', o)) (ht : s.tcb a = some t)
    (ht' : s'.tcb a = some t') (hknown : s₀.arpt.Knows t.sip → s.arpt.Knows t.sip) :
    QueueStep Event.isTcpOut (FrameOrRequest s₀ t.sip) e o t.sndItems t'.sndItems := by
  have hchange := tcbChange_of_step h a
  rw [ht, ht'] at hchange
  have hgrows : e.isTcpOut = false → t.sndItems <+: t'.sndItems := fun he =>
    prefix_of_sndReplay (hchange.keepsSnd he) hchange.replays.snd
  cases e with
  | tcpOut env =>
      obtain ⟨hturn, hframes⟩ := ngTcpOut_turn h ht
      obtain rfl := Option.some.inj (ht'.symm.trans hturn)
      refine ⟨hgrows, fun _ => (tcpOutStream_cases s.arpt t).advances, fun _ f hf => ?_⟩
      rcases tcpOutStream_head s.arpt hf with ⟨dstmac, hframe⟩ | ⟨hunknown, hrequest⟩
      · rw [hframe, List.forall_mem_singleton] at hframes
        exact .inl ⟨_, _, _, hframes⟩
      · rw [hrequest, List.forall_mem_singleton] at hframes
        exact .inr ⟨fun h => hunknown (hknown h), _, hframes⟩
  | packet | udpOut | nsocket | nbind | nlisten | naccept | nsend | nrecv | nrecvfrom | nsendto
  | nclose => exact ⟨hgrows, nofun, nofun⟩

theorem opsOf_snoc (hist : History) (e : Event) (o : Out) (a : Addr) :
    opsOf (hist ++ [(e, o)]) a = opsOf hist a ++ o.opsOf a := by
  rw [opsOf, opsOf, List.flatMap_append, List.flatMap_singleton]

/-- A block that is gone was unlinked. -/
theorem TcbChange.linked {after : Option NgTcpStream} (h : TcbChange s e a ops (some t) after)
    (hops : .unlink ∉ ops) : ∃ t', after = some t' := by
  cases h with
  | idle | seen | bound | listening | accepted | sending | reading | closing | handshake | data
  | output => exact ⟨_, rfl⟩
  | closed | destroyed => simp at hops

/-- In every run, whatever else happens in it: a fragment with `k` others in
    front of it on the send ring of a connection that is not destroyed becomes
    a frame in the `ng_tcp_out` pass that has `k` passes before it.  If the
    peer's hardware address was not known, that pass may ask for it. -/
theorem tcp_output_served {mac : List Byte} {hist₀ hist : History} {k : Nat} {f : NgTcpFragment}
    (hbefore : SystemRun (State.init mac) hist₀ s₀) (ht : s₀.tcb a = some t)
    (hf : t.sndItems[k]? = some f) (hrun : SystemRun s₀ hist s)
    (hlinked : .unlink ∉ opsOf hist a) (hk : k < passes Event.isTcpOut hist) :
    ServedInPass Event.isTcpOut (FrameOrRequest s₀ t.sip) k hist f := by
  have hcount := counted_of_run hbefore
  have hwaiting : ∃ t', s.tcb a = some t' ∧ t'.sip = t.sip ∧
      Waiting Event.isTcpOut (FrameOrRequest s₀ t.sip) f k hist t'.sndItems := by
    clear hk
    induction hrun with
    | start => exact ⟨t, ht, rfl, .start hf⟩
    | @step hist s e o s' hrun hR ih =>
        rw [opsOf_snoc, List.mem_append, not_or] at hlinked
        obtain ⟨u, hu, hsip, hwaiting⟩ := ih hlinked.1
        have hchange := tcbChange_of_step hR a
        rw [hu] at hchange
        obtain ⟨u', hu'⟩ := hchange.linked hlinked.2
        rw [hu'] at hchange
        have hstep := queueStep_of_tcb hR hu hu' (knows_of_run hcount hrun)
        rw [hsip] at hstep
        exact ⟨u', hu', hchange.ends_kept.1.1.trans hsip, hwaiting.step hstep⟩
  obtain ⟨t', -, -, hwaiting⟩ := hwaiting
  exact hwaiting.served hk

/-- The SYN-ACK and two pieces of data wait; the last goes out in the third
    pass, though a segment and another piece come in between. -/
theorem tcp_output_served_third : ∃ (hist₀ hist : History) (s₀ s : State) (t : NgTcpStream)
    (f : NgTcpFragment), SystemRun (State.init []) hist₀ s₀ ∧ s₀.tcb 1 = some t ∧
    t.sndItems[2]? = some f ∧ SystemRun s₀ hist s ∧ s₀.arpt.Knows t.sip ∧
    ServedInPass Event.isTcpOut (FrameOrRequest s₀ t.sip) 2 hist f := by
  have hrun : execsTo step (State.init [])
      (openServer ++ connectPeer ++
        [.naccept 3, .nsend .plain 4 [1, 2], .nsend .plain 4 [3]]) (fun _ s₀ =>
      (s₀.tcb 1).any (fun t => t.sndItems[2]?.isSome && decide (s₀.arpt.Knows t.sip)) &&
      execsTo step s₀ [.tcpOut .plain, .packet .plain (peerSegment RTE_TCP_ACK_FLAG 501 1001 []),
        .tcpOut .plain, .nsend .plain 4 [4], .tcpOut .plain] (fun hist _ =>
          decide (.unlink ∉ opsOf hist 1) && decide (2 < passes Event.isTcpOut hist))) = true := by
    decide +kernel
  obtain ⟨hist₀, s₀, hexec₀, hP₀⟩ := exec_of_execsTo hrun
  rw [Bool.and_eq_true, Option.any_eq_true] at hP₀
  obtain ⟨⟨t, ht, hplace⟩, hlater⟩ := hP₀
  rw [Bool.and_eq_true, decide_eq_true_eq] at hplace
  obtain ⟨f, hf⟩ := Option.isSome_iff_exists.mp hplace.1
  obtain ⟨hist, s, hexec, hP⟩ := exec_of_execsTo hlater
  rw [Bool.and_eq_true, decide_eq_true_eq, decide_eq_true_eq] at hP
  exact ⟨hist₀, hist, s₀, s, t, f, run_of_exec hexec₀, ht, hf, run_of_exec hexec, hplace.2,
    tcp_output_served (run_of_exec hexec₀) ht hf (run_of_exec hexec) hP.1 hP.2⟩

/-! ## The send rings of UDP sockets -/

/-- The entry of a history builds the frame of `ol`, or asks for the hardware
    address of its destination, if that was not known in `s₀`. -/
def DatagramOrRequest (s₀ : State) (en : Event × Out) (ol : Offload) : Prop :=
  (∃ srcmac dstmac, .udp srcmac dstmac ol ∈ en.2.frames) ∨
    ¬ s₀.arpt.Knows ol.dip ∧ .arpRequest ol.sip ol.dip ∈ en.2.frames

/-- One turn of `udp_out` is about the oldest datagram. -/
theorem udpOutHost_head (arpt : ArpTable) {ol : Offload} (hol : ol ∈ host.sndItems.head?) :
    (∃ dstmac, (udpOutHost arpt host).2 = [.udp host.localmac dstmac ol]) ∨
      ¬ arpt.Knows ol.dip ∧ (udpOutHost arpt host).2 = [.arpRequest ol.sip ol.dip] := by
  unfold Localhost.sndItems at hol
  cases hr : host.sndbuf with
  | none =>
      rw [hr] at hol
      cases hol
  | some r =>
      rw [hr, offloadItems_some] at hol
      cases hpop : r.mcDequeue with
      | none =>
          rw [RteRing.mcDequeue_eq_none_iff.mp hpop] at hol
          cases hol
      | some n =>
          obtain ⟨ol', r'⟩ := n
          rw [(RteRing.mcDequeue_eq_some hpop).1] at hol
          obtain rfl := Option.some.inj hol
          unfold udpOutHost ArpTable.Knows
          cases harp : arpt.ngGetDstMacaddr ol'.dip with
          | none => exact .inr ⟨fun h => h rfl, by simp only [hr, hpop, harp]⟩
          | some dstmac => exact .inl ⟨dstmac, by simp only [hr, hpop, harp]⟩

/-- It takes the datagram away or puts it behind the others. -/
theorem udpOutHost_advances (arpt : ArpTable) (host : Localhost) :
    host.sndItems.tail <+: (udpOutHost arpt host).1.sndItems := by
  cases hr : host.sndbuf with
  | none =>
      rw [Localhost.sndItems, hr]
      exact List.nil_prefix
  | some r =>
      rw [Localhost.sndItems, hr, offloadItems_some]
      cases hpop : r.mcDequeue with
      | none =>
          rw [RteRing.mcDequeue_eq_none_iff.mp hpop]
          exact List.nil_prefix
      | some n =>
          obtain ⟨ol, r'⟩ := n
          rw [(RteRing.mcDequeue_eq_some hpop).1, List.tail_cons]
          unfold udpOutHost
          cases harp : arpt.ngGetDstMacaddr ol.dip with
          | none =>
              simp only [hr, hpop, harp, Localhost.sndItems, offloadItems_some]
              rw [RteRing.items_mpEnqueue]
              exact List.prefix_append _ _
          | some dstmac =>
              simp only [hr, hpop, harp, Localhost.sndItems, offloadItems_some]
              exact List.prefix_refl _

/-- A pass goes over all sockets. -/
theorem udpOut_turn (h : udpOut env s = .ok (s', o)) (hhost : s.localhost a = some host) :
    s'.localhost a = some (udpOutHost s.arpt host).1 ∧
      ∀ frame ∈ (udpOutHost s.arpt host).2, frame ∈ o.frames := by
  simp only [udpOut] at h
  repeat' split at h
  all_goals simp only [Except.ok.injEq, Prod.mk.injEq, reduceCtorEq] at h
  obtain ⟨rfl, rfl⟩ := h
  refine ⟨?_, fun frame hframe => ?_⟩
  · simp only [State.localhost, Table.get?_mapNodes]
    rw [← State.localhost, hhost]
    rfl
  · exact List.mem_flatMap.mpr ⟨(a, host), Table.mem_nodes_iff.mpr hhost, hframe⟩

/-- Only an output pass takes a datagram off the send ring of a socket that
    stays linked. -/
theorem HostChange.sndItems_prefix (h : HostChange s e a (some host) (some host'))
    (he : e.isUdpOut = false) : host.sndItems <+: host'.sndItems := by
  cases h with
  | idle | bound | arrived => exact List.prefix_refl _
  | reading he hinfo hrecv => cases hrecv <;> exact List.prefix_refl _
  | sending he hinfo hr =>
      rw [Localhost.sndItems, Localhost.sndItems, hr, offloadItems_some, offloadItems_some,
        RteRing.items_mpEnqueue]
      exact List.prefix_append _ _
  | output he' =>
      subst he'
      cases he

theorem queueStep_of_host (h : step s e = .ok (s', o)) (hhost : s.localhost a = some host)
    (hhost' : s'.localhost a = some host')
    (hknown : ∀ ip, s₀.arpt.Knows ip → s.arpt.Knows ip) :
    QueueStep Event.isUdpOut (DatagramOrRequest s₀) e o host.sndItems host'.sndItems := by
  have hchange := hostChange_of_step h a
  rw [hhost, hhost'] at hchange
  cases e with
  | udpOut env =>
      obtain ⟨hturn, hframes⟩ := udpOut_turn h hhost
      obtain rfl := Option.some.inj (hhost'.symm.trans hturn)
      refine ⟨hchange.sndItems_prefix, fun _ => udpOutHost_advances s.arpt host, fun _ ol hol => ?_⟩
      rcases udpOutHost_head s.arpt hol with ⟨dstmac, hframe⟩ | ⟨hunknown, hrequest⟩
      · rw [hframe, List.forall_mem_singleton] at hframes
        exact .inl ⟨_, _, hframes⟩
      · rw [hrequest, List.forall_mem_singleton] at hframes
        exact .inr ⟨fun h => hunknown (hknown _ h), hframes⟩
  | packet | tcpOut | nsocket | nbind | nlisten | naccept | nsend | nrecv | nrecvfrom | nsendto
  | nclose => exact ⟨hchange.sndItems_prefix, nofun, nofun⟩

/-- The event does not close the socket at `a`. -/
def KeepsSocket (a : Addr) (s : State) : Event → Prop
  | .nclose _ fd => (getHostinfoFromfd s fd).map HostInfo.sock ≠ some (.udp a)
  | _ => True

instance (a : Addr) (s : State) : (e : Event) → Decidable (KeepsSocket a s e)
  | .nclose _ _ => inferInstanceAs (Decidable (_ ≠ _))
  | .packet _ _ | .udpOut _ | .tcpOut _ | .nsocket _ _ | .nbind _ _ _ | .nlisten _ | .naccept _
  | .nsend _ _ _ | .nrecv _ _ | .nrecvfrom _ _ _ | .nsendto _ _ _ _ _ => .isTrue trivial

theorem HostChange.linked {after : Option Localhost} (h : HostChange s e a (some host) after)
    (hkeeps : KeepsSocket a s e) : ∃ host', after = some host' := by
  cases h with
  | idle | bound | arrived | output | reading | sending => exact ⟨_, rfl⟩
  | closed he hinfo =>
      subst he
      rw [KeepsSocket, hinfo] at hkeeps
      exact absurd rfl hkeeps

/-- In every run, whatever else happens in it: a datagram with `k` others in
    front of it on the send ring of a socket that is not closed becomes a
    frame in the `udp_out` pass that has `k` passes before it.  If its
    destination's hardware address was not known, that pass may ask for it. -/
theorem udp_output_served {mac : List Byte} {hist₀ hist : History} {k : Nat} {ol : Offload}
    (hbefore : SystemRun (State.init mac) hist₀ s₀) (hhost : s₀.localhost a = some host)
    (hol : host.sndItems[k]? = some ol) (hrun : GuardedRun (KeepsSocket a) s₀ hist s)
    (hk : k < passes Event.isUdpOut hist) :
    ServedInPass Event.isUdpOut (DatagramOrRequest s₀) k hist ol := by
  have hcount := counted_of_run hbefore
  have hwaiting : ∃ host', s.localhost a = some host' ∧
      Waiting Event.isUdpOut (DatagramOrRequest s₀) ol k hist host'.sndItems := by
    clear hk
    induction hrun with
    | start => exact ⟨host, hhost, .start hol⟩
    | @step hist s e o s' hrun hR ih =>
        obtain ⟨u, hu, hwaiting⟩ := ih
        have hchange := hostChange_of_step hR.2 a
        rw [hu] at hchange
        obtain ⟨u', hu'⟩ := hchange.linked hR.1
        exact ⟨u', hu', hwaiting.step (queueStep_of_host hR.2 hu hu' fun ip =>
          knows_of_run hcount hrun.of_guarded)⟩
  obtain ⟨host', -, hwaiting⟩ := hwaiting
  exact hwaiting.served hk

/-- A datagram for an address that nobody has heard of is in front; the one
    behind it goes out in the second pass. -/
theorem udp_output_served_second : ∃ (hist₀ hist : History) (s₀ s : State) (host : Localhost)
    (ol : Offload), SystemRun (State.init []) hist₀ s₀ ∧ s₀.localhost 0 = some host ∧
    host.sndItems[1]? = some ol ∧ GuardedRun (KeepsSocket 0) s₀ hist s ∧
    s₀.arpt.Knows ol.dip ∧ ServedInPass Event.isUdpOut (DatagramOrRequest s₀) 1 hist ol := by
  have hrun : execsTo step (State.init [])
      [.nsocket .plain SOCK_DGRAM, .nbind 3 0x0100000A (htons 8888),
        .packet .plain (peerSegment RTE_TCP_ACK_FLAG 501 1001 []),
        .nsendto .plain 3 [1] 0x0300000A (htons 53), .nsendto .plain 3 [2] 0x0200000A (htons 53)]
      (fun _ s₀ =>
        (s₀.localhost 0).any (fun host => host.sndItems[1]?.any fun ol =>
          decide (s₀.arpt.Knows ol.dip)) &&
        execsTo (guardStep (KeepsSocket 0) .blocked step) s₀
          [.udpOut .plain, .nsocket .plain SOCK_STREAM, .udpOut .plain] (fun hist _ =>
            decide (1 < passes Event.isUdpOut hist))) = true := by
    decide +kernel
  obtain ⟨hist₀, s₀, hexec₀, hP₀⟩ := exec_of_execsTo hrun
  rw [Bool.and_eq_true, Option.any_eq_true] at hP₀
  obtain ⟨⟨host, hhost, hplace⟩, hlater⟩ := hP₀
  rw [Option.any_eq_true] at hplace
  obtain ⟨ol, hol, hknown⟩ := hplace
  obtain ⟨hist, s, hexec, hP⟩ := exec_of_execsTo hlater
  rw [decide_eq_true_eq] at hP hknown
  exact ⟨hist₀, hist, s₀, s, host, ol, run_of_exec hexec₀, hhost, hol, guarded_of_exec hexec,
    hknown, udp_output_served (run_of_exec hexec₀) hhost hol (guarded_of_exec hexec) hP⟩

end LinuxLearning.Ustack
