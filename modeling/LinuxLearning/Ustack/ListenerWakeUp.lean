/-
  LinuxLearning.Ustack.ListenerWakeUp

  Whom `ng_tcp_handle_syn_rcvd` wakes, and how it can end the process.

  It runs the connection search again, for the key 0.0.0.0:0 to 0.0.0.0:port.
  A block that has this key comes first, whatever its status, and a SYN from
  port 0 of 0.0.0.0 makes one.  Behind these comes the first block in LISTEN
  on the port, whether or not a descriptor leads to it.  Where the search
  finds nothing, as after `nclose` of the listener, `rte_exit` ends the
  process.  So the stack is put into a process here that can end.
-/

import LinuxLearning.Ustack.StatusDiagram

namespace LinuxLearning.Ustack

open Lib

/-! ## The process -/

/-- The process has its stack until `rte_exit`; `arpt` says whether the ARP
    table has been allocated. -/
inductive Process where
  | running (s : State) (arpt : Bool)
  | exited

/-- What can happen to the process.  `malloc` is what `rte_malloc` answers
    if the ARP table is still to be allocated. -/
inductive ProcessEvent where
  | stack (e : Event) (malloc : Bool)
  /-- `arp_table_instance`, in the ARP timer or before an output pass. -/
  | arpTableInstance (malloc : Bool)

/-- The state in which a step was taken, and what it came to. -/
structure Report where
  before : State
  result : Except Halt (State × Out)

/-- `pkt_process` calls `ng_arp_entry_insert`, which comes to
    `arp_table_instance`. -/
def Event.insertsArpEntry : Event → Bool
  | .packet _ m => decide m.IsIpv4
  | _ => false

/-- What an event comes to while the process runs. -/
def ProcessEvent.result (s : State) (arpt : Bool) : ProcessEvent → Except Halt (State × Out)
  | .stack e malloc =>
      if e.insertsArpEntry && !(arpt || malloc) then .error .rteExit else step s e
  | .arpTableInstance malloc => if arpt || malloc then .ok (s, .ofRet 0) else .error .rteExit

/-- The ARP table is there behind the event. -/
def ProcessEvent.leavesArpTable (arpt : Bool) : ProcessEvent → Bool
  | .stack e _ => arpt || e.insertsArpEntry
  | .arpTableInstance _ => true

/-- One step of the process.  A call that waits makes none, and neither does
    one that accesses an invalid pointer. -/
def processStep : Process → ProcessEvent → Except Halt (Process × Report)
  | .running s arpt, e =>
      match e.result s arpt with
      | .ok (s', o) => .ok (.running s' (e.leavesArpTable arpt), ⟨s, .ok (s', o)⟩)
      | .error .rteExit => .ok (.exited, ⟨s, .error .rteExit⟩)
      | .error h => .error h
  | .exited, _ => .error .rteExit

/-- Events of a process with what they came to, oldest first. -/
abbrev ProcessHistory := List (ProcessEvent × Report)

/-- The process as it starts. -/
def Process.start (mac : List Byte) : Process := .running (State.init mac) false

/-- A run of the process, from its start. -/
abbrev ProcessRun (mac : List Byte) (hist : ProcessHistory) (p : Process) : Prop :=
  Run (StepsOf processStep) (.start mac) hist p

/-! ## What should happen -/

/-- A listening socket on the port: in LISTEN, with a descriptor. -/
def NgTcpStream.IsListener (t : NgTcpStream) (port : BitVec 16) : Prop :=
  t.listensOn port = true ∧ t.fd ≠ -1

instance (t : NgTcpStream) (port : BitVec 16) : Decidable (t.IsListener port) :=
  inferInstanceAs (Decidable (_ ∧ _))

/-- There is a listening socket on the port. -/
def State.HasListener (s : State) (port : BitVec 16) : Prop :=
  ∃ n ∈ s.tcbSet.nodes, n.2.IsListener port

instance (s : State) (port : BitVec 16) : Decidable (s.HasListener port) :=
  inferInstanceAs (Decidable (∃ n ∈ _, _))

/-- The event is an incoming segment. -/
def ProcessEvent.IsSegment : ProcessEvent → Prop
  | .stack (.packet _ _) _ => True
  | _ => False

/-- The step went as it should: an incoming segment has not ended the
    process, and where a block has come from SYN_RCVD to ESTABLISHED a
    listening socket on its port, if there is one, has been signalled. -/
structure WakesListener (en : ProcessEvent × Report) : Prop where
  no_exit : en.1.IsSegment → en.2.result ≠ .error .rteExit
  signalled : ∀ s' o, en.2.result = .ok (s', o) → ∀ a t,
    en.2.before.statusOf a = some .synRcvd → s'.tcb a = some t → t.status = .established →
    s'.HasListener t.dport →
      ∃ b u, (b, .signal) ∈ o.ops ∧ s'.tcb b = some u ∧ u.IsListener t.dport

/-- The blocks that can be taken for the listener on a port, in the order in
    which they are: those with the key zero, then those in LISTEN. -/
def listenerCandidates (tcbs : Table NgTcpStream) (port : BitVec 16) :
    List (Addr × NgTcpStream) :=
  (tcbs.nodes.filter fun n => n.2.hasKey 0 0 0 port) ++
    tcbs.nodes.filter fun n => n.2.listensOn port

/-- There is a candidate, and the first is a listening socket if there is any
    on the port. -/
def ListenerFirst (s : State) (port : BitVec 16) : Prop :=
  ∃ n ∈ (listenerCandidates s.tcbSet port).head?, s.HasListener port → n.2.IsListener port

instance (s : State) (port : BitVec 16) : Decidable (ListenerFirst s port) :=
  inferInstanceAs (Decidable (∃ n ∈ _, _))

/-- A segment finds the ARP table or the memory for it, and where it
    completes a handshake it finds the listener in front. -/
def FindsListener : Process → ProcessEvent → Prop
  | .running s arpt, .stack (.packet _ m) malloc =>
      (m.IsIpv4 → (arpt || malloc) = true) ∧
      (m.IsTcp → ∀ n ∈ s.found m, n.2.status = .synRcvd → m.segment.ack = true →
        ListenerFirst s n.2.dport)
  | _, _ => True

instance : (p : Process) → (e : ProcessEvent) → Decidable (FindsListener p e)
  | .running _ _, .stack (.packet _ _) _ =>
      inferInstanceAs (Decidable ((_ → _) ∧ (_ → ∀ n ∈ _, _ → _ → _)))
  | .running _ _, .stack (.udpOut _) _ | .running _ _, .stack (.tcpOut _) _
  | .running _ _, .stack (.nsocket _ _) _ | .running _ _, .stack (.nbind _ _ _) _
  | .running _ _, .stack (.nlisten _) _ | .running _ _, .stack (.naccept _) _
  | .running _ _, .stack (.nsend _ _ _) _ | .running _ _, .stack (.nrecv _ _) _
  | .running _ _, .stack (.nrecvfrom _ _ _) _ | .running _ _, .stack (.nsendto _ _ _ _ _) _
  | .running _ _, .stack (.nclose _ _) _ | .running _ _, .arpTableInstance _ | .exited, _ =>
      .isTrue trivial

/-! ## The search for the listener -/

variable {env : Env} {s s' : State} {e : Event} {m : Mbuf} {o : Out} {a : Addr}
  {t : NgTcpStream} {port : BitVec 16}

theorem hasListener_iff :
    s.HasListener port ↔ ∃ b u, s.tcb b = some u ∧ u.IsListener port := by
  constructor
  · rintro ⟨⟨b, u⟩, hmem, hu⟩
    exact ⟨b, u, Table.mem_nodes_iff.mp hmem, hu⟩
  · rintro ⟨b, u, hb, hu⟩
    exact ⟨(b, u), Table.mem_nodes_iff.mpr hb, hu⟩

theorem NgTcpStream.IsListener.status (h : t.IsListener port) : t.status = .listen := by
  have hl := h.1
  simp only [listensOn, Bool.and_eq_true, beq_iff_eq] at hl
  exact hl.2

theorem tcb_of_candidate {n : Addr × NgTcpStream}
    (h : n ∈ (listenerCandidates s.tcbSet port).head?) : s.tcb n.1 = some n.2 := by
  have hmem := List.mem_of_mem_head? h
  rw [listenerCandidates, List.mem_append, List.mem_filter, List.mem_filter] at hmem
  exact Table.mem_nodes_iff.mp (hmem.elim And.left And.left)

/-- The search for the key zero finds the first candidate. -/
theorem search_zero (tcbs : Table NgTcpStream) (port : BitVec 16) :
    ngTcpStreamSearch tcbs 0 0 0 port = (listenerCandidates tcbs port).head? := by
  rw [listenerCandidates, List.head?_append, List.head?_filter, List.head?_filter]
  unfold ngTcpStreamSearch Table.find?
  cases tcbs.nodes.find? fun n => n.2.hasKey 0 0 0 port <;> rfl

/-- The handshake that is being completed changes nothing about that: neither
    before nor behind it is its own block a listener. -/
theorem search_zero_setTcb (ht : s.tcb a = some t) (hst : t.status = .synRcvd) :
    ngTcpStreamSearch (s.setTcb a { t with status := .established }).tcbSet 0 0 0 port =
      (listenerCandidates s.tcbSet port).head?.map fun n =>
        (n.1, if n.1 = a then { t with status := .established } else n.2) := by
  -- the key has no status in it, and neither status is LISTEN
  have hcell : ∀ y, s.tcbSet.get? a = some y → y = t := fun y hy =>
    Option.some.inj (hy.symm.trans ht)
  have hkey : ∀ y, s.tcbSet.get? a = some y →
      NgTcpStream.hasKey { t with status := .established } 0 0 0 port = y.hasKey 0 0 0 port := by
    intro y hy
    rw [hcell y hy]
    rfl
  have hlisten : ∀ y, s.tcbSet.get? a = some y →
      NgTcpStream.listensOn { t with status := .established } port = y.listensOn port := by
    intro y hy
    rw [hcell y hy, NgTcpStream.listensOn, NgTcpStream.listensOn, hst]
    rfl
  rw [← search_zero]
  unfold ngTcpStreamSearch State.setTcb
  rw [Table.find?_modify hkey, Table.find?_modify hlisten]
  cases s.tcbSet.find? fun u => u.hasKey 0 0 0 port <;> rfl

/-- Nor does it change who listens. -/
theorem tcb_setTcb_listener {b : Addr} {u : NgTcpStream} (ht : s.tcb a = some t)
    (hst : t.status = .synRcvd) (hu : u.IsListener port) :
    (s.setTcb a { t with status := .established }).tcb b = some u ↔ s.tcb b = some u := by
  rw [tcb_setTcb]
  by_cases hb : b = a
  · subst hb
    have hnew : { t with status := .established } ≠ u := by
      rintro rfl
      cases hu.status
    have hold : t ≠ u := by
      rintro rfl
      rw [hu.status] at hst
      cases hst
    simp [ht, hold, hnew]
  · rw [if_neg hb]

theorem hasListener_setTcb (ht : s.tcb a = some t) (hst : t.status = .synRcvd) :
    (s.setTcb a { t with status := .established }).HasListener port ↔ s.HasListener port := by
  rw [hasListener_iff, hasListener_iff]
  constructor
  · rintro ⟨b, u, hb, hu⟩
    exact ⟨b, u, (tcb_setTcb_listener ht hst hu).mp hb, hu⟩
  · rintro ⟨b, u, hb, hu⟩
    exact ⟨b, u, (tcb_setTcb_listener ht hst hu).mpr hb, hu⟩

/-! ## What a segment comes to -/

/-- The segment completes the handshake of the block `t` at `a`. -/
structure State.Completes (s : State) (m : Mbuf) (a : Addr) (t : NgTcpStream) : Prop where
  isTcp : m.IsTcp
  finds : s.Finds m a t
  synRcvd : t.status = .synRcvd
  ack : m.segment.ack = true

/-- A segment that completes a handshake signals the first candidate, and
    ends the process where there is none. -/
theorem step_of_completes (h : s.Completes m a t) (env : Env) :
    step s (.packet env m) =
      match (listenerCandidates s.tcbSet t.dport).head? with
      | none => .error .rteExit
      | some n => .ok ((s.learnFrom env m).setTcb a { t with status := .established },
          { Out.ofRet 0 with ops := [(a, .segment .synRcvd m.segment), (n.1, .signal)] }) := by
  obtain ⟨hcksum, hsearch⟩ := State.finds_iff.mp h.finds
  have hsearch' : ngTcpStreamSearch (s.learnFrom env m).tcbSet (Ipv4Hdr.srcAddr m.iphdr)
      (Ipv4Hdr.dstAddr m.iphdr) (TcpHdr.srcPort m.l4hdr) (TcpHdr.dstPort m.l4hdr) =
        some (a, t) := hsearch
  have hseg : Segment.ofHdrs m.iphdr (TcpHdr.setCksum m.l4hdr 0) = m.segment := ofHdrs_setCksum ..
  have ht : (s.learnFrom env m).tcb a = some t := h.finds.tcb_eq
  have hzero : ngTcpStreamSearch
      ((s.learnFrom env m).setTcb a { t with status := .established }).tcbSet 0 0 0 t.dport =
        (listenerCandidates s.tcbSet t.dport).head?.map fun n =>
          (n.1, if n.1 = a then { t with status := .established } else n.2) :=
    search_zero_setTcb ht h.synRcvd
  simp only [step, pktProcess_of_tcp h.isTcp, ngTcpProcess, srcPort_setCksum, dstPort_setCksum,
    if_pos hcksum, hsearch', dispatchSegment, h.synRcvd, hseg, ngTcpHandleSynRcvd, h.ack,
    and_self, if_true, hzero]
  cases (listenerCandidates s.tcbSet t.dport).head? with
  | none => rfl
  | some n => rfl

/-! ## No other segment ends the process

  A crash aside, no handler fails; `ng_tcp_handle_syn_rcvd` alone can exit. -/

/-- A SYN whose block or whose ring could not be had. -/
theorem ngTcpHandleListen_error {seg : Segment} {halt : Halt}
    (h : ngTcpHandleListen env s t seg = .error halt) : halt = .segv := by
  simp only [ngTcpHandleListen] at h
  repeat' split at h
  all_goals cases h
  all_goals rfl

theorem enqueueRcv_error {f : NgTcpFragment} {halt : Halt} (h : t.enqueueRcv f = .error halt) :
    halt = .segv := by
  unfold NgTcpStream.enqueueRcv at h
  split at h
  · cases h
    rfl
  · cases h

theorem enqueueSnd_error {f : NgTcpFragment} {halt : Halt} (h : t.enqueueSnd f = .error halt) :
    halt = .segv := by
  unfold NgTcpStream.enqueueSnd at h
  split at h
  · cases h
    rfl
  · cases h

theorem storeAndAck_error {b : SegBranch} {tcphdr : Ptr} {len : Int} {delta : BitVec 32}
    {halt : Halt} (h : storeAndAck env b t tcphdr len delta = .error halt) : halt = .segv := by
  rcases bind_eq_error_iff.mp h with hput | ⟨⟨t₁, ops₁, ret₁⟩, -, h⟩
  · unfold ngTcpEnqueueRecvbuffer at hput
    split at hput
    · cases hput
    · split at hput
      · rename_i heq
        cases hput
        exact enqueueRcv_error heq
      · cases hput
  · rcases bind_eq_error_iff.mp h with hack | ⟨⟨t₂, ops₂, ret₂⟩, -, h⟩
    · unfold ngTcpSendAckpkt at hack
      split at hack
      · split at hack
        · rename_i heq
          cases hack
          exact enqueueSnd_error heq
        · cases hack
      · cases hack
    · cases h

/-- A block of `ng_tcp_handle_established` that crashes if it fails does so
    under its flag, too. -/
theorem ifFlag_error {tcphdr : Ptr} {flag : Byte}
    {block : NgTcpStream → Except Halt (NgTcpStream × List StreamOp)} {halt : Halt}
    (hblock : ∀ t x, block t = .error x → x = .segv)
    (h : ifFlag tcphdr flag block t = .error halt) : halt = .segv := by
  unfold ifFlag at h
  split at h
  · exact hblock _ _ h
  · cases h

theorem ngTcpHandleEstablished_error {tcphdr : Ptr} {tcplen : Int} {halt : Halt}
    (h : ngTcpHandleEstablished env t tcphdr tcplen = .error halt) : halt = .segv := by
  rcases bind_eq_error_iff.mp h with hpsh | ⟨⟨t₁, ops₁⟩, -, h⟩
  · exact ifFlag_error (fun _ _ => storeAndAck_error) hpsh
  · rcases bind_eq_error_iff.mp h with hfin | ⟨⟨t₂, ops₂⟩, -, h⟩
    · exact ifFlag_error (fun _ _ => storeAndAck_error) hfin
    · cases h

theorem udpProcess_error {halt : Halt} (h : udpProcess env s m = .error halt) :
    halt = .segv := by
  simp only [udpProcess] at h
  repeat' split at h
  all_goals cases h
  all_goals rfl

/-- `ng_tcp_process` fails only where a handler does. -/
theorem ngTcpProcess_error {halt : Halt} (h : ngTcpProcess env s m = .error halt) :
    ∃ a t, s.Finds m a t ∧
      dispatchSegment env s a t m.iphdr (TcpHdr.setCksum m.l4hdr 0) = .error halt := by
  simp only [ngTcpProcess, srcPort_setCksum, dstPort_setCksum] at h
  split at h
  · rename_i hcksum
    split at h
    · cases h
    · rename_i a t hfound
      rcases bind_eq_error_iff.mp h with hd | ⟨r, -, hret⟩
      · exact ⟨a, t, State.finds_iff.mpr ⟨hcksum, hfound⟩, hd⟩
      · cases hret
  · cases h

/-- The status switch exits only on the ACK of a block in SYN_RCVD. -/
theorem synRcvd_of_dispatch_exit
    (h : dispatchSegment env s a t m.iphdr (TcpHdr.setCksum m.l4hdr 0) = .error .rteExit) :
    t.status = .synRcvd ∧ m.segment.ack = true := by
  have hseg : Segment.ofHdrs m.iphdr (TcpHdr.setCksum m.l4hdr 0) = m.segment := ofHdrs_setCksum ..
  rw [dispatchSegment, hseg] at h
  split at h
  · cases ngTcpHandleListen_error h
  · rename_i hst
    unfold ngTcpHandleSynRcvd at h
    split at h
    · rename_i hack
      exact ⟨hst, hack.1⟩
    · cases h
  · rcases bind_eq_error_iff.mp h with hest | ⟨r, -, hret⟩
    · cases ngTcpHandleEstablished_error hest
    · cases hret
  all_goals cases h

/-- Only a segment that completes a handshake can end the process. -/
theorem completes_of_exit (h : step s (.packet env m) = .error .rteExit) :
    ∃ a t, s.Completes m a t := by
  by_cases hudp : m.IsUdp
  · rw [step, pktProcess_of_udp hudp] at h
    cases udpProcess_error h
  · by_cases htcp : m.IsTcp
    · rw [step, pktProcess_of_tcp htcp] at h
      obtain ⟨a, t, hf, hd⟩ := ngTcpProcess_error h
      obtain ⟨hst, hack⟩ := synRcvd_of_dispatch_exit hd
      exact ⟨a, t, htcp, hf, hst, hack⟩
    · -- the kernel interface gets the packet
      have hok : ∃ r, pktProcess env s m = .ok r := by
        unfold pktProcess
        split
        · rename_i hip
          rw [if_neg fun h => hudp ⟨hip, h⟩, if_neg fun h => htcp ⟨hip, h⟩]
          exact ⟨_, rfl⟩
        · exact ⟨_, rfl⟩
      obtain ⟨r, hr⟩ := hok
      rw [step, hr] at h
      cases h

/-- A packet of another protocol changes no block. -/
theorem isTcp_of_tcb_ne (h : step s (.packet env m) = .ok (s', o)) (hne : s'.tcb a ≠ s.tcb a) :
    m.IsTcp := by
  rcases pktProcess_cases h with ⟨-, hudp⟩ | ⟨htcp, -⟩ | ⟨-, -, -, hs'⟩
  · refine absurd ?_ hne
    rw [State.tcb, (udpProcess_tcbs hudp).1]
    rfl
  · exact htcp
  · refine absurd ?_ hne
    rw [hs']
    split <;> rfl

/-- A block comes from SYN_RCVD to ESTABLISHED by the segment that completes
    its handshake. -/
theorem completes_of_established (h : step s e = .ok (s', o))
    (hbefore : s.statusOf a = some .synRcvd) (hafter : s'.statusOf a = some .established) :
    ∃ env m t, e = .packet env m ∧ s.Completes m a t := by
  have hedge : StatusEdge s e a (s.statusOf a) (s'.statusOf a) :=
    statusEdge_of_tcbChange (tcbChange_of_step h a)
  rw [hbefore, hafter] at hedge
  -- of the edges of the diagram only the acknowledgement's is this one
  cases hedge with
  | @ack env m he hreceives hack =>
      obtain ⟨t, hf⟩ := hreceives
      have hst : t.status = .synRcvd := by
        rw [State.statusOf, hf.tcb_eq] at hbefore
        exact Option.some.inj hbefore
      subst he
      refine ⟨env, m, t, rfl, isTcp_of_tcb_ne (a := a) h fun heq => ?_, hf, hst, hack⟩
      rw [State.statusOf, heq, ← State.statusOf, hbefore] at hafter
      cases hafter

/-! ## One step of the process -/

/-- What a step of the process is: the stack's, or the end. -/
theorem processStep_ok {p p' : Process} {e : ProcessEvent} {r : Report}
    (h : processStep p e = .ok (p', r)) :
    ∃ s arpt, p = .running s arpt ∧ r.before = s ∧ r.result = e.result s arpt := by
  cases p with
  | exited => cases h
  | running s arpt =>
      refine ⟨s, arpt, rfl, ?_⟩
      simp only [processStep] at h
      split at h
      · rename_i s' o heq
        obtain ⟨-, rfl⟩ := Prod.mk.inj (Except.ok.inj h)
        exact ⟨rfl, heq.symm⟩
      · rename_i heq
        obtain ⟨-, rfl⟩ := Prod.mk.inj (Except.ok.inj h)
        exact ⟨rfl, heq.symm⟩
      · cases h

/-- No other block has come to ESTABLISHED. -/
theorem eq_of_established {c : Addr} {t' u : NgTcpStream} (hbefore : s.statusOf c = some .synRcvd)
    (hafter : (s.setTcb a t').tcb c = some u) (hst : u.status = .established) : c = a := by
  by_contra hne
  rw [tcb_setTcb, if_neg hne] at hafter
  rw [State.statusOf, hafter, Option.map_some, hst] at hbefore
  cases hbefore

/-- The step on a segment that completes a handshake goes as it should
    exactly if the first candidate is right. -/
theorem wakesListener_iff_of_completes {r : Report} {malloc : Bool} (h : s.Completes m a t)
    (hbefore : r.before = s) (hresult : r.result = step s (.packet env m)) :
    WakesListener (.stack (.packet env m) malloc, r) ↔ ListenerFirst s t.dport := by
  rw [step_of_completes h] at hresult
  cases hhead : (listenerCandidates s.tcbSet t.dport).head? with
  | none =>
      rw [hhead] at hresult
      refine iff_of_false (fun hw => hw.no_exit trivial hresult) ?_
      rintro ⟨n, hn, -⟩
      rw [hhead] at hn
      cases hn
  | some n =>
      rw [hhead] at hresult
      -- the ARP table, which changes first, is no part of the blocks
      have ht : (s.learnFrom env m).tcb a = some t := h.finds.tcb_eq
      have hn : (s.learnFrom env m).tcb n.1 = some n.2 := tcb_of_candidate hhead
      constructor
      · intro hw
        refine ⟨n, hhead, fun hl => ?_⟩
        obtain ⟨b, u, hmem, hb, hu⟩ := hw.signalled _ _ hresult a _
          (by rw [hbefore, State.statusOf, h.finds.tcb_eq, Option.map_some, h.synRcvd])
          (tcb_setTcb_at ht _) rfl ((hasListener_setTcb ht h.synRcvd).mpr hl)
        -- the block that was signalled is the first candidate
        obtain rfl : b = n.1 := by simpa using hmem
        rw [tcb_setTcb_listener ht h.synRcvd hu, hn] at hb
        exact Option.some.inj hb ▸ hu
      · rintro ⟨n', hn', hfirst⟩
        obtain rfl : n = n' := Option.some.inj (hhead.symm.trans hn')
        refine ⟨fun _ hexit => (by cases hresult.symm.trans hexit), ?_⟩
        intro s' o hok c t' hc ht' hst' hl
        obtain ⟨rfl, rfl⟩ := Prod.mk.inj (Except.ok.inj (hresult.symm.trans hok))
        rw [hbefore] at hc
        have hc' : (s.learnFrom env m).statusOf c = some .synRcvd := hc
        obtain rfl := eq_of_established hc' ht' hst'
        obtain rfl := Option.some.inj ((tcb_setTcb_at ht _).symm.trans ht')
        have hu := hfirst ((hasListener_setTcb ht h.synRcvd).mp hl)
        exact ⟨n.1, n.2, by simp, (tcb_setTcb_listener ht h.synRcvd hu).mpr hn, hu⟩

/-- What goes through is a step of the stack, or changes nothing of it. -/
theorem ProcessEvent.result_ok {e : ProcessEvent} {arpt : Bool}
    (h : e.result s arpt = .ok (s', o)) :
    (∃ event malloc, e = .stack event malloc ∧ step s event = .ok (s', o)) ∨ s' = s := by
  cases e with
  | stack event malloc =>
      rw [result] at h
      split at h
      · cases h
      · exact .inl ⟨event, malloc, rfl, h⟩
  | arpTableInstance malloc =>
      rw [result] at h
      split at h
      · obtain ⟨rfl, -⟩ := Prod.mk.inj (Except.ok.inj h)
        exact .inr rfl
      · cases h

/-- A step that completes no handshake goes as it should, unless it is a
    segment that ends the process. -/
theorem wakesListener_iff_of_not_completes {r : Report} {e : ProcessEvent} {arpt : Bool}
    (hbefore : r.before = s) (hresult : r.result = e.result s arpt)
    (hnone : ∀ env m malloc a t, e = .stack (.packet env m) malloc → ¬ s.Completes m a t) :
    WakesListener (e, r) ↔ (e.IsSegment → r.result ≠ .error .rteExit) := by
  refine ⟨WakesListener.no_exit, fun hexit => ⟨hexit, ?_⟩⟩
  intro s' o hok a t hsyn ht hst hl
  rw [hbefore] at hsyn
  have hafter : s'.statusOf a = some .established := by
    rw [State.statusOf, ht, Option.map_some, hst]
  rcases ProcessEvent.result_ok (hresult.symm.trans hok) with ⟨event, malloc, he, hstep⟩ | rfl
  -- no block can have come to ESTABLISHED
  · obtain ⟨env, m, u, rfl, hcompletes⟩ := completes_of_established hstep hsyn hafter
    exact absurd hcompletes (hnone env m malloc a u he)
  · rw [hsyn] at hafter
    cases hafter

/-- An incoming segment goes as it should exactly if it finds the ARP table
    and, where it completes a handshake, the listener. -/
theorem wakesListener_packet_iff {r : Report} {arpt malloc : Bool} (hbefore : r.before = s)
    (hresult : r.result = (ProcessEvent.stack (.packet env m) malloc).result s arpt) :
    WakesListener (.stack (.packet env m) malloc, r) ↔
      FindsListener (.running s arpt) (.stack (.packet env m) malloc) := by
  by_cases htable : m.IsIpv4 → (arpt || malloc) = true
  · have hstep : r.result = step s (.packet env m) := by
      rw [hresult, ProcessEvent.result, if_neg]
      simpa [Event.insertsArpEntry, or_iff_not_imp_left] using htable
    by_cases hc : ∃ a t, s.Completes m a t
    · obtain ⟨a, t, hc⟩ := hc
      rw [wakesListener_iff_of_completes hc hbefore hstep]
      constructor
      · intro hfirst
        refine ⟨htable, fun _ n hn _ _ => ?_⟩
        obtain rfl : (a, t) = n := Option.some.inj (hc.finds.symm.trans hn)
        exact hfirst
      · intro hfinds
        exact hfinds.2 hc.isTcp (a, t) hc.finds hc.synRcvd hc.ack
    · rw [wakesListener_iff_of_not_completes hbefore hresult]
      · refine iff_of_true (fun _ hexit => hc (completes_of_exit (hstep.symm.trans hexit)))
          ⟨htable, fun htcp n hn hst hack => ?_⟩
        exact absurd ⟨n.1, n.2, htcp, hn, hst, hack⟩ hc
      · rintro env' m' malloc' a t he hcompletes
        obtain ⟨⟨-, rfl⟩, -⟩ := by simpa using he
        exact hc ⟨a, t, hcompletes⟩
  · -- `arp_table_instance` finds no memory
    have hexit : r.result = .error .rteExit := by
      rw [hresult, ProcessEvent.result, if_pos]
      simpa [Event.insertsArpEntry] using htable
    exact iff_of_false (fun hw => hw.no_exit trivial hexit) fun hfinds => htable hfinds.1

/-- Every step of the process goes as it should exactly if its segment, if it
    is one, finds what it needs. -/
theorem wakesListener_iff {p p' : Process} {e : ProcessEvent} {r : Report}
    (h : processStep p e = .ok (p', r)) : WakesListener (e, r) ↔ FindsListener p e := by
  obtain ⟨s, arpt, rfl, hbefore, hresult⟩ := processStep_ok h
  have hother (hseg : ¬ e.IsSegment) : WakesListener (e, r) := by
    refine (wakesListener_iff_of_not_completes hbefore hresult ?_).mpr (absurd · hseg)
    rintro env m malloc a t rfl
    exact absurd trivial hseg
  cases e with
  | arpTableInstance malloc => exact iff_of_true (hother id) trivial
  | stack event malloc =>
      cases event with
      | packet env m => exact wakesListener_packet_iff hbefore hresult
      | udpOut | tcpOut | nsocket | nbind | nlisten | naccept | nsend | nrecv | nrecvfrom
      | nsendto | nclose => exact iff_of_true (hother id) trivial

/-! ## Every run -/

/-- In every run of the process, every incoming segment leaves it running and
    every handshake that completes signals a listening socket on its port, if
    there is one, exactly if every segment finds the ARP table or the memory
    for it and, where it completes a handshake, the listener in front. -/
theorem wakes_iff_finds {mac : List Byte} {hist : ProcessHistory} {p : Process}
    (hrun : ProcessRun mac hist p) :
    (∀ en ∈ hist, WakesListener en) ↔
      Run (Guarded FindsListener (StepsOf processStep)) (.start mac) hist p := by
  refine hrun.iff_guarded_history (I := fun _ _ => True)
    (P := fun hist _ => ∀ en ∈ hist, WakesListener en) trivial (by simp)
    (fun _ _ _ _ _ _ _ => trivial) fun hist p e r p' _ hstep => ?_
  rw [← wakesListener_iff hstep]
  simp [or_imp, forall_and]

/-- The process runs, and `P` holds of its stack. -/
def Process.runsWith (P : State → Bool) : Process → Bool
  | .running s _ => P s
  | .exited => false

theorem Process.exists_of_runsWith {P : State → Bool} {p : Process} (h : p.runsWith P = true) :
    ∃ s arpt, p = .running s arpt ∧ P s = true := by
  cases p with
  | running s arpt => exact ⟨s, arpt, rfl, h⟩
  | exited => cases h

/-- The ordinary handshake is such a run. -/
theorem wakes_iff_finds_connect : ∃ (hist : ProcessHistory) (s : State) (arpt : Bool),
    ProcessRun [] hist (.running s arpt) ∧ s.statusOf 1 = some .established ∧
    ∀ en ∈ hist, WakesListener en := by
  have hrun : execsTo (guardStep FindsListener .blocked processStep) (.start [])
      ((openServer ++ connectPeer).map (.stack · true))
      (fun _ p => p.runsWith fun s => s.statusOf 1 == some .established) = true := by
    decide +kernel
  obtain ⟨hist, p, hexec, hp⟩ := exec_of_execsTo hrun
  obtain ⟨s, arpt, rfl, hst⟩ := Process.exists_of_runsWith hp
  have hguarded := guarded_of_exec hexec
  exact ⟨hist, s, arpt, hguarded.of_guarded, beq_iff_eq.mp hst,
    (wakes_iff_finds hguarded.of_guarded).mpr hguarded⟩

/-! ## How it goes wrong -/

/-- The events `es` can be taken from the start, with memory for the ARP
    table, and so can `e` behind them, which does not find the listener; `P`
    holds of the process after it. -/
def goesWrong (es : List Event) (e : Event) (P : Process → Bool) : Bool :=
  execsTo processStep (.start []) (es.map (.stack · true)) fun _ p =>
    match processStep p (.stack e true) with
    | .ok (p', _) => !decide (FindsListener p (.stack e true)) && P p'
    | .error _ => false

theorem run_of_goesWrong {es : List Event} {e : Event} {P : Process → Bool}
    (h : goesWrong es e P = true) : ∃ hist p, ProcessRun [] hist p ∧ P p = true ∧
      ∃ en ∈ hist, ¬ WakesListener en := by
  obtain ⟨hist, p, hexec, hP⟩ := exec_of_execsTo h
  split at hP
  · rename_i p' r hstep
    rw [Bool.and_eq_true, Bool.not_eq_true', decide_eq_false_iff_not] at hP
    refine ⟨_, p', (run_of_exec hexec).step hstep, hP.2, (.stack e true, r), by simp, ?_⟩
    rw [wakesListener_iff hstep]
    exact hP.1
  · cases hP

/-- The listener is closed between the peer's SYN and its ACK: the ACK ends
    the process. -/
theorem ack_after_nclose_exits : ∃ hist, ProcessRun [] hist .exited ∧
    ∃ en ∈ hist, ¬ WakesListener en := by
  have h : goesWrong
      (openServer ++ [.packet .plain (peerSegment RTE_TCP_SYN_FLAG 500 0 []), .nclose .plain 3])
      (.packet .plain (peerSegment RTE_TCP_ACK_FLAG 501 1001 []))
      (fun p => !p.runsWith fun _ => true) = true := by
    decide +kernel
  obtain ⟨hist, p, hrun, hexited, hwrong⟩ := run_of_goesWrong h
  cases p with
  | running s arpt => cases hexited
  | exited => exact ⟨hist, hrun, hwrong⟩

/-- A segment from port 0 of 0.0.0.0 to port 9999 of 0.0.0.0. -/
def zeroSegment (flags : Byte) (seqnum acknum : BitVec 32) : Mbuf :=
  ngTcpPkt (fun _ => 0) 0 0 [2, 0, 0, 0, 0, 2] [2, 0, 0, 0, 0, 1]
    { NgTcpFragment.zero with
      dport := htons 9999
      seqnum := seqnum
      acknum := acknum
      hdrlenOff := 0x50
      tcpFlags := flags
      windows := TCP_INITIAL_WINDOW }

/-- The peer gives no address and no port: its own block has the key that the
    listener is looked for with, and the listener is not signalled. -/
theorem zero_address_signals_itself : ∃ hist s arpt, ProcessRun [] hist (.running s arpt) ∧
    s.HasListener (htons 9999) ∧ ∃ en ∈ hist, ¬ WakesListener en := by
  have h : goesWrong (openServer ++ [.packet .plain (zeroSegment RTE_TCP_SYN_FLAG 500 0)])
      (.packet .plain (zeroSegment RTE_TCP_ACK_FLAG 501 1001))
      (fun p => p.runsWith fun s => decide (s.HasListener (htons 9999))) = true := by
    decide +kernel
  obtain ⟨hist, p, hrun, hp, hwrong⟩ := run_of_goesWrong h
  obtain ⟨s, arpt, rfl, hlistener⟩ := Process.exists_of_runsWith hp
  exact ⟨hist, s, arpt, hrun, of_decide_eq_true hlistener, hwrong⟩

end LinuxLearning.Ustack
