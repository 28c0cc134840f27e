/-
  LinuxLearning.Ustack.Handshake

  How a block gets to ESTABLISHED.

  `ng_tcp_handle_syn_rcvd` compares `recv_ack` with `snd_nxt + 1` and does
  nothing with the result; it looks at neither `sent_seq` nor SYN and RST.
  In the runs whose segments happen to pass these tests, every established
  connection has seen the acknowledgement of its SYN-ACK.
-/

import LinuxLearning.Ustack.StatusDiagram

namespace LinuxLearning.Ustack

open Lib

/-- The segment acknowledges the SYN-ACK numbered `isn` that answered
    `syn`. -/
structure Segment.Acknowledges (seg syn : Segment) (isn : BitVec 32) : Prop where
  sip : seg.sip = syn.sip
  dip : seg.dip = syn.dip
  sport : seg.sport = syn.sport
  dport : seg.dport = syn.dport
  ack : seg.ack = true
  no_syn : seg.syn = false
  no_rst : seg.rst = false
  recvAck : seg.recvAck = isn + 1
  sentSeq : seg.sentSeq = syn.sentSeq + 1

/-- `ops` ends with the creation of the block for the SYN `syn`, the SYN-ACK
    `synAck` that answered it, and the operations `rest` since. -/
structure PassiveOpen (ops : List StreamOp) (syn : Segment) (synAck : NgTcpFragment)
    (rest : List StreamOp) : Prop where
  split : ∃ pre stored, ops = pre ++ .link (some syn) :: .sndPut synAck stored :: rest
  flags : synAck.tcpFlags = RTE_TCP_SYN_FLAG ||| RTE_TCP_ACK_FLAG
  no_link : ∀ origin, .link origin ∉ rest

/-- The segments that were found to be for the block. -/
def segments (ops : List StreamOp) : List Segment :=
  ops.filterMap fun
    | .segment _ seg => some seg
    | _ => none

theorem segments_append (ops₁ ops₂ : List StreamOp) :
    segments (ops₁ ++ ops₂) = segments ops₁ ++ segments ops₂ := List.filterMap_append ..

/-- The block was created for a SYN, and a segment that acknowledges its
    SYN-ACK has been received since. -/
def HandshakeDone (ops : List StreamOp) : Prop :=
  ∃ syn synAck rest, PassiveOpen ops syn synAck rest ∧
    ∃ seg ∈ segments rest, seg.Acknowledges syn synAck.seqnum

/-- The test that `ng_tcp_handle_syn_rcvd` leaves out: an ACK segment that
    finds a block in SYN_RCVD has SYN and RST clear, acknowledges the
    SYN-ACK and comes next in sequence. -/
def AnswersSynAck (s : State) : Event → Prop
  | .packet _ m => ∀ found ∈ s.found m, found.2.status = .synRcvd → m.segment.ack = true →
      m.segment.syn = false ∧ m.segment.rst = false ∧
      m.segment.recvAck = found.2.sndNxt + 1 ∧ m.segment.sentSeq = found.2.rcvNxt
  | _ => True

instance (s : State) : (e : Event) → Decidable (AnswersSynAck s e)
  | .packet _ m => inferInstanceAs (Decidable (∀ found ∈ s.found m, _ → _ → _ ∧ _ ∧ _ ∧ _))
  | .udpOut _ | .tcpOut _ | .nsocket _ _ | .nbind _ _ _ | .nlisten _ | .naccept _
  | .nsend _ _ _ | .nrecv _ _ | .nrecvfrom _ _ _ | .nsendto _ _ _ _ _ | .nclose _ _ =>
      .isTrue trivial

/-! ## The invariant -/

theorem PassiveOpen.append {past rest ops : List StreamOp} {syn : Segment}
    {synAck : NgTcpFragment} (h : PassiveOpen past syn synAck rest)
    (hops : ∀ origin, .link origin ∉ ops) :
    PassiveOpen (past ++ ops) syn synAck (rest ++ ops) where
  split := by
    obtain ⟨pre, stored, hsplit⟩ := h.split
    exact ⟨pre, stored, by simp [hsplit]⟩
  flags := h.flags
  no_link := fun origin hmem => by
    rcases List.mem_append.mp hmem with hmem | hmem
    · exact h.no_link origin hmem
    · exact hops origin hmem

theorem HandshakeDone.append {past ops : List StreamOp} (h : HandshakeDone past)
    (hops : ∀ origin, .link origin ∉ ops) : HandshakeDone (past ++ ops) := by
  obtain ⟨syn, synAck, rest, hopen, seg, hseg, hack⟩ := h
  refine ⟨syn, synAck, rest ++ ops, hopen.append hops, seg, ?_, hack⟩
  rw [segments_append]
  exact List.mem_append_left _ hseg

/-- Only a segment without RST completes a handshake. -/
theorem HandshakeDone.exists_segment {ops : List StreamOp} (h : HandshakeDone ops) :
    ∃ seg ∈ segments ops, seg.rst = false := by
  obtain ⟨syn, synAck, rest, hopen, seg, hseg, hack⟩ := h
  obtain ⟨pre, stored, rfl⟩ := hopen.split
  refine ⟨seg, ?_, hack.no_rst⟩
  rw [segments_append]
  exact List.mem_append_right _ hseg

/-- The block waits for the acknowledgement of its SYN-ACK. -/
def AwaitsAck (past : List StreamOp) (t : NgTcpStream) : Prop :=
  ∃ syn synAck rest, PassiveOpen past syn synAck rest ∧
    t.hasKey syn.sip syn.dip syn.sport syn.dport = true ∧
    t.sndNxt = synAck.seqnum ∧ t.rcvNxt = syn.sentSeq + 1

/-- A block in SYN_RCVD awaits its acknowledgement; one in ESTABLISHED has
    had it. -/
structure HandshakeInv (past : List StreamOp) (cell : Option NgTcpStream) : Prop where
  synRcvd : ∀ t ∈ cell, t.status = .synRcvd → AwaitsAck past t
  established : ∀ t ∈ cell, t.status = .established → HandshakeDone past

/-- Nothing is claimed of a block in another status. -/
theorem HandshakeInv.of_status {past : List StreamOp} {t : NgTcpStream}
    (hsyn : t.status ≠ .synRcvd) (hest : t.status ≠ .established) :
    HandshakeInv past (some t) where
  synRcvd := by
    rintro _ ⟨⟩ h
    exact absurd h hsyn
  established := by
    rintro _ ⟨⟩ h
    exact absurd h hest

/-- Changes of other fields keep the invariant. -/
theorem HandshakeInv.keep {past ops : List StreamOp} {t t' : NgTcpStream}
    (h : HandshakeInv past (some t)) (hops : ∀ origin, .link origin ∉ ops)
    (hstatus : t'.status = t.status)
    (hkey : ∀ sip dip sport dport, t'.hasKey sip dip sport dport = t.hasKey sip dip sport dport)
    (hsnd : t'.sndNxt = t.sndNxt) (hrcv : t'.rcvNxt = t.rcvNxt) :
    HandshakeInv (past ++ ops) (some t') where
  synRcvd := by
    rintro _ ⟨⟩ hst
    obtain ⟨syn, synAck, rest, hopen, hk, hs, hr⟩ := h.synRcvd t rfl (hstatus ▸ hst)
    exact ⟨syn, synAck, rest ++ ops, hopen.append hops, by rw [hkey, hk], by rw [hsnd, hs],
      by rw [hrcv, hr]⟩
  established := by
    rintro _ ⟨⟩ hst
    exact (h.established t rfl (hstatus ▸ hst)).append hops

theorem link_notMem_of_isBuffer {ops : List StreamOp} (h : ∀ op ∈ ops, op.isBuffer = true)
    (origin : Option Segment) : .link origin ∉ ops := fun hmem => by
  cases h _ hmem

/-- The acknowledgement that the handler accepts takes the block to
    ESTABLISHED. -/
theorem handshakeDone_of_ack {past : List StreamOp} {t : NgTcpStream} {seg : Segment}
    (h : AwaitsAck past t)
    (hkey : t.sip = seg.sip ∧ t.dip = seg.dip ∧ t.sport = seg.sport ∧ t.dport = seg.dport)
    (hack : seg.ack = true)
    (htest : seg.syn = false ∧ seg.rst = false ∧ seg.recvAck = t.sndNxt + 1 ∧
      seg.sentSeq = t.rcvNxt) : HandshakeDone (past ++ [.segment .synRcvd seg]) := by
  obtain ⟨syn, synAck, rest, hopen, hk, hs, hr⟩ := h
  obtain ⟨hsyn, hrst, hrecv, hsent⟩ := htest
  obtain ⟨hsip, hdip, hsport, hdport⟩ := hkey
  simp only [NgTcpStream.hasKey, Bool.and_eq_true, beq_iff_eq] at hk
  obtain ⟨⟨⟨hk₁, hk₂⟩, hk₃⟩, hk₄⟩ := hk
  refine ⟨syn, synAck, _, hopen.append (by simp), seg, by simp [segments], ?_⟩
  exact {
    sip := by rw [← hsip, hk₁]
    dip := by rw [← hdip, hk₂]
    sport := by rw [← hsport, hk₃]
    dport := by rw [← hdport, hk₄]
    ack := hack
    no_syn := hsyn
    no_rst := hrst
    recvAck := by rw [hrecv, hs]
    sentSeq := by rw [hsent, hr] }

theorem handshakeInv_step {s : State} {e : Event} {a : Addr} {past ops : List StreamOp}
    {before after : Option NgTcpStream} (hguard : AnswersSynAck s e)
    (hinv : HandshakeInv past before) (h : TcbChange s e a ops before after) :
    HandshakeInv (past ++ ops) after := by
  cases h with
  | idle => rwa [List.append_nil]
  | seen => exact hinv.keep (by simp) rfl (fun _ _ _ _ => rfl) rfl rfl
  | opened => exact .of_status (by simp) (by simp)
  | bound | listening | closing => exact .of_status (by simp) (by simp)
  | accepted => exact hinv.keep (by simp) rfl (fun _ _ _ _ => rfl) rfl rfl
  | sending he hinfo hput =>
      obtain ⟨r, -, rfl, -⟩ := enqueueSnd_ok hput
      exact hinv.keep (by simp) rfl (fun _ _ _ _ => rfl) rfl rfl
  | reading he hinfo hread =>
      rw [(nrecvStream_ok hread).fields]
      exact hinv.keep (link_notMem_of_isBuffer (nrecvStream_ok hread).isBuffer) rfl
        (fun _ _ _ _ => rfl) rfl rfl
  | closed | destroyed => exact ⟨by rintro _ ⟨⟩, by rintro _ ⟨⟩⟩
  | @synAcked env m l t syn live r he hf hst hsyn ha hc =>
      obtain ⟨⟨hsip, hdip, hsport, hdport⟩, -⟩ := ngTcpStreamCreate_ok hc
      refine ⟨?_, by rintro _ ⟨⟩ ⟨⟩⟩
      rintro _ ⟨⟩ -
      refine ⟨m.segment, synAckFragment syn m.segment, [], ⟨⟨past, _, rfl⟩, rfl, by simp⟩, ?_,
        rfl, rfl⟩
      -- the block got the key of the SYN
      simp [NgTcpStream.hasKey, hsip, hdip, hsport, hdport]
  | synUnanswered he hf hst hsyn ha hc =>
      obtain ⟨-, -, hlisten, -⟩ := ngTcpStreamCreate_ok hc
      exact .of_status (by simp [hlisten]) (by simp [hlisten])
  | @handshake env m t he hf hst hack =>
      subst he
      have hkey := hasKey_of_search (State.finds_iff.mp hf).2 (by simp [hst])
      have htest := hguard (a, t) hf hst hack
      refine ⟨by rintro _ ⟨⟩ ⟨⟩, ?_⟩
      rintro _ ⟨⟩ -
      -- the condition is the comparison whose branch is empty in the source
      exact handshakeDone_of_ack (hinv.synRcvd t rfl hst) hkey hack htest
  | @data env m t t' done he hf hst hest =>
      have hok := ngTcpHandleEstablished_ok hest
      have hnolink : ∀ origin,
          .link origin ∉ StreamOp.segment .established m.segment :: coreOps done := by
        intro origin hmem
        rcases List.mem_cons.mp hmem with h | h
        · cases h
        · exact link_notMem_of_isBuffer hok.isBuffer origin h
      refine ⟨?_, ?_⟩
      · rintro _ ⟨⟩ hst'
        rw [hok.fields] at hst'
        -- ESTABLISHED or CLOSE_WAIT, not SYN_RCVD
        simp only [hst] at hst'
        split at hst' <;> cases hst'
      · rintro _ ⟨⟩ -
        exact (hinv.established t rfl hst).append hnolink
  | @output env t he =>
      have hout := tcpOutStream_cases s.arpt t
      rw [hout.fields]
      exact hinv.keep (link_notMem_of_isBuffer hout.isBuffer) rfl (fun _ _ _ _ => rfl) rfl rfl

/-- In every run in which the segments that find a block in SYN_RCVD pass the
    missing test, an established block has seen the acknowledgement of its
    SYN-ACK. -/
theorem established_after_handshake {mac : List Byte} {hist : History} {s : State} {a : Addr}
    {t : NgTcpStream} (hrun : GuardedRun AnswersSynAck (State.init mac) hist s)
    (ht : s.tcb a = some t) (hst : t.status = .established) :
    HandshakeDone (opsOf hist a) := by
  have hinit : ∀ a, HandshakeInv [] ((State.init mac).tcb a) := fun a =>
    ⟨by rintro _ ⟨⟩, by rintro _ ⟨⟩⟩
  have hinv := guardedRun_tcb_invariant hinit
    (fun s e a past ops before after hguard hinv h => handshakeInv_step hguard hinv h) hrun a
  exact hinv.established t ht hst

/-- The ordinary handshake is such a run. -/
theorem established_after_handshake_connect : ∃ (hist : History) (s : State) (t : NgTcpStream),
    GuardedRun AnswersSynAck (State.init []) hist s ∧ s.tcb 1 = some t ∧
    t.status = .established ∧ HandshakeDone (opsOf hist 1) := by
  have hrun : guardedRunsTo AnswersSynAck (State.init []) (openServer ++ connectPeer)
      (fun _ s => s.statusOf 1 == some .established) = true := by
    decide +kernel
  obtain ⟨hist, s, hrun, hst⟩ := run_of_guardedRunsTo hrun
  rw [beq_iff_eq] at hst
  obtain ⟨t, ht, hst⟩ := Option.map_eq_some_iff.mp hst
  exact ⟨hist, s, t, hrun, ht, hst, established_after_handshake hrun ht hst⟩

/-- A reset that acknowledges nothing establishes a connection. -/
theorem reset_establishes : ∃ (hist : History) (s : State),
    SystemRun (State.init []) hist s ∧ s.statusOf 1 = some .established ∧
    (segments (opsOf hist 1)).map (fun seg => (seg.sentSeq, seg.recvAck, seg.rst)) =
      [(77, 78, true)] ∧
    ¬ HandshakeDone (opsOf hist 1) := by
  have hrun : runsTo (State.init []) (openServer ++
      [.packet .plain (peerSegment RTE_TCP_SYN_FLAG 500 0 []),
       .packet .plain (peerSegment (RTE_TCP_RST_FLAG ||| RTE_TCP_ACK_FLAG) 77 78 [])])
      (fun hist s => s.statusOf 1 == some .established &&
        (segments (opsOf hist 1)).map (fun seg => (seg.sentSeq, seg.recvAck, seg.rst)) ==
          [(77, 78, true)]) = true := by
    decide +kernel
  obtain ⟨hist, s, hrun, hP⟩ := run_of_runsTo hrun
  rw [Bool.and_eq_true, beq_iff_eq, beq_iff_eq] at hP
  refine ⟨hist, s, hrun, hP.1, hP.2, fun hdone => ?_⟩
  obtain ⟨seg, hseg, hrst⟩ := hdone.exists_segment
  have hmem := List.mem_map_of_mem (f := fun seg => (seg.sentSeq, seg.recvAck, seg.rst)) hseg
  rw [hP.2, List.mem_singleton] at hmem
  simp only [Prod.mk.injEq, hrst] at hmem
  exact absurd hmem.2.2 (by decide)

end LinuxLearning.Ustack
