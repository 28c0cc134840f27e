/-
  LinuxLearning.Ustack.EndOfStream

  Zero-length fragments and the direction of `rcv_nxt`.

  A zero-length fragment on `rcvbuf` makes `nrecv` return 0, which the
  application takes for the end of the stream.  The FIN block queues one, but
  so does the PSH block for a segment without payload; and where a header
  claims to be longer than its segment, the PSH block moves `rcv_nxt` back.
-/

import LinuxLearning.Ustack.StatusDiagram

namespace LinuxLearning.Ustack

open Lib

/-! ## The missing test -/

/-- A FIN was processed since the block was linked, after an operation. -/
def finReplay (seen : Bool) : StreamOp → Bool
  | .link _ | .unlink => false
  | .segment .established seg => seen || seg.fin
  | .segment _ _ | .sndPut _ _ | .sent _ | .sndRequeue _ _ | .rcvPut _ _ | .rcvGet _
  | .rcvRequeue _ _ | .accept _ | .signal => seen

/-- A segment with FIN was processed in ESTABLISHED since the block was
    linked. -/
def finSeen (ops : List StreamOp) : Bool := ops.foldl finReplay false

theorem finReplay_of_isBuffer {ops : List StreamOp} (h : ∀ op ∈ ops, op.isBuffer = true)
    (seen : Bool) : ops.foldl finReplay seen = seen :=
  foldl_of_isBuffer (fun _ op hop => by cases op <;> first | rfl | cases hop) h seen

/-- The test that the PSH block leaves out: the payload of a segment with PSH
    that finds a block in ESTABLISHED is not empty, unless nothing gets stored
    for it; together with a FIN it may be empty, or (the FIN making up for it)
    fall one byte short of the header. -/
def CountsForward (s : State) : Event → Prop
  | .packet env m => ∀ found ∈ s.found m, found.2.status = .established →
      m.segment.psh = true →
      if m.segment.fin = true then -1 ≤ m.segment.payloadlen
      else 0 < m.segment.payloadlen ∨ m.segment.payloadlen = 0 ∧
        (env.malloc (.recvFragment .psh) = false ∨ ∀ r ∈ found.2.rcvbuf, ¬ r.HasRoom)
  | _ => True

instance (s : State) : (e : Event) → Decidable (CountsForward s e)
  | .packet _ m => inferInstanceAs (Decidable (∀ found ∈ s.found m, _ → _ → ite _ _ _))
  | .udpOut _ | .tcpOut _ | .nsocket _ _ | .nbind _ _ _ | .nlisten _ | .naccept _
  | .nsend _ _ _ | .nrecv _ _ | .nrecvfrom _ _ _ | .nsendto _ _ _ _ _ | .nclose _ _ =>
      .isTrue trivial

/-! ## The invariant -/

/-- Empty fragments come from FINs. -/
def EmptyFromFin (past : List StreamOp) (cell : Option NgTcpStream) : Prop :=
  ∀ t ∈ cell, ∀ f ∈ t.rcvItems, f.length = 0 → finSeen past = true

theorem EmptyFromFin.keep {past ops : List StreamOp} {t t' : NgTcpStream}
    (h : EmptyFromFin past (some t)) (hfin : ∀ seen, ops.foldl finReplay seen = seen)
    (hitems : ∀ f ∈ t'.rcvItems, f ∈ t.rcvItems ∨ f.length ≠ 0) :
    EmptyFromFin (past ++ ops) (some t') := by
  rintro _ ⟨⟩ f hf hzero
  rw [finSeen, List.foldl_append, hfin]
  rcases hitems f hf with hold | hnew
  · exact h t rfl f hold hzero
  · exact absurd hzero hnew

theorem EmptyFromFin.of_nil {past : List StreamOp} {t : NgTcpStream} (h : t.rcvItems = []) :
    EmptyFromFin past (some t) := by
  rintro _ ⟨⟩ f hf
  rw [h] at hf
  cases hf

/-- The PSH block without a FIN stores no empty fragment. -/
theorem rcvItems_of_established {env : Env} {m : Mbuf} {t t' : NgTcpStream}
    {ops : List StreamOp} (h : EstablishedStep env m t ops t') (hfin : m.segment.fin = false)
    (hpsh : m.segment.psh = true → 0 < m.segment.payloadlen ∨ m.segment.payloadlen = 0 ∧
      (env.malloc (.recvFragment .psh) = false ∨ ∀ r ∈ t.rcvbuf, ¬ r.HasRoom)) :
    ∀ f ∈ t'.rcvItems, f ∈ t.rcvItems ∨ f.length ≠ 0 := by
  obtain ⟨finPut, hfinPut, hputs, hitems⟩ := h.puts
  intro f hf
  rw [hitems, hputs, List.mem_append, List.mem_append] at hf
  rcases hf with hold | hnew | hnew
  · exact .inl hold
  · split at hnew
    · rename_i hflag
      have hsome := eq_some_of_mem_putItems hnew
      have hlen : f.length = m.segment.payloadlen.toNat := by
        rw [(recvFragment_payload hsome).1, hdrlenOf_setCksum]
        rfl
      -- a payload of no bytes is not stored: no memory, or no room
      refine .inr fun hzero => ?_
      rcases hpsh hflag with hpos | ⟨-, hfail | hfull⟩
      · omega
      · simp [recvFragment, hfail] at hsome
      · cases hr : t.rcvbuf with
        | none =>
            rw [hr, putItems] at hnew
            · cases hnew
            · simp
        | some r =>
            rw [hr] at hnew
            exact hfull r hr (hasRoom_of_mem_putItems hnew)
    · cases hnew
  · rw [hfin] at hfinPut
    exact absurd (hfinPut f hnew).1 (by simp)

theorem emptyFromFin_step {s : State} {e : Event} {a : Addr} {past ops : List StreamOp}
    {before after : Option NgTcpStream} (hguard : CountsForward s e)
    (hinv : EmptyFromFin past before) (h : TcbChange s e a ops before after) :
    EmptyFromFin (past ++ ops) after := by
  cases h with
  | idle => rwa [List.append_nil]
  | @seen env m t he hf hest =>
      refine hinv.keep (fun seen => ?_) (fun f hf => .inl hf)
      cases hst : t.status <;> first | rfl | exact absurd hst hest
  | opened he ha hsnd hrcv => exact .of_nil hrcv
  | bound | listening | accepted | handshake => exact hinv.keep (fun _ => rfl) fun f hf => .inl hf
  | sending he hinfo hput | closing he hinfo hst hput =>
      obtain ⟨r, -, rfl, -⟩ := enqueueSnd_ok hput
      exact hinv.keep (fun _ => rfl) fun f hf => .inl hf
  | @reading fd len t t' done buf ret he hinfo hread =>
      have hok := nrecvStream_ok hread
      refine hinv.keep (finReplay_of_isBuffer hok.isBuffer) fun f hf => ?_
      cases hok with
      | whole hr hitems =>
          rw [NgTcpStream.rcvItems, hr, ringItems_some, hitems]
          exact .inl (List.mem_cons_of_mem _ hf)
      | part hr hitems hlen hdata hput =>
          rw [NgTcpStream.rcvItems, ringItems_some, hput, List.mem_append,
            List.mem_singleton] at hf
          rw [NgTcpStream.rcvItems, hr, ringItems_some, hitems]
          rcases hf with hold | rfl
          · exact .inl (List.mem_cons_of_mem _ hold)
          · refine .inr ?_
            simp only [NgTcpFragment.shift]
            omega
  | closed | destroyed => rintro _ ⟨⟩
  | synAcked he hf hst hsyn ha hc =>
      obtain ⟨-, -, -, -, hrcv⟩ := ngTcpStreamCreate_ok hc
      exact .of_nil hrcv
  | synUnanswered he hf hst hsyn ha hc =>
      obtain ⟨-, -, -, -, hrcv⟩ := ngTcpStreamCreate_ok hc
      exact .of_nil hrcv
  | @data env m t t' done he hf hst hest =>
      subst he
      have hok := ngTcpHandleEstablished_ok hest
      cases hfin : m.segment.fin with
      | true =>
          -- the segment itself is the FIN
          rintro _ ⟨⟩ f - -
          rw [finSeen, List.foldl_append, List.foldl_cons, finReplay_of_isBuffer hok.isBuffer]
          simp [finReplay, hfin]
      | false =>
          refine hinv.keep (fun seen => ?_) (rcvItems_of_established hok hfin fun hpsh => ?_)
          · rw [List.foldl_cons, finReplay_of_isBuffer hok.isBuffer]
            simp [finReplay, hfin]
          · have htest := hguard (a, t) hf hst hpsh
            rwa [if_neg (by simp [hfin])] at htest
  | @output env t he =>
      have hok := tcpOutStream_cases s.arpt t
      refine hinv.keep (finReplay_of_isBuffer hok.isBuffer) fun f hf => .inl ?_
      rw [hok.fields] at hf
      exact hf

/-! ## The receive counter -/

/-- The step leaves `rcv_nxt` alone, or advances it by at most the payload of
    the segment it processes and one for a FIN. -/
def RcvAdvances (s : State) (e : Event) (a : Addr) (t t' : NgTcpStream) : Prop :=
  t'.rcvNxt = t.rcvNxt ∨ ∃ env m, e = .packet env m ∧ s.Receives m a ∧
    ∃ k ≤ m.segment.payloadlen.toNat + 1, t'.rcvNxt = t.rcvNxt + BitVec.ofNat 32 k

theorem rcvAdvances_step {s : State} {e : Event} {a : Addr} {ops : List StreamOp}
    {t t' : NgTcpStream} (hguard : CountsForward s e)
    (h : TcbChange s e a ops (some t) (some t')) : RcvAdvances s e a t t' := by
  cases h with
  | idle | seen | bound | listening | accepted | handshake => exact .inl rfl
  | sending he hinfo hput | closing he hinfo hst hput =>
      obtain ⟨r, -, rfl, -⟩ := enqueueSnd_ok hput
      exact .inl rfl
  | reading he hinfo hread => exact .inl (by rw [(nrecvStream_ok hread).fields])
  | output => exact .inl (by rw [(tcpOutStream_cases ..).fields])
  | @data env m _ _ done he hf hst hest =>
      subst he
      refine .inr ⟨env, m, rfl, ⟨t, hf⟩, ?_⟩
      have htest := hguard (a, t) hf hst
      have hbounds : 0 ≤ advance m.segment ∧
          advance m.segment ≤ m.segment.payloadlen.toNat + 1 := by
        unfold advance
        cases hp : m.segment.psh <;> cases hfin : m.segment.fin <;>
          simp only [hp, hfin, forall_const, if_true, if_false, Bool.false_eq_true] at htest ⊢ <;>
          omega
      refine ⟨(advance m.segment).toNat, by omega, ?_⟩
      rw [(ngTcpHandleEstablished_ok hest).fields, rcvNxt_add_advance, ← BitVec.ofInt_natCast,
        Int.toNat_of_nonneg hbounds.1]

/-- In every run whose segments pass the missing test, an empty fragment is on
    a block's `rcvbuf` only after a FIN, and no step moves `rcv_nxt` back or
    too far. -/
theorem end_of_stream {mac : List Byte} {hist : History} {s' : State} {e : Event} {o : Out}
    (hrun : GuardedRun CountsForward (State.init mac) (hist ++ [(e, o)]) s') (a : Addr) :
    (∀ t' ∈ s'.tcb a, ∀ f ∈ t'.rcvItems, f.length = 0 →
      finSeen (opsOf (hist ++ [(e, o)]) a) = true) ∧
    ∃ s, GuardedRun CountsForward (State.init mac) hist s ∧
      ∀ t ∈ s.tcb a, ∀ t' ∈ s'.tcb a, RcvAdvances s e a t t' := by
  have hinit : ∀ a, EmptyFromFin [] ((State.init mac).tcb a) := by rintro a _ ⟨⟩
  refine ⟨guardedRun_tcb_invariant hinit
    (fun s e a past ops before after hguard hinv h => emptyFromFin_step hguard hinv h) hrun a, ?_⟩
  obtain ⟨s, hpre, hguard, hR⟩ := hrun.last_step
  refine ⟨s, hpre, fun t ht t' ht' => ?_⟩
  have hchange := tcbChange_of_step hR a
  rw [Option.mem_def.mp ht, Option.mem_def.mp ht'] at hchange
  exact rcvAdvances_step hguard hchange

/-- One byte, and then the FIN: the empty fragment is there, and so was the
    FIN. -/
theorem end_of_stream_fin : ∃ (hist : History) (e : Event) (o : Out) (s' : State),
    GuardedRun CountsForward (State.init []) (hist ++ [(e, o)]) s' ∧
    (cellRcv (s'.tcb 1)).map (·.length) = [1, 0] ∧
    (∀ t' ∈ s'.tcb 1, ∀ f ∈ t'.rcvItems, f.length = 0 →
      finSeen (opsOf (hist ++ [(e, o)]) 1) = true) ∧
    ∃ s, GuardedRun CountsForward (State.init []) hist s ∧
      ∀ t ∈ s.tcb 1, ∀ t' ∈ s'.tcb 1, RcvAdvances s e 1 t t' := by
  have hrun : guardedStepsTo CountsForward (State.init []) (openServer ++ connectPeer ++
      [.packet .plain (peerSegment (RTE_TCP_PSH_FLAG ||| RTE_TCP_ACK_FLAG) 501 1001 [63])])
      (.packet .plain (peerSegment (RTE_TCP_FIN_FLAG ||| RTE_TCP_ACK_FLAG) 502 1001 []))
      (fun _ s' _ => (cellRcv (s'.tcb 1)).map (·.length) == [1, 0]) = true := by
    decide +kernel
  obtain ⟨hist, s, s', o, hrun, hstep, hP⟩ := step_of_guardedStepsTo hrun
  rw [beq_iff_eq] at hP
  have hlast := hrun.step hstep
  exact ⟨hist, _, o, s', hlast, hP, end_of_stream hlast 1⟩

/-- Without the test, a segment with PSH and no payload ends the stream, and
    one whose header claims 60 of its 20 bytes moves `rcv_nxt` back by 40. -/
theorem no_payload_ends_stream :
    (∃ (hist : History) (s : State), SystemRun (State.init []) hist s ∧
      (cellRcv (s.tcb 1)).map (·.length) = [0] ∧ finSeen (opsOf hist 1) = false) ∧
    (∃ (hist : History) (s s' : State) (o : Out), SystemRun (State.init []) hist s ∧
      step s (.packet .plain
        (peerSegmentOff 15 (RTE_TCP_PSH_FLAG ||| RTE_TCP_ACK_FLAG) 501 1001 [])) = .ok (s', o) ∧
      (s.tcb 1).map NgTcpStream.rcvNxt = some 501 ∧
      (s'.tcb 1).map NgTcpStream.rcvNxt = some 461) := by
  constructor
  · have hrun : runsTo (State.init []) (openServer ++ connectPeer ++
        [.packet .plain (peerSegment (RTE_TCP_PSH_FLAG ||| RTE_TCP_ACK_FLAG) 501 1001 [])])
        (fun hist s => (cellRcv (s.tcb 1)).map (·.length) == [0] &&
          finSeen (opsOf hist 1) == false) = true := by
      decide +kernel
    obtain ⟨hist, s, hrun, hP⟩ := run_of_runsTo hrun
    rw [Bool.and_eq_true, beq_iff_eq, beq_iff_eq] at hP
    exact ⟨hist, s, hrun, hP⟩
  · have hrun : stepsTo (State.init []) (openServer ++ connectPeer)
        (.packet .plain
          (peerSegmentOff 15 (RTE_TCP_PSH_FLAG ||| RTE_TCP_ACK_FLAG) 501 1001 []))
        (fun s s' _ => (s.tcb 1).map NgTcpStream.rcvNxt == some 501 &&
          (s'.tcb 1).map NgTcpStream.rcvNxt == some 461) = true := by
      decide +kernel
    obtain ⟨hist, s, s', o, hrun, hstep, hP⟩ := step_of_stepsTo hrun
    rw [Bool.and_eq_true, beq_iff_eq, beq_iff_eq] at hP
    exact ⟨hist, s, s', o, hrun, hstep, hP⟩

end LinuxLearning.Ustack
