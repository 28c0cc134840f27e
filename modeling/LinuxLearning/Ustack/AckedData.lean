/-
  LinuxLearning.Ustack.AckedData

  Is what the stack acknowledges also stored?

  `ng_tcp_handle_established` advances `rcv_nxt` and queues the
  acknowledgement whatever `ng_tcp_enqueue_recvbuffer` answers, and a FIN
  without PSH advances it over a payload that is not even offered.
-/

import LinuxLearning.Ustack.StatusDiagram

namespace LinuxLearning.Ustack

open Lib

variable {env : Env} {m : Mbuf} {t t' : NgTcpStream} {ops : List StreamOp}

/-- The fragments that the step from `t` to `t'` added to `rcvbuf`. -/
def addedRcv (t t' : NgTcpStream) : List NgTcpFragment := t'.rcvItems.drop t.rcvItems.length

/-- The fragments that the step from `t` to `t'` added to `sndbuf`. -/
def addedSnd (t t' : NgTcpStream) : List NgTcpFragment := t'.sndItems.drop t.sndItems.length

/-- The number `num` acknowledges byte `i` of what follows `rcv_nxt`. -/
def Covers (t : NgTcpStream) (num : BitVec 32) (i : Nat) : Prop := i < (num - t.rcvNxt).toNat

/-- Every byte of the payload that the new `rcv_nxt` or an acknowledgement
    queued by the step covers is in a fragment that the step stored. -/
def AckedIsStored (m : Mbuf) (t t' : NgTcpStream) : Prop :=
  ∀ i, i < m.payload.length →
    Covers t t'.rcvNxt i ∨ (∃ ack ∈ addedSnd t t', Covers t ack.acknum i) →
    ∃ f ∈ addedRcv t t', f.payload[i]? = m.payload[i]?

/-- There is no payload, or no block of the handler runs, or the PSH block
    runs and finds memory and room for the payload. -/
def StoresPayload (env : Env) (m : Mbuf) (t : NgTcpStream) : Prop :=
  m.segment.payloadlen ≤ 0 ∨ (m.segment.psh = false ∧ m.segment.fin = false) ∨
    m.segment.psh = true ∧ env.malloc (.recvFragment .psh) = true ∧
      env.malloc (.recvData .psh) = true ∧ ∃ r ∈ t.rcvbuf, r.HasRoom

/-! ## What the step adds -/

theorem addedRcv_of_established (h : EstablishedStep env m t ops t') :
    addedRcv t t' = putFragments (coreOps ops) := by
  obtain ⟨finPut, -, -, hitems⟩ := h.puts
  rw [addedRcv, hitems, List.drop_left]

/-- The first byte of a payload that is stored comes from the PSH block. -/
theorem stores_of_first_byte (h : EstablishedStep env m t ops t')
    (hpos : 0 < m.segment.payloadlen) {f : NgTcpFragment} (hf : f ∈ addedRcv t t')
    (hbyte : f.payload[0]? = m.payload[0]?) :
    m.segment.psh = true ∧ f ∈ putItems
      (recvFragment env .psh (TcpHdr.setCksum m.l4hdr 0) (tcplenOf m.iphdr)) t.rcvbuf := by
  obtain ⟨finPut, hfinPut, hputs, -⟩ := h.puts
  rw [addedRcv_of_established h, hputs, List.mem_append] at hf
  rcases hf with hf | hf
  · split at hf
    · rename_i hflag
      exact ⟨hflag, hf⟩
    · cases hf
  · -- what the FIN block puts there is empty
    have hnil : f.payload = [] := by
      rw [NgTcpFragment.payload, (hfinPut f hf).2, List.take_zero]
    rw [hnil, List.getElem?_nil, eq_comm, List.getElem?_eq_none_iff, length_payload] at hbyte
    omega

/-- A segment with payload that runs one of the blocks advances `rcv_nxt` over
    its first byte. -/
theorem covers_first_byte (h : EstablishedStep env m t ops t')
    (hpos : 0 < m.segment.payloadlen) (hblock : m.segment.psh = true ∨ m.segment.fin = true) :
    Covers t t'.rcvNxt 0 := by
  have hlt : m.segment.payloadlen < 65516 := by
    have := (tcplenOf_bounds m.iphdr).2
    simp only [Segment.payloadlen, Mbuf.segment, Segment.ofHdrs]
    omega
  have hrcv : t'.rcvNxt = t.rcvNxt + BitVec.ofInt 32 (advance m.segment) := by
    rw [h.fields, rcvNxt_add_advance]
  have hadv : 0 < advance m.segment ∧ advance m.segment < 65517 := by
    unfold advance
    rcases hblock with hflag | hflag
    · rw [if_pos hflag]
      split <;> omega
    · rw [if_pos hflag]
      split <;> omega
  rw [Covers, hrcv, BitVec.add_comm, BitVec.add_sub_cancel, BitVec.toNat_ofInt]
  omega

/-- When the payload is stored, all of it is. -/
theorem ackedIsStored_of_put (h : EstablishedStep env m t ops t') (hpsh : m.segment.psh = true)
    {f : NgTcpFragment} (hf : f ∈ putItems
      (recvFragment env .psh (TcpHdr.setCksum m.l4hdr 0) (tcplenOf m.iphdr)) t.rcvbuf) :
    AckedIsStored m t t' := by
  intro i _ _
  obtain ⟨finPut, -, hputs, -⟩ := h.puts
  refine ⟨f, ?_, by rw [payload_of_put hf]⟩
  rw [addedRcv_of_established h, hputs, if_pos hpsh]
  exact List.mem_append_left _ hf

/-- The insertion succeeds exactly if there is memory and room. -/
theorem exists_put_iff (hpos : 0 < m.segment.payloadlen) :
    (∃ f, f ∈ putItems
      (recvFragment env .psh (TcpHdr.setCksum m.l4hdr 0) (tcplenOf m.iphdr)) t.rcvbuf) ↔
    env.malloc (.recvFragment .psh) = true ∧ env.malloc (.recvData .psh) = true ∧
      ∃ r ∈ t.rcvbuf, r.HasRoom := by
  have hsome : (recvFragment env .psh (TcpHdr.setCksum m.l4hdr 0) (tcplenOf m.iphdr)).isSome =
      true ↔ env.malloc (.recvFragment .psh) = true ∧ env.malloc (.recvData .psh) = true := by
    rw [recvFragment_isSome_iff, hdrlenOf_setCksum]
    exact and_congr Iff.rfl ⟨fun h => h hpos, fun h _ => h⟩
  rw [← and_assoc, ← hsome]
  cases t.rcvbuf with
  | none =>
      cases recvFragment env .psh (TcpHdr.setCksum m.l4hdr 0) (tcplenOf m.iphdr) <;>
        simp [putItems]
  | some r =>
      cases recvFragment env .psh (TcpHdr.setCksum m.l4hdr 0) (tcplenOf m.iphdr) with
      | none => simp [putItems]
      | some f => by_cases hroom : r.HasRoom <;> simp [putItems, hroom]

/-- A segment that runs neither block changes nothing. -/
theorem eq_of_no_block (h : EstablishedStep env m t ops t') (hpsh : m.segment.psh = false)
    (hfin : m.segment.fin = false) : t' = t := by
  obtain ⟨t₁, ops₁, ops₂, -, h₁, h₂⟩ := h.blocks
  rw [OptBlock, hpsh, if_neg (by simp)] at h₁
  rw [OptBlock, hfin, if_neg (by simp)] at h₂
  rw [h₂.1, h₁.1]

theorem ackedIsStored_iff (h : EstablishedStep env m t ops t') :
    AckedIsStored m t t' ↔ StoresPayload env m t := by
  constructor
  · intro hstored
    by_cases hpos : 0 < m.segment.payloadlen
    · by_cases hblock : m.segment.psh = true ∨ m.segment.fin = true
      · have hcovers := covers_first_byte h hpos hblock
        -- the first byte is enough: a payload is stored whole or not at all
        obtain ⟨f, hf, hbyte⟩ := hstored 0 (by rw [length_payload]; omega) (.inl hcovers)
        obtain ⟨hpsh, hput⟩ := stores_of_first_byte h hpos hf hbyte
        exact .inr (.inr ⟨hpsh, (exists_put_iff hpos).mp ⟨f, hput⟩⟩)
      · rw [not_or, Bool.not_eq_true, Bool.not_eq_true] at hblock
        exact .inr (.inl hblock)
    · exact .inl (Int.not_lt.mp hpos)
  · rintro (hnone | ⟨hpsh, hfin⟩ | ⟨hpsh, hmem⟩)
    · intro i hi _
      rw [length_payload] at hi
      omega
    · obtain rfl := eq_of_no_block h hpsh hfin
      rintro i - (hcov | ⟨ack, hack, -⟩)
      · simp [Covers] at hcov
      · simp [addedSnd] at hack
    · by_cases hpos : 0 < m.segment.payloadlen
      · obtain ⟨f, hput⟩ := (exists_put_iff hpos).mpr hmem
        exact ackedIsStored_of_put h hpsh hput
      · intro i hi _
        rw [length_payload] at hi
        omega

/-! ## The segment in `ng_tcp_process` -/

/-- What `ng_tcp_process` does with a segment for an established block. -/
theorem establishedStep_of_process {s s' : State} {o : Out} {a : Addr}
    (h : ngTcpProcess env s m = .ok (s', o)) (hf : s.Finds m a t) (hst : t.status = .established)
    (ht' : s'.tcb a = some t') : ∃ ops, EstablishedStep env m t ops t' := by
  rcases ngTcpProcess_cases h with ⟨hnone, -⟩ | ⟨b, u, ops, hfound, hd, -⟩
  · cases hnone.symm.trans hf
  · obtain ⟨rfl, rfl⟩ : b = a ∧ u = t := by
      simpa [State.Finds] using hfound.symm.trans hf
    rw [dispatchSegment, hst] at hd
    obtain ⟨⟨u, done⟩, hest, hret⟩ := bind_eq_ok_iff.mp hd
    obtain ⟨rfl, -⟩ : s.setTcb b u = s' ∧ done.map (b, ·) = ops := by
      simpa [pure, Except.pure] using hret
    obtain rfl := Option.some.inj ((tcb_setTcb_at hf.tcb_eq u).symm.trans ht')
    exact ⟨done, ngTcpHandleEstablished_ok hest⟩

/-- In every state, a segment that is processed in ESTABLISHED has stored what
    it acknowledges exactly if its payload could be stored, or there was none,
    or nothing was acknowledged. -/
theorem acked_is_stored_iff {s s' : State} {o : Out} {a : Addr}
    (h : ngTcpProcess env s m = .ok (s', o)) (hf : s.Finds m a t) (hst : t.status = .established)
    (ht' : s'.tcb a = some t') : AckedIsStored m t t' ↔ StoresPayload env m t := by
  obtain ⟨ops, hstep⟩ := establishedStep_of_process h hf hst ht'
  exact ackedIsStored_iff hstep

/-- A segment with a one-byte payload for the connection of `connectPeer`. -/
def oneByte : Mbuf := peerSegment (RTE_TCP_PSH_FLAG ||| RTE_TCP_ACK_FLAG) 501 1001 [63]

/-- `ng_tcp_process` takes the connected stack one step further on `oneByte`,
    and `P` holds of the block before and after. -/
def processesByte (env : Env) (P : NgTcpStream → NgTcpStream → Bool) : Bool :=
  runsTo (State.init []) (openServer ++ connectPeer) fun _ s =>
    (s.found oneByte).any fun found => found.2.status == .established &&
      match ngTcpProcess env s oneByte with
      | .error _ => false
      | .ok (s', _) => (s'.tcb found.1).any (P found.2)

theorem exists_of_processesByte {env : Env} {P : NgTcpStream → NgTcpStream → Bool}
    (h : processesByte env P = true) : ∃ hist s s' o a t t',
      SystemRun (State.init []) hist s ∧ ngTcpProcess env s oneByte = .ok (s', o) ∧
      s.Finds oneByte a t ∧ t.status = .established ∧ s'.tcb a = some t' ∧ P t t' = true := by
  obtain ⟨hist, s, hrun, hP⟩ := run_of_runsTo h
  obtain ⟨⟨a, t⟩, hfound, hP⟩ := (Option.any_eq_true _ _).mp hP
  rw [Bool.and_eq_true, beq_iff_eq] at hP
  obtain ⟨hst, hP⟩ := hP
  split at hP
  · cases hP
  · rename_i s' o hproc
    obtain ⟨t', ht', hP⟩ := (Option.any_eq_true _ _).mp hP
    exact ⟨hist, s, s', o, a, t, t', hrun, hproc, hfound, hst, ht', hP⟩

/-- With memory and room the byte is stored. -/
theorem acked_is_stored_iff_byte : ∃ (hist : History) (s s' : State) (o : Out) (a : Addr)
    (t t' : NgTcpStream), SystemRun (State.init []) hist s ∧
    ngTcpProcess .plain s oneByte = .ok (s', o) ∧ s.Finds oneByte a t ∧
    t.status = .established ∧ s'.tcb a = some t' ∧
    (addedRcv t t').map NgTcpFragment.payload = [[63]] ∧
    (AckedIsStored oneByte t t' ↔ StoresPayload .plain oneByte t) := by
  have hrun : processesByte .plain
      (fun t t' => (addedRcv t t').map NgTcpFragment.payload == [[63]]) = true := by
    decide +kernel
  obtain ⟨hist, s, s', o, a, t, t', hrun, hproc, hf, hst, ht', hP⟩ := exists_of_processesByte hrun
  exact ⟨hist, s, s', o, a, t, t', hrun, hproc, hf, hst, ht', by rwa [beq_iff_eq] at hP,
    acked_is_stored_iff hproc hf hst ht'⟩

/-- The fragment for the received byte cannot be allocated. -/
def Env.noRecvFragment : Env := { Env.plain with malloc := fun site => site != .recvFragment .psh }

/-- Then the byte is acknowledged, with 502, and lost. -/
theorem acked_byte_lost : ∃ (hist : History) (s s' : State) (o : Out) (a : Addr)
    (t t' : NgTcpStream), SystemRun (State.init []) hist s ∧
    ngTcpProcess .noRecvFragment s oneByte = .ok (s', o) ∧ s.Finds oneByte a t ∧
    t.status = .established ∧ s'.tcb a = some t' ∧
    t.rcvNxt = 501 ∧ t'.rcvNxt = 502 ∧ t'.rcvItems = [] ∧
    (addedSnd t t').map NgTcpFragment.acknum = [502] ∧ ¬ AckedIsStored oneByte t t' := by
  have hrun : processesByte .noRecvFragment (fun t t' => decide (t.rcvNxt = 501 ∧
      t'.rcvNxt = 502 ∧ t'.rcvItems = [] ∧
      (addedSnd t t').map NgTcpFragment.acknum = [502])) = true := by
    decide +kernel
  obtain ⟨hist, s, s', o, a, t, t', hrun, hproc, hf, hst, ht', hP⟩ := exists_of_processesByte hrun
  obtain ⟨hrcv, hrcv', hitems, hack⟩ := of_decide_eq_true hP
  refine ⟨hist, s, s', o, a, t, t', hrun, hproc, hf, hst, ht', hrcv, hrcv', hitems, hack, ?_⟩
  intro hstored
  have hlen : 0 < oneByte.payload.length := by
    rw [length_payload]
    decide +kernel
  obtain ⟨f, hmem, -⟩ := hstored 0 hlen (.inl (by rw [Covers, hrcv, hrcv']; decide))
  rw [addedRcv, hitems, List.drop_nil] at hmem
  cases hmem

end LinuxLearning.Ustack
