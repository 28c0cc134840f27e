/-
  LinuxLearning.Ustack.Teardown

  What has happened to a connection's output when `ng_tcp_handle_last_ack`
  destroys it.

  The bookkeeping comes first: what was queued on `sndbuf` is, as a bag, what
  was sent plus what is still there, whatever `ng_tcp_out` puts back.
  `ng_tcp_handle_last_ack` itself takes any ACK for the last one, so only the
  runs whose ACKs come late enough close in order.
-/

import LinuxLearning.Ustack.StatusDiagram

namespace LinuxLearning.Ustack

open Lib

/-! ## Queued, sent, still there -/

/-- The fragments stored on `sndbuf` since the block was linked, after an
    operation. -/
def queuedReplay (queued : List NgTcpFragment) : StreamOp → List NgTcpFragment
  | .link _ | .unlink => []
  | .sndPut f stored => queued ++ if stored then [f] else []
  | .segment _ _ | .sent _ | .sndRequeue _ _ | .rcvPut _ _ | .rcvGet _ | .rcvRequeue _ _
  | .accept _ | .signal => queued

/-- The fragments `ng_tcp_out` sent since the block was linked, after an
    operation. -/
def sentReplay (sent : List NgTcpFragment) : StreamOp → List NgTcpFragment
  | .link _ | .unlink => []
  | .sent f => sent ++ [f]
  | .segment _ _ | .sndPut _ _ | .sndRequeue _ _ | .rcvPut _ _ | .rcvGet _ | .rcvRequeue _ _
  | .accept _ | .signal => sent

/-- The fragments stored on `sndbuf` since the block was linked. -/
def queuedFragments (ops : List StreamOp) : List NgTcpFragment := ops.foldl queuedReplay []

/-- The fragments sent since the block was linked. -/
def sentFragments (ops : List StreamOp) : List NgTcpFragment := ops.foldl sentReplay []

/-- One operation keeps the account.  A fragment that is put back goes from
    the head of the ring to its tail. -/
theorem perm_replay {queued sent items items' : List NgTcpFragment} {op : StreamOp}
    (hop : ∀ f, op ≠ .sndRequeue f false) (hperm : queued.Perm (sent ++ items))
    (h : sndReplay items op = some items') :
    (queuedReplay queued op).Perm (sentReplay sent op ++ items') := by
  cases op with
  | link | unlink =>
      obtain rfl := Option.some.inj h
      exact .nil
  | sndPut f stored =>
      obtain rfl := Option.some.inj h
      simp only [queuedReplay, sentReplay]
      rw [← List.append_assoc]
      exact hperm.append_right _
  | sent f =>
      obtain rfl := eq_cons_of_takeHead h
      simpa [queuedReplay, sentReplay] using hperm
  | sndRequeue f stored =>
      cases stored with
      | false => exact absurd rfl (hop f)
      | true =>
          obtain ⟨rest, hrest, rfl⟩ := Option.map_eq_some_iff.mp h
          obtain rfl := eq_cons_of_takeHead hrest
          -- what is put back moves from the head to the tail
          have hmove : (f :: rest).Perm (rest ++ [f]) :=
            (List.perm_append_singleton f rest).symm
          simpa [queuedReplay, sentReplay] using hperm.trans (hmove.append_left sent)
  | segment | rcvPut | rcvGet | rcvRequeue | accept | signal =>
      obtain rfl := Option.some.inj h
      exact hperm

theorem perm_foldl {ops : List StreamOp} (hops : ∀ f, .sndRequeue f false ∉ ops)
    {queued sent items items' : List NgTcpFragment} (hperm : queued.Perm (sent ++ items))
    (h : ops.foldlM sndReplay items = some items') :
    (ops.foldl queuedReplay queued).Perm (ops.foldl sentReplay sent ++ items') := by
  induction ops generalizing queued sent items with
  | nil =>
      obtain rfl := Option.some.inj h
      exact hperm
  | cons op rest ih =>
      rw [List.foldlM_cons] at h
      obtain ⟨mid, hmid, hrest⟩ := Option.bind_eq_some_iff.mp h
      have hop : ∀ f, op ≠ .sndRequeue f false := fun f heq => hops f (heq ▸ List.mem_cons_self ..)
      exact ih (fun f hmem => hops f (List.mem_cons_of_mem _ hmem)) (perm_replay hop hperm hmid)
        hrest

/-- Only `ng_tcp_out` puts a fragment back on `sndbuf`. -/
theorem TcbChange.requeue {s : State} {e : Event} {a : Addr} {ops : List StreamOp}
    {before after : Option NgTcpStream} (h : TcbChange s e a ops before after)
    {f : NgTcpFragment} {stored : Bool} (hmem : .sndRequeue f stored ∈ ops) :
    ∃ t, before = some t ∧ .sndRequeue f stored ∈ (tcpOutStream s.arpt t).2.1 := by
  cases h with
  | idle | bound | listening => cases hmem
  | seen | opened | accepted | sending | closing | closed | synAcked | synUnanswered | handshake
  | destroyed => simp at hmem
  | reading he hinfo hread => cases nrecvStream_ok hread <;> simp [coreOps] at hmem
  | data he hf hst hest =>
      rcases List.mem_cons.mp hmem with h | h
      · cases h
      · rcases (ngTcpHandleEstablished_ok hest).mem_ops h with ⟨_, _, _, _, -, -, h⟩ | ⟨_, _, h⟩ <;>
          cases h
  | output he => exact ⟨_, rfl, List.mem_of_mem_filter hmem⟩

/-- What `ng_tcp_out` puts back always finds room. -/
theorem sndRequeue_stored {s : State} {e : Event} {a : Addr} {ops : List StreamOp}
    {before after : Option NgTcpStream} (h : TcbChange s e a ops before after)
    (f : NgTcpFragment) : .sndRequeue f false ∉ ops := by
  intro hmem
  obtain ⟨t, -, hout⟩ := h.requeue hmem
  have hcases := tcpOutStream_cases s.arpt t
  generalize (tcpOutStream s.arpt t).1 = t' at hcases
  generalize (tcpOutStream s.arpt t).2.1 = done at hcases hout
  cases hcases <;> simp at hout

/-- In every run, what was queued on a block's `sndbuf` is what was sent and
    what is still there. -/
theorem queued_perm_sent {mac : List Byte} {hist : History} {s : State}
    (hrun : SystemRun (State.init mac) hist s) (a : Addr) :
    (queuedFragments (opsOf hist a)).Perm
      (sentFragments (opsOf hist a) ++ cellSnd (s.tcb a)) := by
  refine perm_foldl ?_ .nil (rings_replay hrun a).snd
  intro f hmem
  induction hrun with
  | start => cases hmem
  | step _ hR ih =>
      rw [opsOf, List.flatMap_append, List.flatMap_singleton] at hmem
      rcases List.mem_append.mp hmem with h | h
      · exact ih h
      · exact sndRequeue_stored (tcbChange_of_step hR a) f h

/-! ## The FIN of a block in LAST_ACK -/

/-- `nclose` finds room for its FIN, and an ACK that finds a block in LAST_ACK
    comes when everything queued has been sent and acknowledges the FIN. -/
def ClosesInOrder (s : State) : Event → Prop
  | .nclose _ fd =>
      match getHostinfoFromfd s fd with
      | some (.stream _ t) => t.status ≠ .listen → ∀ r ∈ t.sndbuf, r.HasRoom
      | _ => True
  | .packet _ m => ∀ found ∈ s.found m, found.2.status = .lastAck → m.segment.ack = true →
      found.2.sndItems = [] ∧ m.segment.recvAck = found.2.sndNxt + 1
  | _ => True

instance (s : State) : (e : Event) → Decidable (ClosesInOrder s e)
  | .nclose _ fd =>
      decidable_of_iff (∀ t ∈ (getHostinfoFromfd s fd).bind HostInfo.stream?,
          t.status ≠ .listen → ∀ r ∈ t.sndbuf, r.HasRoom)
        (by
          simp only [ClosesInOrder]
          rcases getHostinfoFromfd s fd with _ | (_ | _) <;> simp [HostInfo.stream?])
  | .packet _ m => inferInstanceAs (Decidable (∀ found ∈ s.found m, _ → _ → _ ∧ _))
  | .udpOut _ | .tcpOut _ | .nsocket _ _ | .nbind _ _ _ | .nlisten _ | .naccept _
  | .nsend _ _ _ | .nrecv _ _ | .nrecvfrom _ _ _ | .nsendto _ _ _ _ _ => .isTrue trivial

/-- The FIN of `nclose`, queued with the number the block still has. -/
def FinQueued (ops : List StreamOp) (t : NgTcpStream) : Prop :=
  ∃ fin ∈ queuedFragments ops,
    fin.tcpFlags = RTE_TCP_FIN_FLAG ||| RTE_TCP_ACK_FLAG ∧ fin.seqnum = t.sndNxt

/-- A block in LAST_ACK has its FIN queued. -/
def LastAckInv (past : List StreamOp) (cell : Option NgTcpStream) : Prop :=
  ∀ t ∈ cell, t.status = .lastAck → FinQueued past t

/-- Nothing already queued is forgotten while the block is linked. -/
theorem mem_queuedReplay {ops : List StreamOp} {f : NgTcpFragment}
    (hlink : ∀ origin, .link origin ∉ ops) (hunlink : .unlink ∉ ops)
    {queued : List NgTcpFragment} (hf : f ∈ queued) : f ∈ ops.foldl queuedReplay queued := by
  induction ops generalizing queued with
  | nil => exact hf
  | cons op rest ih =>
      simp only [List.mem_cons, not_or] at hlink hunlink
      refine ih (fun origin => (hlink origin).2) hunlink.2 ?_
      cases op with
      | link origin => exact absurd rfl (hlink origin).1
      | unlink => exact absurd rfl hunlink.1
      | sndPut g stored => exact List.mem_append_left _ hf
      | segment | sent | sndRequeue | rcvPut | rcvGet | rcvRequeue | accept | signal => exact hf

theorem LastAckInv.keep {past ops : List StreamOp} {t t' : NgTcpStream}
    (h : LastAckInv past (some t)) (hlink : ∀ origin, .link origin ∉ ops)
    (hunlink : .unlink ∉ ops) (hstatus : t'.status = t.status) (hsnd : t'.sndNxt = t.sndNxt) :
    LastAckInv (past ++ ops) (some t') := by
  rintro _ ⟨⟩ hst
  obtain ⟨fin, hmem, hflags, hseq⟩ := h t rfl (hstatus ▸ hst)
  refine ⟨fin, ?_, hflags, by rw [hsnd, hseq]⟩
  rw [queuedFragments, List.foldl_append]
  exact mem_queuedReplay hlink hunlink hmem

theorem LastAckInv.of_status {past : List StreamOp} {t : NgTcpStream}
    (h : t.status ≠ .lastAck) : LastAckInv past (some t) := by
  rintro _ ⟨⟩ hst
  exact absurd hst h

theorem LastAckInv.keep_buffer {past ops : List StreamOp} {t t' : NgTcpStream}
    (h : LastAckInv past (some t)) (hops : ∀ op ∈ ops, op.isBuffer = true)
    (hstatus : t'.status = t.status) (hsnd : t'.sndNxt = t.sndNxt) :
    LastAckInv (past ++ ops) (some t') :=
  h.keep (fun origin hmem => by cases hops _ hmem) (fun hmem => by cases hops _ hmem) hstatus hsnd

theorem lastAckInv_step {s : State} {e : Event} {a : Addr} {past ops : List StreamOp}
    {before after : Option NgTcpStream} (hguard : ClosesInOrder s e)
    (hinv : LastAckInv past before) (h : TcbChange s e a ops before after) :
    LastAckInv (past ++ ops) after := by
  cases h with
  | idle => rwa [List.append_nil]
  | seen => exact hinv.keep (by simp) (by simp) rfl rfl
  | opened | bound | listening | synAcked | handshake => exact .of_status (by simp)
  | accepted => exact hinv.keep (by simp) (by simp) rfl rfl
  | sending he hinfo hput =>
      obtain ⟨r, -, rfl, -⟩ := enqueueSnd_ok hput
      exact hinv.keep (by simp) (by simp) rfl rfl
  | reading he hinfo hread =>
      have hok := nrecvStream_ok hread
      rw [hok.fields]
      exact hinv.keep_buffer hok.isBuffer rfl rfl
  | @closing env fd t t' stored he hinfo hst hput =>
      subst he
      obtain ⟨r, hr, rfl, rfl⟩ := enqueueSnd_ok hput
      rintro _ ⟨⟩ -
      -- the FIN is stored, so it is among what was queued
      have hroom : r.HasRoom := by
        simp only [ClosesInOrder, hinfo] at hguard
        exact hguard hst r hr
      refine ⟨finFragment env t, ?_, rfl, rfl⟩
      rw [queuedFragments, List.foldl_append, (RteRing.mpEnqueue_of_hasRoom hroom).2]
      exact List.mem_append_right _ (List.mem_singleton_self _)
  | closed | destroyed => rintro _ ⟨⟩
  | synUnanswered he hf hst hsyn ha hc =>
      obtain ⟨-, -, hlisten, -⟩ := ngTcpStreamCreate_ok hc
      exact .of_status (by simp [hlisten])
  | @data env m t t' done he hf hst hest =>
      refine .of_status ?_
      rw [(ngTcpHandleEstablished_ok hest).fields]
      simp only [hst]
      split <;> simp
  | @output env t he =>
      have hok := tcpOutStream_cases s.arpt t
      rw [hok.fields]
      exact hinv.keep_buffer hok.isBuffer rfl rfl

/-- In every run that closes in order, a block that `ng_tcp_handle_last_ack`
    destroys has nothing left on `sndbuf`, has sent everything that was
    queued, the FIN of `nclose` with it, and the ACK acknowledges the FIN. -/
theorem destroyed_after_fin {mac : List Byte} {hist : History} {s' : State} {e : Event}
    {o : Out} {a : Addr} {seg : Segment}
    (hrun : GuardedRun ClosesInOrder (State.init mac) (hist ++ [(e, o)]) s')
    (hseg : .segment .lastAck seg ∈ o.opsOf a) (hunlink : .unlink ∈ o.opsOf a) :
    ∃ s t, GuardedRun ClosesInOrder (State.init mac) hist s ∧ s.tcb a = some t ∧
      t.sndItems = [] ∧
      (queuedFragments (opsOf hist a)).Perm (sentFragments (opsOf hist a)) ∧
      ∃ fin ∈ sentFragments (opsOf hist a),
        fin.tcpFlags = RTE_TCP_FIN_FLAG ||| RTE_TCP_ACK_FLAG ∧ seg.recvAck = fin.seqnum + 1 := by
  obtain ⟨s, hpre, hguard, hR⟩ := hrun.last_step
  have hinit : ∀ a, LastAckInv [] ((State.init mac).tcb a) := by rintro a _ ⟨⟩
  have hinv := guardedRun_tcb_invariant hinit
    (fun s e a past ops before after hguard hinv h => lastAckInv_step hguard hinv h) hpre a
  have hperm := queued_perm_sent hpre.of_guarded a
  have hchange := tcbChange_of_step hR a
  generalize hbefore : s.tcb a = before at hinv hperm hchange
  generalize s'.tcb a = after at hchange
  generalize o.opsOf a = ops at hseg hunlink hchange
  cases hchange with
  | @destroyed env m t he hf hst hack =>
      obtain rfl : seg = m.segment := by simpa using hseg
      subst he
      obtain ⟨hempty, hnum⟩ := hguard (a, t) hf hst hack
      rw [cellSnd_some, hempty, List.append_nil] at hperm
      obtain ⟨fin, hmem, hflags, hseq⟩ := hinv t rfl hst
      exact ⟨s, t, hpre, hbefore, hempty, hperm, fin, hperm.mem_iff.mp hmem, hflags,
        by rw [hnum, hseq]⟩
  | idle | bound | listening => cases hunlink
  | seen | opened | accepted | sending | closing | synAcked | synUnanswered | handshake =>
      simp at hunlink
  | closed => simp at hseg
  | reading he hinfo hread => cases (nrecvStream_ok hread).isBuffer _ hunlink
  | data he hf hst hest =>
      rcases List.mem_cons.mp hunlink with h | h
      · cases h
      · cases (ngTcpHandleEstablished_ok hest).isBuffer _ h
  | output => cases (tcpOutStream_cases ..).isBuffer _ hunlink

/-- A connection that closes in order: the SYN-ACK goes out, the FIN goes
    out, and then the peer acknowledges it. -/
theorem destroyed_after_fin_close : ∃ (hist : History) (e : Event) (o : Out) (s' : State)
    (seg : Segment),
    GuardedRun ClosesInOrder (State.init []) (hist ++ [(e, o)]) s' ∧
    .segment .lastAck seg ∈ o.opsOf 1 ∧ .unlink ∈ o.opsOf 1 ∧
    ∃ s t, GuardedRun ClosesInOrder (State.init []) hist s ∧ s.tcb 1 = some t ∧
      t.sndItems = [] ∧
      (queuedFragments (opsOf hist 1)).Perm (sentFragments (opsOf hist 1)) ∧
      ∃ fin ∈ sentFragments (opsOf hist 1),
        fin.tcpFlags = RTE_TCP_FIN_FLAG ||| RTE_TCP_ACK_FLAG ∧ seg.recvAck = fin.seqnum + 1 := by
  have hrun : guardedStepsTo ClosesInOrder (State.init []) (openServer ++ connectPeer ++
      [.naccept 3, .tcpOut .plain, .nclose .plain 4, .tcpOut .plain])
      (.packet .plain (peerSegment RTE_TCP_ACK_FLAG 501 1001 []))
      (fun _ _ o => decide (.segment .lastAck (peerSegment RTE_TCP_ACK_FLAG 501 1001 []).segment ∈
        o.opsOf 1) && decide (.unlink ∈ o.opsOf 1)) = true := by
    decide +kernel
  obtain ⟨hist, s, s', o, hrun, hstep, hP⟩ := step_of_guardedStepsTo hrun
  rw [Bool.and_eq_true, decide_eq_true_eq, decide_eq_true_eq] at hP
  have hlast := hrun.step hstep
  exact ⟨hist, _, o, s', _, hlast, hP.1, hP.2, destroyed_after_fin hlast hP.1 hP.2⟩

/-- An ACK that comes while the FIN is still queued destroys the connection
    all the same. -/
theorem early_ack_destroys : ∃ (hist : History) (s s' : State) (o : Out),
    SystemRun (State.init []) hist s ∧
    step s (.packet .plain (peerSegment RTE_TCP_ACK_FLAG 501 1001 [])) = .ok (s', o) ∧
    .unlink ∈ o.opsOf 1 ∧
    (cellSnd (s.tcb 1)).map (·.tcpFlags) =
      [RTE_TCP_SYN_FLAG ||| RTE_TCP_ACK_FLAG, RTE_TCP_FIN_FLAG ||| RTE_TCP_ACK_FLAG] := by
  have hrun : stepsTo (State.init [])
      (openServer ++ connectPeer ++ [.naccept 3, .nclose .plain 4])
      (.packet .plain (peerSegment RTE_TCP_ACK_FLAG 501 1001 []))
      (fun s _ o => decide (.unlink ∈ o.opsOf 1) && decide ((cellSnd (s.tcb 1)).map (·.tcpFlags) =
        [RTE_TCP_SYN_FLAG ||| RTE_TCP_ACK_FLAG, RTE_TCP_FIN_FLAG ||| RTE_TCP_ACK_FLAG])) =
        true := by
    decide +kernel
  obtain ⟨hist, s, s', o, hrun, hstep, hP⟩ := step_of_stepsTo hrun
  rw [Bool.and_eq_true, decide_eq_true_eq, decide_eq_true_eq] at hP
  exact ⟨hist, s, s', o, hrun, hstep, hP⟩

end LinuxLearning.Ustack
