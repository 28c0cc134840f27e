/-
  LinuxLearning.Ustack.Accept

  The streams `naccept` hands out.

  A stream waits to be accepted while its descriptor is −1.  `get_accept_tcb`
  takes the first one with the listener's port and does not look at its
  status, so a connection is handed out before its handshake is done if the
  call comes between the peer's SYN and its ACK.  When the first stream
  waiting has always completed its handshake, `naccept` hands out completed
  connections only, each once, and forgets none.
-/

import LinuxLearning.Ustack.Lifetime
import LinuxLearning.Ustack.TcpOutput

namespace LinuxLearning.Ustack

open Lib

variable {s s' : State} {e : Event} {o : Out} {a : Addr} {t : NgTcpStream}
  {past ops : List StreamOp}

/-! ## The streams waiting -/

/-- The blocks with a port that no descriptor was given to, in the order of
    the list. -/
def State.waiting (s : State) (port : BitVec 16) : List (Addr × NgTcpStream) :=
  s.tcbSet.nodes.filter fun n => port == n.2.dport && n.2.fd == -1

/-- `get_accept_tcb` returns the first of them. -/
theorem getAcceptTcb_eq_head? (s : State) (port : BitVec 16) :
    getAcceptTcb s port = (s.waiting port).head? := by
  rw [getAcceptTcb, Table.find?, State.waiting, List.head?_filter]

theorem mem_waiting_iff {port : BitVec 16} :
    (a, t) ∈ s.waiting port ↔ s.tcb a = some t ∧ t.dport = port ∧ t.fd = -1 := by
  rw [State.waiting, List.mem_filter, Table.mem_nodes_iff, Bool.and_eq_true, beq_iff_eq,
    beq_iff_eq]
  exact and_congr_right fun _ => and_congr_left fun _ => eq_comm

/-! ## Handshakes and descriptors in a block's past -/

/-- The block went from SYN_RCVD to ESTABLISHED. -/
def Completed (ops : List StreamOp) : Prop :=
  ∃ seg : Segment, seg.ack = true ∧ .segment .synRcvd seg ∈ ops

instance (ops : List StreamOp) : Decidable (Completed ops) :=
  decidable_of_iff
    (ops.any (fun op => match op with
      | .segment .synRcvd seg => seg.ack
      | _ => false) = true) (by
    rw [List.any_eq_true]
    constructor
    · rintro ⟨op, hmem, hop⟩
      split at hop
      · exact ⟨_, hop, hmem⟩
      · cases hop
    · rintro ⟨seg, hack, hmem⟩
      exact ⟨_, hmem, hack⟩)

/-- `naccept` gave the block a descriptor. -/
def HandedOut (ops : List StreamOp) : Prop := ∃ fd : Int, fd ≠ -1 ∧ .accept fd ∈ ops

theorem completed_append : Completed (past ++ ops) ↔ Completed past ∨ Completed ops := by
  simp only [Completed, List.mem_append, and_or_left, exists_or]

theorem handedOut_append : HandedOut (past ++ ops) ↔ HandedOut past ∨ HandedOut ops := by
  simp only [HandedOut, List.mem_append, and_or_left, exists_or]

/-- The status of a connection whose handshake is done and which was not
    closed. -/
def NgTcpStatus.isConnected (st : NgTcpStatus) : Bool := st == .established || st == .closeWait

/-- `naccept` finds that the first stream waiting has completed its
    handshake.  No call names a stream that was not accepted: their
    descriptor, −1, is not one. -/
def AcceptsConnected (s : State) : Event → Prop
  | .naccept fd =>
      match getHostinfoFromfd s fd with
      | some (.stream _ listener) =>
          ∀ n ∈ (s.waiting listener.dport).head?, n.2.status.isConnected = true
      | _ => True
  | .nbind fd _ _ | .nlisten fd | .nclose _ fd => fd ≠ -1
  | _ => True

instance (s : State) : (e : Event) → Decidable (AcceptsConnected s e)
  | .naccept fd =>
      decidable_of_iff (∀ listener ∈ (getHostinfoFromfd s fd).bind HostInfo.stream?,
          ∀ n ∈ (s.waiting listener.dport).head?, n.2.status.isConnected = true)
        (by
          simp only [AcceptsConnected]
          rcases getHostinfoFromfd s fd with _ | (_ | _) <;> simp [HostInfo.stream?])
  | .nbind fd _ _ | .nlisten fd | .nclose _ fd => inferInstanceAs (Decidable (fd ≠ -1))
  | .packet _ _ | .udpOut _ | .tcpOut _ | .nsocket _ _ | .nsend _ _ _ | .nrecv _ _
  | .nrecvfrom _ _ _ | .nsendto _ _ _ _ _ => .isTrue trivial

/-! ## The invariant -/

/-- What the past of a linked block says about it. -/
structure AcceptInv (past : List StreamOp) (t : NgTcpStream) : Prop where
  /-- A block in SYN_RCVD was not handed out. -/
  synRcvd : t.status = .synRcvd → t.fd = -1
  /-- A connected block that was not handed out completed its handshake. -/
  completed : t.fd = -1 → t.status.isConnected = true → Completed past
  /-- A block that completed its handshake waits until it is handed out. -/
  waits : Completed past → ¬ HandedOut past → t.fd = -1 ∧ t.status.isConnected = true
  handedOut : HandedOut past → t.fd ≠ -1
  /-- The port is that of the SYN. -/
  port : ∀ syn, .link (some syn) ∈ past → t.fd = -1 → t.dport = syn.dport

/-- The same for a block that may be gone: it was handed out before. -/
def AcceptCell (past : List StreamOp) : Option NgTcpStream → Prop
  | some t => AcceptInv past t
  | none => Completed past → HandedOut past

/-- Nothing that counts happened to the block. -/
theorem AcceptInv.keep {t' : NgTcpStream} (hinv : AcceptInv past t)
    (hcompleted : ¬ Completed ops) (hhanded : ¬ HandedOut ops)
    (hlink : ∀ origin, .link origin ∉ ops) (hfd : t'.fd = t.fd)
    (hstatus : t'.status = t.status ∨ t.status.isConnected = true ∧ t'.status.isConnected = true)
    (hport : t'.dport = t.dport) : AcceptInv (past ++ ops) t' := by
  have hconn : t'.status.isConnected = t.status.isConnected := by
    rcases hstatus with h | ⟨h, h'⟩
    · rw [h]
    · rw [h, h']
  have hpast : Completed (past ++ ops) ↔ Completed past := by
    rw [completed_append, or_iff_left hcompleted]
  have hgiven : HandedOut (past ++ ops) ↔ HandedOut past := by
    rw [handedOut_append, or_iff_left hhanded]
  constructor
  · intro hsyn
    rcases hstatus with h | ⟨-, h'⟩
    · rw [hfd]
      exact hinv.synRcvd (h ▸ hsyn)
    -- a connected block is not in SYN_RCVD
    · rw [hsyn] at h'
      cases h'
  · rw [hfd, hconn, hpast]
    exact hinv.completed
  · rw [hfd, hconn, hpast, hgiven]
    exact hinv.waits
  · rw [hfd, hgiven]
    exact hinv.handedOut
  · intro syn hsyn
    rw [hfd, hport]
    apply hinv.port syn
    rcases List.mem_append.mp hsyn with h | h
    · exact h
    · exact absurd h (hlink _)

/-- A descriptor was given to the block, so its status is the application's. -/
theorem AcceptInv.of_named {t' : NgTcpStream} (hinv : AcceptInv past t) (hnamed : t.fd ≠ -1)
    (hcompleted : ¬ Completed ops) (hfd : t'.fd = t.fd) (hstatus : t'.status ≠ .synRcvd) :
    AcceptInv (past ++ ops) t' where
  synRcvd h := absurd h hstatus
  completed h := absurd (hfd ▸ h) hnamed
  waits h hnot := by
    rw [completed_append, or_iff_left hcompleted] at h
    rw [handedOut_append, not_or] at hnot
    exact absurd (hinv.waits h hnot.1).1 hnamed
  handedOut _ := hfd ▸ hnamed
  port _ _ h := absurd (hfd ▸ h) hnamed

/-- A new block waits, and has no past. -/
theorem AcceptInv.of_new {ops : List StreamOp} (hcompleted : ¬ Completed ops)
    (hhanded : ¬ HandedOut ops) (hstatus : t.status.isConnected = false)
    (hsyn : t.status = .synRcvd → t.fd = -1)
    (hport : ∀ syn, .link (some syn) ∈ ops → t.dport = syn.dport) : AcceptInv ops t where
  synRcvd := hsyn
  completed _ h := absurd (hstatus.symm.trans h) Bool.false_ne_true
  waits h := absurd h hcompleted
  handedOut h := absurd h hhanded
  port syn h _ := hport syn h

/-- Buffer operations neither complete a handshake nor give a descriptor. -/
theorem not_completed_of_isBuffer (h : ∀ op ∈ ops, op.isBuffer = true) : ¬ Completed ops :=
  fun ⟨_, _, hmem⟩ => nomatch h _ hmem

theorem not_handedOut_of_isBuffer (h : ∀ op ∈ ops, op.isBuffer = true) : ¬ HandedOut ops :=
  fun ⟨_, _, hmem⟩ => nomatch h _ hmem

theorem AcceptInv.keep_buffer {t' : NgTcpStream} (hinv : AcceptInv past t)
    (hops : ∀ op ∈ ops, op.isBuffer = true) (hfd : t'.fd = t.fd) (hstatus : t'.status = t.status)
    (hport : t'.dport = t.dport) : AcceptInv (past ++ ops) t' :=
  hinv.keep (not_completed_of_isBuffer hops) (not_handedOut_of_isBuffer hops)
    (fun _ hmem => nomatch hops _ hmem) hfd (.inl hstatus) hport

/-- A block that does not wait may be unlinked. -/
theorem AcceptInv.gone (hinv : AcceptInv past t) (hcompleted : ¬ Completed ops)
    (hout : ¬ (t.fd = -1 ∧ t.status.isConnected = true)) : AcceptCell (past ++ ops) none := by
  intro h
  rw [completed_append, or_iff_left hcompleted] at h
  by_contra hnot
  rw [handedOut_append, not_or] at hnot
  exact hout (hinv.waits h hnot.1)

/-- The stream that `get_accept_tcb` returns is the first one waiting. -/
theorem connected_of_accept {fd : Int} {l : Addr} {listener : NgTcpStream}
    (hguard : AcceptsConnected s (.naccept fd))
    (hinfo : getHostinfoFromfd s fd = some (.stream l listener))
    (hacc : getAcceptTcb s listener.dport = some (a, t)) : t.status.isConnected = true := by
  simp only [AcceptsConnected, hinfo] at hguard
  rw [getAcceptTcb_eq_head?] at hacc
  exact hguard _ hacc

theorem acceptCell_step {before after : Option NgTcpStream} (hguard : AcceptsConnected s e)
    (hfresh : before = none → ops ≠ [] → past = []) (hinv : AcceptCell past before)
    (h : TcbChange s e a ops before after) : AcceptCell (past ++ ops) after := by
  cases h with
  | idle => rwa [List.append_nil]
  | @seen env m t he hf hest hsyn hlast =>
      refine hinv.keep ?_ (by simp [HandedOut]) (by simp) rfl (.inl rfl) rfl
      rintro ⟨seg, hack, hmem⟩
      obtain ⟨hst, rfl⟩ : .synRcvd = t.status ∧ seg = m.segment := by simpa using hmem
      exact hsyn ⟨hst.symm, hack⟩
  | opened =>
      obtain rfl : past = [] := hfresh rfl (by simp)
      exact .of_new (by simp [Completed]) (by simp [HandedOut]) rfl nofun (by simp)
  | bound he hinfo | listening he hinfo =>
      subst he
      have hnamed := (tcb_of_hostinfo hinfo).2
      exact hinv.of_named (hnamed ▸ hguard) (by simp [Completed]) rfl nofun
  | @accepted fd l t listener he hinfo hacc =>
      subst he
      obtain ⟨-, -, hfd⟩ := tcb_of_accept hacc
      have hconn := connected_of_accept hguard hinfo hacc
      by_cases hfull : (getFdFrombitmap s.fdTable).2 = -1
      · -- no descriptor is left, and the stream goes on waiting
        refine hinv.keep (by simp [Completed]) ?_ (by simp) (hfull.trans hfd.symm) (.inl rfl) rfl
        rintro ⟨n, hn, hmem⟩
        rw [List.mem_singleton, StreamOp.accept.injEq] at hmem
        exact hn (hmem.trans hfull)
      · refine ⟨fun h => ?_, fun h => absurd h hfull, fun _ hnot => ?_, fun _ => hfull,
          fun _ _ h => absurd h hfull⟩
        · rw [show t.status = _ from h] at hconn
          cases hconn
        · exact absurd ⟨_, hfull, List.mem_append_right _ (List.mem_singleton_self _)⟩ hnot
  | sending he hinfo hput =>
      obtain ⟨r, -, rfl, -⟩ := enqueueSnd_ok hput
      exact hinv.keep (by simp [Completed]) (by simp [HandedOut]) (by simp) rfl (.inl rfl) rfl
  | reading he hinfo hread =>
      have hok := nrecvStream_ok hread
      rw [hok.fields]
      exact hinv.keep_buffer hok.isBuffer rfl rfl rfl
  | closing he hinfo hst hput =>
      subst he
      have hnamed := (tcb_of_hostinfo hinfo).2
      obtain ⟨r, -, rfl, -⟩ := enqueueSnd_ok hput
      exact hinv.of_named (hnamed ▸ hguard) (by simp [Completed]) rfl nofun
  | closed he hinfo =>
      subst he
      have hnamed := (tcb_of_hostinfo hinfo).2
      -- a block that waits has descriptor −1, which no call names
      exact hinv.gone (by simp [Completed]) fun hwaits => hguard (hnamed.symm.trans hwaits.1)
  | synAcked he hf hst hsyn ha hc =>
      obtain rfl : past = [] := hfresh rfl (by simp)
      obtain ⟨⟨-, -, -, hport⟩, hfd, -⟩ := ngTcpStreamCreate_ok hc
      refine .of_new (by simp [Completed]) (by simp [HandedOut]) rfl (fun _ => hfd) ?_
      intro seg hmem
      obtain rfl : seg = _ := by simpa using hmem
      exact hport
  | synUnanswered he hf hst hsyn ha hc =>
      obtain rfl : past = [] := hfresh rfl (by simp)
      obtain ⟨⟨-, -, -, hport⟩, hfd, hlisten, -⟩ := ngTcpStreamCreate_ok hc
      refine .of_new (by simp [Completed]) (by simp [HandedOut]) (by rw [hlisten]; rfl)
        (fun _ => hfd) ?_
      intro seg hmem
      obtain rfl : seg = _ := by simpa using hmem
      exact hport
  | @handshake env m t he hf hst hack =>
      have hnot : ¬ HandedOut [.segment .synRcvd m.segment] := by simp [HandedOut]
      have hnow : Completed (past ++ [.segment .synRcvd m.segment]) :=
        ⟨m.segment, hack, List.mem_append_right _ (List.mem_singleton_self _)⟩
      refine ⟨nofun, fun _ _ => hnow, fun _ _ => ⟨hinv.synRcvd hst, rfl⟩, ?_, ?_⟩
      · rw [handedOut_append, or_iff_left hnot]
        exact hinv.handedOut
      · intro syn hsyn
        exact hinv.port syn (by simpa using hsyn)
  | @data env m t t' done he hf hst hest =>
      have hok := ngTcpHandleEstablished_ok hest
      have hbuffer := hok.isBuffer
      rw [hok.fields]
      refine hinv.keep ?_ ?_ ?_ rfl (.inr ⟨by rw [hst]; rfl, ?_⟩) rfl
      · rintro ⟨seg, hack, hmem⟩
        rcases List.mem_cons.mp hmem with h | h
        · cases h
        · exact not_completed_of_isBuffer hbuffer ⟨seg, hack, h⟩
      · rintro ⟨fd, hfd, hmem⟩
        rcases List.mem_cons.mp hmem with h | h
        · cases h
        · exact not_handedOut_of_isBuffer hbuffer ⟨fd, hfd, h⟩
      · intro origin hmem
        rcases List.mem_cons.mp hmem with h | h
        · cases h
        · cases hbuffer _ h
      · simp only [hst]
        split <;> rfl
  | @destroyed env m t he hf hst hack =>
      -- a block that waits is connected, and a destroyed one was in LAST_ACK
      refine hinv.gone (by simp [Completed]) ?_
      rintro ⟨-, hconn⟩
      rw [hst] at hconn
      cases hconn
  | @output env t he =>
      have hok := tcpOutStream_cases s.arpt t
      rw [hok.fields]
      exact hinv.keep_buffer hok.isBuffer rfl rfl rfl

/-! ## What `naccept` hands out -/

/-- In every run in which `naccept` always finds the first stream waiting
    connected: what it hands out completed its handshake, was not handed out
    before and has the listener's port; and a stream that completed its
    handshake and was not handed out is among those `get_accept_tcb` looks
    for, under the port its SYN was sent to. -/
theorem accept_after_handshake {mac : List Byte} {hist : History}
    (hrun : GuardedRun AcceptsConnected (State.init mac) hist s) :
    (∀ fd s' o a n, AcceptsConnected s (.naccept fd) → step s (.naccept fd) = .ok (s', o) →
      .accept n ∈ o.opsOf a → n ≠ -1 →
      Completed (opsOf hist a) ∧ ¬ HandedOut (opsOf hist a) ∧
      ∃ l listener t, getHostinfoFromfd s fd = some (.stream l listener) ∧
        s.tcb a = some t ∧ t.dport = listener.dport) ∧
    (∀ a, Completed (opsOf hist a) → ¬ HandedOut (opsOf hist a) →
      ∃ t, (a, t) ∈ s.waiting t.dport ∧
        ∀ syn, .link (some syn) ∈ opsOf hist a → t.dport = syn.dport) := by
  have hinit : AcceptCell [] none := fun ⟨_, _, hmem⟩ => nomatch hmem
  have hinv := guardedRun_block_invariant hinit
    (fun s e a past ops before after => acceptCell_step) hrun
  constructor
  · intro fd s' o a n hguard h hmem hn
    have hcell := hinv a
    have hchange := tcbChange_of_step h a
    generalize hbefore : s.tcb a = before at hcell hchange
    generalize s'.tcb a = after at hchange
    generalize o.opsOf a = ops at hmem hchange
    -- only `naccept` gives a descriptor
    cases hchange with
    | @accepted _ l t listener he hinfo hacc =>
        obtain rfl := Event.naccept.inj he
        obtain ⟨-, hport, hfd⟩ := tcb_of_accept hacc
        have hconn := connected_of_accept hguard hinfo hacc
        exact ⟨hcell.completed hfd hconn, fun hgiven => hcell.handedOut hgiven hfd, l, listener, t,
          hinfo, rfl, hport⟩
    | idle => cases hmem
    | seen he | opened he | bound he | listening he | sending he | reading he | closing he
    | closed he | synAcked he | synUnanswered he | handshake he | data he | destroyed he
    | output he => cases he
  · intro a hcompleted hnot
    have hcell := hinv a
    cases ht : s.tcb a with
    | none =>
        rw [ht] at hcell
        -- a block is not unlinked while it waits
        exact absurd (hcell hcompleted) hnot
    | some t =>
        rw [ht] at hcell
        obtain ⟨hfd, -⟩ := hcell.waits hcompleted hnot
        exact ⟨t, mem_waiting_iff.mpr ⟨ht, rfl, hfd⟩, fun syn hsyn => hcell.port syn hsyn hfd⟩

/-- A connection that is accepted after its handshake. -/
theorem accept_after_handshake_connect : ∃ (hist : History) (s s' : State) (o : Out),
    GuardedRun AcceptsConnected (State.init []) hist s ∧ step s (.naccept 3) = .ok (s', o) ∧
    .accept 4 ∈ o.opsOf 1 ∧ Completed (opsOf hist 1) ∧ ¬ HandedOut (opsOf hist 1) ∧
    ∃ t, (1, t) ∈ s.waiting t.dport ∧
      ∀ syn, .link (some syn) ∈ opsOf hist 1 → t.dport = syn.dport := by
  have hrun : guardedStepsTo AcceptsConnected (State.init []) (openServer ++ connectPeer)
      (.naccept 3) (fun _ _ o => decide (.accept 4 ∈ o.opsOf 1)) = true := by
    decide +kernel
  obtain ⟨hist, s, s', o, hrun, ⟨hguard, hstep⟩, hmem⟩ := step_of_guardedStepsTo hrun
  rw [decide_eq_true_eq] at hmem
  obtain ⟨haccept, hwait⟩ := accept_after_handshake hrun
  obtain ⟨hcompleted, hnot, -⟩ := haccept 3 s' o 1 4 hguard hstep hmem (by decide)
  exact ⟨hist, s, s', o, hrun, hstep, hmem, hcompleted, hnot, hwait 1 hcompleted hnot⟩

/-- A connection that is accepted between the peer's SYN and its ACK. -/
theorem accept_before_handshake : ∃ (hist : History) (s s' : State) (o : Out),
    SystemRun (State.init []) hist s ∧ step s (.naccept 3) = .ok (s', o) ∧
    o.ret = 4 ∧ .accept 4 ∈ o.opsOf 1 ∧ ¬ Completed (opsOf hist 1) ∧
    (s.tcb 1).map (·.status) = some .synRcvd := by
  have hrun : runsTo (State.init [])
      (openServer ++ [.packet .plain (peerSegment RTE_TCP_SYN_FLAG 500 0 [])])
      (fun hist s => decide (¬ Completed (opsOf hist 1)) &&
        decide ((s.tcb 1).map (·.status) = some .synRcvd) &&
        stepOk s (.naccept 3) fun _ o =>
          decide (o.ret = 4) && decide (.accept 4 ∈ o.opsOf 1)) = true := by
    decide +kernel
  obtain ⟨hist, s, hrun, hP⟩ := run_of_runsTo hrun
  simp only [Bool.and_eq_true, decide_eq_true_eq] at hP
  obtain ⟨⟨hnot, hstatus⟩, hP⟩ := hP
  obtain ⟨s', o, hstep, hP⟩ := step_of_stepOk hP
  rw [Bool.and_eq_true, decide_eq_true_eq, decide_eq_true_eq] at hP
  exact ⟨hist, s, s', o, hrun, hstep, hP.1, hP.2, hnot, hstatus⟩

end LinuxLearning.Ustack
