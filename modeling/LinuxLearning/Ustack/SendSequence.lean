/-
  LinuxLearning.Ustack.SendSequence

  The sequence numbers of the fragments that `nsend` and `nclose` queue.

  `snd_nxt` is no running count of the bytes sent: the PSH and FIN blocks of
  `ng_tcp_handle_established` set it to the number the peer says it expects
  next.  So a fragment carries the acknowledgement number of the last
  segment that passed one of these blocks, and before the first of them the
  number of the SYN-ACK itself.
-/

import LinuxLearning.Ustack.Buffers
import LinuxLearning.Ustack.TcpOutput

namespace LinuxLearning.Ustack

open Lib

/-- The fragment has SYN: only `ng_tcp_handle_listen` sets it. -/
def NgTcpFragment.isSyn (f : NgTcpFragment) : Bool := hasFlag f.tcpFlags RTE_TCP_SYN_FLAG

@[simp] theorem isSyn_sendFragment (t : NgTcpStream) (buf : List Byte) :
    (sendFragment t buf).isSyn = false := by
  simp only [NgTcpFragment.isSyn, sendFragment]
  decide

@[simp] theorem isSyn_finFragment (env : Env) (t : NgTcpStream) :
    (finFragment env t).isSyn = false := by
  simp only [NgTcpFragment.isSyn, finFragment]
  decide

@[simp] theorem isSyn_ackFragment (t : NgTcpStream) (p : Ptr) :
    (ackFragment t p).isSyn = false := by
  simp only [NgTcpFragment.isSyn, ackFragment]
  decide

@[simp] theorem isSyn_synAckFragment (t : NgTcpStream) (seg : Segment) :
    (synAckFragment t seg).isSyn = true := by
  simp only [NgTcpFragment.isSyn, synAckFragment]
  decide

/-- The number a connection sends with, after an operation. -/
def numberReplay (number : Option (BitVec 32)) : StreamOp → Option (BitVec 32)
  | .link _ | .unlink => none
  | .segment .established seg => if seg.psh || seg.fin then some seg.recvAck else number
  | .sndPut f _ => if f.isSyn then some f.seqnum else number
  | .segment _ _ | .sent _ | .sndRequeue _ _ | .rcvPut _ _ | .rcvGet _ | .rcvRequeue _ _
  | .accept _ | .signal => number

/-- The number of the SYN-ACK that answered the peer's SYN, or, once there is
    one, the acknowledgement number of the last segment with PSH or FIN that
    was processed in ESTABLISHED. -/
def sndNumber (ops : List StreamOp) : Option (BitVec 32) := ops.foldl numberReplay none

theorem sndNumber_append (ops₁ ops₂ : List StreamOp) :
    sndNumber (ops₁ ++ ops₂) = ops₂.foldl numberReplay (sndNumber ops₁) := List.foldl_append ..

theorem numberReplay_established {env : Env} {m : Mbuf} {t t' : NgTcpStream}
    {ops : List StreamOp} (h : EstablishedStep env m t ops t') (number : Option (BitVec 32)) :
    (coreOps ops).foldl numberReplay number = number := by
  refine foldl_of_neutral (fun op hop x => ?_) number
  rcases h.mem_ops hop with ⟨b, len, f, stored, -, -, rfl⟩ | ⟨u, stored, rfl⟩
  · rfl
  · simp [numberReplay]

theorem numberReplay_output {t t' : NgTcpStream} {ops : List StreamOp} (h : OutCases t t' ops)
    (number : Option (BitVec 32)) : (coreOps ops).foldl numberReplay number = number := by
  cases h <;> rfl

/-- `snd_nxt` is that number. -/
def SndNxtNumbered (past : List StreamOp) (cell : Option NgTcpStream) : Prop :=
  ∀ t ∈ cell, ∀ v, sndNumber past = some v → t.sndNxt = v

theorem sndNxtNumbered_step {s : State} {e : Event} {a : Addr} {past ops : List StreamOp}
    {before after : Option NgTcpStream} (hinv : SndNxtNumbered past before)
    (h : TcbChange s e a ops before after) : SndNxtNumbered (past ++ ops) after := by
  intro t' ht' v hv
  rw [sndNumber_append] at hv
  -- a case that keeps `snd_nxt` and takes over no other number
  have hkeep {t : NgTcpStream} (hbefore : before = some t) (hsnd : t'.sndNxt = t.sndNxt)
      (hsame : ops.foldl numberReplay (sndNumber past) = sndNumber past) : t'.sndNxt = v := by
    rw [hsnd]
    exact hinv t hbefore v (hsame ▸ hv)
  cases h with
  | idle => exact hinv t' ht' v hv
  | @seen env m t he hf hest =>
      cases ht'
      refine hkeep rfl rfl ?_
      cases hst : t'.status <;> first | rfl | exact absurd hst hest
  | opened he ha hsnd hrcv => cases hv
  | bound | listening | accepted =>
      cases ht'
      exact hkeep rfl rfl rfl
  | sending he hinfo hput | closing he hinfo hst hput =>
      cases ht'
      obtain ⟨r, -, rfl, -⟩ := enqueueSnd_ok hput
      exact hkeep rfl rfl (by simp [numberReplay])
  | reading he hinfo hread =>
      cases ht'
      have hok := nrecvStream_ok hread
      refine hkeep rfl (by rw [hok.fields]) ?_
      cases hok <;> rfl
  | closed => cases ht'
  | synAcked =>
      cases ht'
      simp only [List.foldl_cons, List.foldl_nil, numberReplay, isSyn_synAckFragment, if_true,
        Option.some.injEq] at hv
      exact hv
  | synUnanswered => cases hv
  | handshake =>
      cases ht'
      exact hkeep rfl rfl rfl
  | @data env m t _ done he hf hst hest =>
      cases ht'
      have hok := ngTcpHandleEstablished_ok hest
      rw [List.foldl_cons, numberReplay_established hok] at hv
      rw [hok.fields]
      simp only [numberReplay] at hv ⊢
      split at hv
      · rename_i hflag
        rw [if_pos hflag]
        exact Option.some.inj hv
      · rename_i hflag
        rw [if_neg hflag]
        exact hinv t rfl v hv
  | destroyed => cases ht'
  | @output env t he =>
      cases ht'
      have hok := tcpOutStream_cases s.arpt t
      exact hkeep rfl (by rw [hok.fields]) (numberReplay_output hok (sndNumber past))

theorem sndNxtNumbered_run {mac : List Byte} {hist : History} {s : State}
    (hrun : SystemRun (State.init mac) hist s) (a : Addr) :
    SndNxtNumbered (opsOf hist a) (s.tcb a) := by
  refine systemRun_tcb_invariant ?_ ?_ hrun a
  · rintro a t ⟨⟩
  · exact fun s e a past ops before after hinv h => sndNxtNumbered_step hinv h

/-- `nsend` or `nclose`. -/
def Event.isSend : Event → Bool
  | .nsend _ _ _ | .nclose _ _ => true
  | .packet _ _ | .udpOut _ | .tcpOut _ | .nsocket _ _ | .nbind _ _ _ | .nlisten _ | .naccept _
  | .nrecv _ _ | .nrecvfrom _ _ _ | .nsendto _ _ _ _ _ => false

/-- What a send queues carries the block's `snd_nxt`. -/
theorem seqnum_of_isSend {s s' : State} {e : Event} {o : Out} {a : Addr} {f : NgTcpFragment}
    {stored : Bool} (hstep : step s e = .ok (s', o)) (hsend : e.isSend = true)
    (hput : .sndPut f stored ∈ o.opsOf a) : ∃ t, s.tcb a = some t ∧ f.seqnum = t.sndNxt := by
  have hchange := tcbChange_of_step hstep a
  generalize o.opsOf a = ops at hput hchange
  generalize s.tcb a = before at hchange ⊢
  generalize s'.tcb a = after at hchange
  cases hchange with
  | sending | closing =>
      obtain ⟨rfl, -⟩ : f = _ ∧ stored = _ := by simpa using hput
      exact ⟨_, rfl, rfl⟩
  | idle | bound | listening => cases hput
  | closed => simp at hput
  | seen he | opened he | accepted he | reading he | synAcked he | synUnanswered he | handshake he
  | data he | destroyed he | output he =>
      rw [he] at hsend
      cases hsend

/-- In every run, the fragment `nsend` or `nclose` queues carries the
    acknowledgement number of the last segment with PSH or FIN that was
    processed for the connection in ESTABLISHED, or before any the number of
    its SYN-ACK. -/
theorem seqnum_eq_sndNumber {mac : List Byte} {hist : History} {s s' : State} {e : Event}
    {o : Out} {a : Addr} {f : NgTcpFragment} {stored : Bool} {v : BitVec 32}
    (hrun : SystemRun (State.init mac) hist s) (hstep : step s e = .ok (s', o))
    (hsend : e.isSend = true) (hput : .sndPut f stored ∈ o.opsOf a)
    (hlast : sndNumber (opsOf hist a) = some v) : f.seqnum = v := by
  obtain ⟨t, ht, hseq⟩ := seqnum_of_isSend hstep hsend hput
  rw [hseq]
  exact sndNxtNumbered_run hrun a t ht v hlast

/-! ## The whole sequence -/

/-- The fragment has PSH or FIN: `nsend` and `nclose` set one of them, the
    handlers neither. -/
def NgTcpFragment.isSend (f : NgTcpFragment) : Bool :=
  hasFlag f.tcpFlags RTE_TCP_PSH_FLAG || hasFlag f.tcpFlags RTE_TCP_FIN_FLAG

@[simp] theorem isSend_sendFragment (t : NgTcpStream) (buf : List Byte) :
    (sendFragment t buf).isSend = true := by
  simp only [NgTcpFragment.isSend, sendFragment]
  decide

@[simp] theorem isSend_finFragment (env : Env) (t : NgTcpStream) :
    (finFragment env t).isSend = true := by
  simp only [NgTcpFragment.isSend, finFragment]
  decide

@[simp] theorem isSend_ackFragment (t : NgTcpStream) (p : Ptr) :
    (ackFragment t p).isSend = false := by
  simp only [NgTcpFragment.isSend, ackFragment]
  decide

@[simp] theorem isSend_synAckFragment (t : NgTcpStream) (seg : Segment) :
    (synAckFragment t seg).isSend = false := by
  simp only [NgTcpFragment.isSend, synAckFragment]
  decide

/-- The fragments of `nsend` and `nclose` among those put on `sndbuf`. -/
def sends (ops : List StreamOp) : List NgTcpFragment :=
  ops.filterMap fun
    | .sndPut f _ => if f.isSend then some f else none
    | _ => none

/-- The number of bytes the fragments carry. -/
def totalLength (fs : List NgTcpFragment) : Nat := (fs.map NgTcpFragment.length).sum

/-- The fragments occupy the sequence space from `next` on without gap or
    overlap. -/
def ContiguousFrom (next : BitVec 32) : List NgTcpFragment → Prop
  | [] => True
  | f :: rest => f.seqnum = next ∧ ContiguousFrom (next + BitVec.ofNat 32 f.length) rest

instance decidableContiguousFrom :
    (next : BitVec 32) → (fs : List NgTcpFragment) → Decidable (ContiguousFrom next fs)
  | _, [] => .isTrue trivial
  | next, f :: rest =>
      have := decidableContiguousFrom (next + BitVec.ofNat 32 f.length) rest
      inferInstanceAs (Decidable (_ ∧ _))

theorem contiguousFrom_snoc {next : BitVec 32} {fs : List NgTcpFragment} {f : NgTcpFragment} :
    ContiguousFrom next (fs ++ [f]) ↔
      ContiguousFrom next fs ∧ f.seqnum = next + BitVec.ofNat 32 (totalLength fs) := by
  induction fs generalizing next with
  | nil => simp [ContiguousFrom, totalLength]
  | cons g rest ih =>
      have hsum : next + BitVec.ofNat 32 g.length + BitVec.ofNat 32 (totalLength rest) =
          next + BitVec.ofNat 32 (totalLength (g :: rest)) := by
        simp only [totalLength, List.map_cons, List.sum_cons, BitVec.ofNat_add, BitVec.add_assoc]
      rw [List.cons_append, ContiguousFrom, ContiguousFrom, ih, hsum, and_assoc]

theorem sends_append (ops₁ ops₂ : List StreamOp) :
    sends (ops₁ ++ ops₂) = sends ops₁ ++ sends ops₂ := List.filterMap_append ..

/-- The acknowledgements of `ng_tcp_handle_established` are no sends. -/
theorem sends_of_established {env : Env} {m : Mbuf} {t t' : NgTcpStream} {ops : List StreamOp}
    (h : EstablishedStep env m t ops t') : sends (coreOps ops) = [] := by
  rw [sends, List.filterMap_eq_nil_iff]
  intro op hop
  rcases h.mem_ops hop with ⟨b, len, f, stored, -, -, rfl⟩ | ⟨u, stored, rfl⟩
  · rfl
  · simp

/-- What a step queues with PSH or FIN: one fragment if it is `nsend` or
    `nclose`, nothing otherwise. -/
theorem sends_of_step {s s' : State} {e : Event} {o : Out} (hstep : step s e = .ok (s', o))
    (a : Addr) :
    sends (o.opsOf a) = [] ∨ e.isSend = true ∧ ∃ f stored, o.opsOf a = [.sndPut f stored] ∧
      sends (o.opsOf a) = [f] := by
  have hchange := tcbChange_of_step hstep a
  generalize o.opsOf a = ops at hchange ⊢
  generalize s.tcb a = before at hchange
  generalize s'.tcb a = after at hchange
  cases hchange with
  | idle | seen | opened | bound | listening | accepted | closed | synAcked | synUnanswered
  | handshake | destroyed => exact .inl (by simp [sends])
  | sending he | closing he => exact .inr ⟨by rw [he]; rfl, _, _, rfl, by simp [sends]⟩
  | data he hf hst hest => exact .inl (sends_of_established (ngTcpHandleEstablished_ok hest))
  | reading he hinfo hread => cases nrecvStream_ok hread <;> exact .inl rfl
  | @output env t he =>
      have hout := tcpOutStream_cases s.arpt t
      generalize (tcpOutStream s.arpt t).1 = t' at hout
      generalize (tcpOutStream s.arpt t).2.1 = ops at hout ⊢
      cases hout <;> exact .inl rfl

/-- The step queued data or a FIN for the block at `a`. -/
def QueuesOn (a : Addr) (en : Event × Out) : Prop :=
  en.1.isSend = true ∧ sends (en.2.opsOf a) ≠ []

instance (a : Addr) (en : Event × Out) : Decidable (QueuesOn a en) :=
  inferInstanceAs (Decidable (_ ∧ _))

/-- The entry, if it queued something for the block at `a`, came when the
    number taken over last was the end of the whole stream sent so far, which
    began at `first`. -/
def InLockStep (a : Addr) (first : BitVec 32) (past : History) (en : Event × Out) : Prop :=
  QueuesOn a en → sndNumber (opsOf past a) =
    some (first + BitVec.ofNat 32 (totalLength (sends (opsOf past a))))

/-- The sequence numbers of the data and the FIN of a connection whose SYN was
    answered by a SYN-ACK: each is the acknowledgement number of the last
    segment with PSH or FIN that was processed in ESTABLISHED, or before any
    the number of the SYN-ACK, so that they cover the sequence space from
    `first` on without gap or overlap exactly if every send waits until all
    that was sent before is acknowledged that way. -/
theorem send_seqnums {mac : List Byte} {hist : History} {s : State} {a : Addr}
    {first : BitVec 32} (hrun : SystemRun (State.init mac) hist s)
    (hdata : AtEveryEntry (fun past en =>
      QueuesOn a en → (sndNumber (opsOf past a)).isSome = true) hist) :
    AtEveryEntry (fun past en => ∀ f stored v, en.1.isSend = true →
      .sndPut f stored ∈ en.2.opsOf a → sndNumber (opsOf past a) = some v → f.seqnum = v) hist ∧
    (ContiguousFrom first (sends (opsOf hist a)) ↔ AtEveryEntry (InLockStep a first) hist) := by
  induction hrun with
  | start => exact ⟨atEveryEntry_nil _, iff_of_true trivial (atEveryEntry_nil _)⟩
  | @step hist s e o s' hrun hR ih =>
      rw [atEveryEntry_snoc] at hdata
      obtain ⟨hseqs, hiff⟩ := ih hdata.1
      rw [atEveryEntry_snoc, atEveryEntry_snoc, ← hiff]
      refine ⟨⟨hseqs, fun f stored v hsend hput hlast =>
        seqnum_eq_sndNumber hrun hR hsend hput hlast⟩, ?_⟩
      rw [opsOf, List.flatMap_append, List.flatMap_singleton, sends_append]
      rcases sends_of_step hR a with hnone | ⟨hsend, f, stored, hops, hone⟩
      -- the step queues no data on the block
      · have hidle : ¬ QueuesOn a (e, o) := fun h => h.2 hnone
        rw [hnone, List.append_nil]
        exact ⟨fun h => ⟨h, fun hq => absurd hq hidle⟩, fun h => h.1⟩
      -- one fragment, with the number the last segment left
      · have hqueues : QueuesOn a (e, o) := ⟨hsend, by simp [hone]⟩
        obtain ⟨v, hv⟩ := Option.isSome_iff_exists.mp (hdata.2 hqueues)
        have hput : .sndPut f stored ∈ o.opsOf a := by simp [hops]
        have hseq : f.seqnum = v := seqnum_eq_sndNumber hrun hR hsend hput hv
        rw [hone, contiguousFrom_snoc, hseq]
        refine and_congr Iff.rfl ?_
        simp only [InLockStep, hqueues, true_imp_iff, hv, Option.some.injEq]
        rfl

/-- A peer's segment of one byte and an answer to it. -/
theorem send_seqnums_answer : ∃ (hist : History) (s : State),
    SystemRun (State.init []) hist s ∧ (sends (opsOf hist 1)).map (·.seqnum) = [1001] ∧
    AtEveryEntry (fun past en => ∀ f stored v, en.1.isSend = true →
      .sndPut f stored ∈ en.2.opsOf 1 → sndNumber (opsOf past 1) = some v → f.seqnum = v) hist ∧
    (ContiguousFrom 1001 (sends (opsOf hist 1)) ↔ AtEveryEntry (InLockStep 1 1001) hist) := by
  have hrun : runsTo (State.init []) (openServer ++ connectPeer ++
      [.naccept 3,
       .packet .plain (peerSegment (RTE_TCP_PSH_FLAG ||| RTE_TCP_ACK_FLAG) 501 1001 [63]),
       .nsend .plain 4 [65]])
      (fun hist _ => (sends (opsOf hist 1)).map (·.seqnum) == [1001] &&
        decide (AtEveryEntry (fun past en =>
          QueuesOn 1 en → (sndNumber (opsOf past 1)).isSome = true) hist)) = true := by
    decide +kernel
  obtain ⟨hist, s, hrun, hP⟩ := run_of_runsTo hrun
  rw [Bool.and_eq_true, beq_iff_eq, decide_eq_true_eq] at hP
  exact ⟨hist, s, hrun, hP.1, send_seqnums hrun hP.2⟩

/-- The SYN-ACK has number 1000 and the peer's ACK asks for 1001, but
    `ng_tcp_handle_syn_rcvd` does not take that number over: the first byte is
    sent as number 1000, and so is the one behind it. -/
theorem two_sends_overlap : ∃ (hist : History) (s : State),
    SystemRun (State.init []) hist s ∧
    hist.map (·.2.ret) = [3, 0, 0, 0, 0, 4, 1, 1] ∧
    sndNumber (opsOf hist 1) = some 1000 ∧
    (sends (opsOf hist 1)).map (fun f => (f.seqnum, f.payload)) = [(1000, [65]), (1000, [66])] ∧
    ¬ ContiguousFrom (1000 + 1) (sends (opsOf hist 1)) := by
  have hrun : runsTo (State.init []) (openServer ++ connectPeer ++
      [.naccept 3, .nsend .plain 4 [65], .nsend .plain 4 [66]])
      (fun hist _ => hist.map (·.2.ret) == [3, 0, 0, 0, 0, 4, 1, 1] &&
        decide (sndNumber (opsOf hist 1) = some 1000 ∧
          (sends (opsOf hist 1)).map (fun f => (f.seqnum, f.payload)) =
            [(1000, [65]), (1000, [66])] ∧
          ¬ ContiguousFrom (1000 + 1) (sends (opsOf hist 1)))) = true := by
    decide +kernel
  obtain ⟨hist, s, hrun, hP⟩ := run_of_runsTo hrun
  rw [Bool.and_eq_true, beq_iff_eq, decide_eq_true_eq] at hP
  exact ⟨hist, s, hrun, hP.1, hP.2⟩

end LinuxLearning.Ustack
