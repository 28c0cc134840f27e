/-
  LinuxLearning.Ustack.Lifetime

  The list of control blocks over a run.

  A step links at most one block, in front of the others, or unlinks at most
  one; a block that is linked lives at an address no block had before.  So
  the list stays ordered by age, and a block's operations in the run begin
  with the one that linked it (`guardedRun_block_invariant`).
-/

import LinuxLearning.Ustack.Buffers

namespace LinuxLearning.Ustack

open Lib

variable {env : Env} {s s' : State} {e : Event} {m : Mbuf} {o : Out} {a : Addr}
  {t : NgTcpStream} {ops : List StreamOp}

/-! ## The list of blocks from step to step -/

/-- A handler changes the list of blocks and the rings, nothing else. -/
theorem dispatchSegment_frame {iphdr tcphdr : Ptr} {done : List (Addr × StreamOp)}
    (h : dispatchSegment env s a t iphdr tcphdr = .ok (s', done)) :
    ∃ tcbs live, s' = { s with tcbSet := tcbs, ringNames := live } ∧ s.tcbSet.Evolved tcbs := by
  cases hst : t.status with
  | listen =>
      simp only [dispatchSegment, hst] at h
      cases ngTcpHandleListen_ok h with
      | ignored => exact ⟨_, _, rfl, .of_eq rfl⟩
      | answered => exact ⟨_, _, rfl, (Table.Evolved.add ..).then_modify ..⟩
      | unanswered => exact ⟨_, _, rfl, .add ..⟩
  | synRcvd =>
      simp only [dispatchSegment, hst, ngTcpHandleSynRcvd] at h
      repeat' split at h
      all_goals simp only [Except.ok.injEq, Prod.mk.injEq, reduceCtorEq] at h
      all_goals obtain ⟨rfl, -⟩ := h
      · exact ⟨_, _, rfl, .modify ..⟩
      · exact ⟨_, _, rfl, .of_eq rfl⟩
  | established =>
      rw [dispatchSegment, hst] at h
      obtain ⟨⟨t', ops⟩, -, hret⟩ := bind_eq_ok_iff.mp h
      -- the handler writes the block it was given
      obtain ⟨rfl, -⟩ : s.setTcb a t' = s' ∧ ops.map (a, ·) = done := by
        simpa [pure, Except.pure] using hret
      exact ⟨_, _, rfl, .modify ..⟩
  | lastAck =>
      simp only [dispatchSegment, hst, ngTcpHandleLastAck, Except.ok.injEq] at h
      split at h
      all_goals obtain ⟨rfl, -⟩ := Prod.mk.inj h
      · exact ⟨_, _, rfl, .remove ..⟩
      · exact ⟨_, _, rfl, .of_eq rfl⟩
  | closed | synSent | finWait1 | finWait2 | closing | timeWait | closeWait =>
      simp only [dispatchSegment, hst, Except.ok.injEq, Prod.mk.injEq] at h
      exact ⟨_, _, h.1.symm, .of_eq rfl⟩

theorem ngTcpProcess_frame (h : ngTcpProcess env s m = .ok (s', o)) :
    ∃ tcbs live, s' = { s with tcbSet := tcbs, ringNames := live } ∧ s.tcbSet.Evolved tcbs := by
  rcases ngTcpProcess_cases h with ⟨-, rfl, -⟩ | ⟨a, t, ops, -, hd, -⟩
  · exact ⟨_, _, rfl, .of_eq rfl⟩
  · exact dispatchSegment_frame hd

theorem evolved_of_packet (h : pktProcess env s m = .ok (s', o)) :
    s.tcbSet.Evolved s'.tcbSet := by
  rcases pktProcess_cases h with ⟨-, h⟩ | ⟨-, h⟩ | ⟨-, -, -, rfl⟩
  · exact .of_eq (udpProcess_tcbs h).1
  · obtain ⟨tcbs, live, rfl, hevolved⟩ := ngTcpProcess_frame h
    exact hevolved
  · exact .of_eq (by split <;> rfl)

theorem evolved_of_nsocket (env : Env) (s : State) (type : Int) :
    s.tcbSet.Evolved (nsocket env s type).1.tcbSet := by
  rcases nsocket_cases env s type with ⟨-, htcbs, -⟩ | ⟨-, htcbs, -⟩ |
    ⟨-, -, -, snd, rcv, -, -, htcbs⟩
  · exact .of_eq htcbs
  · exact .of_eq htcbs
  · rw [htcbs]
    exact .add ..

/-- A step links at most one new block, in front of the others, or unlinks at
    most one. -/
theorem evolved_of_step (h : step s e = .ok (s', o)) : s.tcbSet.Evolved s'.tcbSet := by
  cases e with
  | packet env m => exact evolved_of_packet h
  | udpOut env => exact .of_eq (udpOut_tcbs h).1
  | tcpOut env =>
      simp only [step, ngTcpOut] at h
      split at h
      · cases h
      · obtain ⟨rfl, -⟩ := Prod.mk.inj (Except.ok.inj h)
        exact .mapNodes ..
  | nsocket env type =>
      obtain ⟨rfl, -⟩ := Prod.mk.inj (Except.ok.inj h)
      exact evolved_of_nsocket ..
  | nbind fd ip port =>
      simp only [step, nbind] at h
      split at h
      all_goals obtain ⟨rfl, -⟩ := Prod.mk.inj (Except.ok.inj h)
      · exact .of_eq rfl
      · exact .of_eq rfl
      · exact .modify ..
  | nlisten fd =>
      simp only [step, nlisten] at h
      split at h
      all_goals obtain ⟨rfl, -⟩ := Prod.mk.inj (Except.ok.inj h)
      · exact .of_eq rfl
      · exact .of_eq rfl
      · exact .modify ..
  | naccept fd =>
      simp only [step, naccept] at h
      repeat' split at h
      all_goals simp only [Except.ok.injEq, Prod.mk.injEq, reduceCtorEq] at h
      all_goals obtain ⟨rfl, -⟩ := h
      · exact .of_eq rfl
      · exact .of_eq rfl
      · exact .modify ..
  | nsend env fd buf =>
      simp only [step, nsend] at h
      repeat' split at h
      all_goals simp only [Except.ok.injEq, Prod.mk.injEq, reduceCtorEq] at h
      all_goals obtain ⟨rfl, -⟩ := h
      all_goals first | exact .of_eq rfl | exact .modify ..
  | nrecv fd len =>
      simp only [step, nrecv] at h
      repeat' split at h
      all_goals simp only [Except.ok.injEq, Prod.mk.injEq, reduceCtorEq] at h
      all_goals obtain ⟨rfl, -⟩ := h
      all_goals first | exact .of_eq rfl | exact .modify ..
  | nrecvfrom env fd len => exact .of_eq (nrecvfrom_tcbs h).1
  | nsendto env fd buf ip port => exact .of_eq (nsendto_tcbs h).1
  | nclose env fd =>
      simp only [step, nclose] at h
      repeat' split at h
      all_goals simp only [Except.ok.injEq, Prod.mk.injEq, reduceCtorEq] at h
      all_goals obtain ⟨rfl, -⟩ := h
      -- nothing found, a UDP socket, no memory; then LAST_ACK, or a listener unlinked
      · exact .of_eq rfl
      · exact .of_eq rfl
      · exact .of_eq rfl
      · exact .modify ..
      · exact .remove ..

/-! ## Addresses are not used twice -/

/-- An operation on an address where no block is linked links one there, at
    the address the list hands out next. -/
theorem TcbChange.fresh {after : Option NgTcpStream} (h : TcbChange s e a ops none after) :
    (ops = [] ∧ after = none) ∨ a = s.tcbSet.next ∧ after ≠ none := by
  cases h with
  | idle => exact .inl ⟨rfl, rfl⟩
  | opened _ ha => exact .inr ⟨ha, Option.some_ne_none _⟩
  | synAcked _ _ _ _ ha => exact .inr ⟨ha, Option.some_ne_none _⟩
  | synUnanswered _ _ _ _ ha => exact .inr ⟨ha, Option.some_ne_none _⟩

/-- Only a block that is not linked can be linked. -/
theorem TcbChange.none_of_link {before after : Option NgTcpStream} {origin : Option Segment}
    (h : TcbChange s e a ops before after) (hmem : .link origin ∈ ops) : before = none := by
  cases h with
  | idle | bound | listening => cases hmem
  | opened | synAcked | synUnanswered => rfl
  | seen | accepted | sending | closing | closed | handshake | destroyed => simp at hmem
  | reading he hinfo hread => cases (nrecvStream_ok hread).isBuffer _ hmem
  | data he hf hst hest =>
      rcases List.mem_cons.mp hmem with h | h
      · cases h
      · cases (ngTcpHandleEstablished_ok hest).isBuffer _ h
  | output => cases (tcpOutStream_cases ..).isBuffer _ hmem

/-- Nothing was done yet at the addresses still to be handed out. -/
theorem opsOf_eq_nil_of_next_le {s₀ : State} {hist : History} (hrun : SystemRun s₀ hist s)
    (ha : s.tcbSet.next ≤ a) : opsOf hist a = [] := by
  induction hrun with
  | start => rfl
  | @step hist s e o s' hrun hR ih =>
      -- the next address never goes down, so `a` was not handed out before either
      have hs : s.tcbSet.next ≤ a := Nat.le_trans (evolved_of_step hR).next_le ha
      have hbefore : s.tcb a = none := by
        cases h : s.tcb a with
        | none => rfl
        | some t => exact absurd (Table.lt_next_of_get? h) (Nat.not_lt.mpr hs)
      have hchange := tcbChange_of_step hR a
      rw [hbefore] at hchange
      have hops : o.opsOf a = [] := by
        rcases hchange.fresh with ⟨hnil, -⟩ | ⟨-, hafter⟩
        · exact hnil
        · obtain ⟨t, ht⟩ := Option.ne_none_iff_exists'.mp hafter
          exact absurd (Table.lt_next_of_get? ht) (Nat.not_lt.mpr ha)
      rw [opsOf, List.flatMap_append, List.flatMap_singleton, hops, List.append_nil]
      exact ih hs

/-- The rule for invariants of one block over its life, which may speak about
    the rest of the state: a block that is linked has no operations before. -/
theorem guardedRun_life_invariant {C : State → Event → Prop}
    {Inv : State → List StreamOp → Option NgTcpStream → Prop} {mac : List Byte} {hist : History}
    (hinit : Inv (State.init mac) [] none)
    (hstep : ∀ s e o s' a past, C s e → step s e = .ok (s', o) →
      (s.tcb a = none → o.opsOf a ≠ [] → past = []) → Inv s past (s.tcb a) →
      Inv s' (past ++ o.opsOf a) (s'.tcb a))
    (hrun : GuardedRun C (State.init mac) hist s) (a : Addr) :
    Inv s (opsOf hist a) (s.tcb a) := by
  induction hrun with
  | start => exact hinit
  | @step hist s e o s' hrun hR ih =>
      rw [opsOf, List.flatMap_append, List.flatMap_singleton]
      apply hstep s e o s' a _ hR.1 hR.2 ?_ ih
      intro hbefore hops
      have hchange := tcbChange_of_step hR.2 a
      rw [hbefore] at hchange
      rcases hchange.fresh with ⟨hnil, -⟩ | ⟨ha, -⟩
      · exact absurd hnil hops
      -- the block was linked at the next address, which has no past
      · exact opsOf_eq_nil_of_next_le hrun.of_guarded (Nat.le_of_eq ha.symm)

/-- The same for an invariant of the block alone. -/
theorem guardedRun_block_invariant {C : State → Event → Prop}
    {Inv : List StreamOp → Option NgTcpStream → Prop} {mac : List Byte} {hist : History}
    (hinit : Inv [] none)
    (hstep : ∀ s e a past ops before after, C s e → (before = none → ops ≠ [] → past = []) →
      Inv past before → TcbChange s e a ops before after → Inv (past ++ ops) after)
    (hrun : GuardedRun C (State.init mac) hist s) (a : Addr) : Inv (opsOf hist a) (s.tcb a) := by
  have hlife : ∀ s e o s' a past, C s e → step s e = .ok (s', o) →
      (s.tcb a = none → o.opsOf a ≠ [] → past = []) → Inv past (s.tcb a) →
      Inv (past ++ o.opsOf a) (s'.tcb a) := by
    intro s e o s' a past hC h hfresh hinv
    exact hstep s e a past _ _ _ hC hfresh hinv (tcbChange_of_step h a)
  exact guardedRun_life_invariant hinit hlife hrun a

/-- `ng_tcp_handle_listen` made the block. -/
def MadeBySyn (ops : List StreamOp) : Prop := ∃ syn, .link (some syn) ∈ ops

theorem MadeBySyn.append (h : MadeBySyn ops) (more : List StreamOp) : MadeBySyn (ops ++ more) := by
  obtain ⟨syn, hsyn⟩ := h
  exact ⟨syn, List.mem_append_left _ hsyn⟩

/-- Who made a block is settled when it is linked. -/
theorem MadeBySyn.before {past : List StreamOp} {after : Option NgTcpStream}
    (h : MadeBySyn (past ++ ops)) (hchange : TcbChange s e a ops (some t) after) :
    MadeBySyn past := by
  obtain ⟨syn, hsyn⟩ := h
  rcases List.mem_append.mp hsyn with hpast | hops
  · exact ⟨syn, hpast⟩
  · cases hchange.none_of_link hops

end LinuxLearning.Ustack
