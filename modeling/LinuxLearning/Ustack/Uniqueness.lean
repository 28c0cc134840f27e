/-
  LinuxLearning.Ustack.Uniqueness

  One control block for a connection.

  The server opens one socket and listens on it.  From then on a SYN makes a
  block only if the search finds the listener, which lies behind all the
  blocks that SYNs made; a block with the SYN's own key would be found before
  it.  So no two blocks made by SYNs have the same peer, and a SYN that comes
  again makes none.
-/

import LinuxLearning.Ustack.Connection
import LinuxLearning.Ustack.StatusDiagram

namespace LinuxLearning.Ustack

open Lib

variable {env : Env} {s s' : State} {e : Event} {m : Mbuf} {o : Out} {a b : Addr}
  {t u : NgTcpStream} {hist : History}

/-- After the server has opened its socket: packets and every call but those
    that open, name or listen on TCP sockets.  Every SYN can be answered. -/
def ServesOneSocket (s : State) : Event → Prop
  | .packet env _ => env.malloc .synFragment = true
  | .nsocket _ type => type ≠ SOCK_STREAM
  | .nbind fd _ _ | .nlisten fd =>
      match getHostinfoFromfd s fd with
      | some (.stream _ _) => False
      | _ => True
  | _ => True

instance (s : State) : (e : Event) → Decidable (ServesOneSocket s e)
  | .packet _ _ => inferInstanceAs (Decidable (_ = _))
  | .nsocket _ type => inferInstanceAs (Decidable (type ≠ SOCK_STREAM))
  | .nbind fd _ _ | .nlisten fd =>
      match hinfo : getHostinfoFromfd s fd with
      | some (.stream _ _) => .isFalse (by simp only [ServesOneSocket, hinfo, not_false_eq_true])
      | some (.localhost _ _) | none => .isTrue (by simp only [ServesOneSocket, hinfo])
  | .udpOut _ | .tcpOut _ | .naccept _ | .nsend _ _ _ | .nrecv _ _ | .nrecvfrom _ _ _
  | .nsendto _ _ _ _ _ | .nclose _ _ => .isTrue trivial

/-! ## The invariant -/

/-- How the blocks lie while one socket is served. -/
structure OneSocket (hist : History) (s : State) : Prop where
  /-- Later blocks are in front. -/
  sorted : s.tcbSet.addrs.Pairwise (· > ·)
  /-- The block of the server's socket is the oldest. -/
  oldest : ∀ a t b u, s.tcb a = some t → ¬ MadeBySyn (opsOf hist a) → s.tcb b = some u → a ≤ b
  /-- Only the server's socket listens. -/
  listener : ∀ a t, s.tcb a = some t → t.status = .listen → ¬ MadeBySyn (opsOf hist a)
  unique : ∀ a t b u, s.tcb a = some t → s.tcb b = some u → MadeBySyn (opsOf hist a) →
    MadeBySyn (opsOf hist b) → t.peer = u.peer → a = b

/-- A segment of a connection is never for the listener. -/
theorem OneSocket.not_listen (hone : OneSocket hist s) (hb : s.tcb b = some u)
    (hmade : MadeBySyn (opsOf hist b)) (hpeer : m.segment.peer = u.peer) (hf : s.Finds m a t) :
    t.status ≠ .listen := by
  intro hst
  have ha := hf.tcb_eq
  have hold := hone.listener a t ha hst
  have hkey : u.hasKey m.segment.sip m.segment.dip m.segment.sport m.segment.dport = true :=
    (hasKey_iff (k := m.segment.peer)).mpr hpeer.symm
  -- the search stops at a block with the key, and takes the latest
  cases hfind : s.tcbSet.find?
      (·.hasKey m.segment.sip m.segment.dip m.segment.sport m.segment.dport) with
  | none =>
      -- `b` has the key, so the first loop finds something
      have hnot := Table.find?_eq_none_iff.mp hfind b u hb
      rw [hkey] at hnot
      cases hnot
  | some found =>
      have hsearch := (State.finds_iff.mp hf).2
      rw [ngTcpStreamSearch, hfind, Option.some.injEq] at hsearch
      subst hsearch
      -- what it finds is no older than `b`, and the listener is the oldest
      have hle : b ≤ a := Table.le_of_find? hone.sorted hfind hb hkey
      have hge : a ≤ b := hone.oldest a t b u ha hold hb
      obtain rfl : a = b := Nat.le_antisymm hge hle
      exact hold hmade

/-- What a block that is linked after a step was before it, unless a SYN has
    just made it: the block of the same peer, made in the same way, and it
    listened if it listens now. -/
theorem linked_before (past : List StreamOp) (hguard : ServesOneSocket s e)
    (h : step s e = .ok (s', o)) (ha : s'.tcb a = some t) :
    (∃ t₀, s.tcb a = some t₀ ∧ t.peer = t₀.peer ∧
      (MadeBySyn (past ++ o.opsOf a) → MadeBySyn past) ∧
      (t.status = .listen → t₀.status = .listen)) ∨
    (a = s.tcbSet.next ∧ MadeBySyn (past ++ o.opsOf a) ∧ t.status = .synRcvd ∧
      ∃ m l u, s.Finds m l u ∧ u.status = .listen ∧ t.peer = m.segment.peer) := by
  have hchange := tcbChange_of_step h a
  rw [ha] at hchange
  cases hcell : s.tcb a with
  | some t₀ =>
      rw [hcell] at hchange
      refine .inl ⟨t₀, rfl, ?_, fun hmade => hmade.before hchange, fun hst => ?_⟩
      · obtain ⟨-, hpeer | ⟨fd, ip, port, rfl, hinfo⟩⟩ := hchange.ends_kept
        · exact hpeer
        · simp only [ServesOneSocket, hinfo] at hguard
      -- only `nlisten` leads to LISTEN
      · have hedge := statusEdge_of_tcbChange hchange
        rw [Option.map_some, Option.map_some, hst] at hedge
        generalize t₀.status = st at hedge
        cases hedge with
        | same => rfl
        | listen he hname =>
            obtain ⟨u, hinfo⟩ := hname
            subst he
            simp only [ServesOneSocket, hinfo] at hguard
  | none =>
      rw [hcell] at hchange
      -- `nsocket` is excluded, so the block was made by a SYN
      rcases hchange.ends_new with ⟨env, rfl, -⟩ |
        ⟨env, m, l, u, rfl, hf, hst, -, hnext, hpeer, hops, hstatus⟩
      · exact absurd rfl hguard
      · exact .inr ⟨hnext, ⟨_, List.mem_append_right _ hops⟩, hstatus hguard, m, l, u, hf, hst,
          hpeer⟩

/-- A SYN that makes a block is of no connection there is. -/
theorem OneSocket.new_peer (hone : OneSocket hist s) (hf : s.Finds m a t)
    (hst : t.status = .listen) (hb : s.tcb b = some u) (hmade : MadeBySyn (opsOf hist b)) :
    m.segment.peer ≠ u.peer :=
  fun hpeer => hone.not_listen hb hmade hpeer hf hst

theorem OneSocket.after_step (hone : OneSocket hist s) (hguard : ServesOneSocket s e)
    (h : step s e = .ok (s', o)) : OneSocket (hist ++ [(e, o)]) s' := by
  have hops : ∀ a, opsOf (hist ++ [(e, o)]) a = opsOf hist a ++ o.opsOf a := fun a => by
    rw [opsOf, List.flatMap_append, List.flatMap_singleton, opsOf]
  constructor
  · exact (evolved_of_step h).sorted hone.sorted
  · intro a t b u ha hnot hb
    rw [hops] at hnot
    rcases linked_before (opsOf hist a) hguard h ha with ⟨t₀, ha₀, -, hmade, -⟩ | ⟨-, hmade, -⟩
    · have hold : ¬ MadeBySyn (opsOf hist a) := fun hmade => hnot (hmade.append _)
      rcases linked_before (opsOf hist b) hguard h hb with ⟨u₀, hb₀, -⟩ | ⟨rfl, -⟩
      · exact hone.oldest a t₀ b u₀ ha₀ hold hb₀
      · exact Nat.le_of_lt (Table.lt_next_of_get? ha₀)
    · exact absurd hmade hnot
  · intro a t ha hst hmade
    rw [hops] at hmade
    rcases linked_before (opsOf hist a) hguard h ha with
      ⟨t₀, ha₀, -, hbefore, hlisten⟩ | ⟨-, -, hsyn, -⟩
    · exact hone.listener a t₀ ha₀ (hlisten hst) (hbefore hmade)
    · rw [hst] at hsyn
      cases hsyn
  · intro a t b u ha hb hma hmb hpeer
    rw [hops] at hma hmb
    rcases linked_before (opsOf hist a) hguard h ha with ⟨t₀, ha₀, hpa, hbefore, -⟩ |
        ⟨hnext, -, -, m, l, v, hf, hst, hpa⟩ <;>
      rcases linked_before (opsOf hist b) hguard h hb with ⟨u₀, hb₀, hpb, hbefore', -⟩ |
        ⟨hnext', -, -, m', l', v', hf', hst', hpb⟩
    · exact hone.unique a t₀ b u₀ ha₀ hb₀ (hbefore hma) (hbefore' hmb) (hpa ▸ hpb ▸ hpeer)
    -- `b` is new, `a` is not
    · have hsame : m'.segment.peer = t₀.peer := by rw [← hpb, ← hpeer, hpa]
      exact absurd hsame (hone.new_peer hf' hst' ha₀ (hbefore hma))
    -- the other way round
    · have hsame : m.segment.peer = u₀.peer := by rw [← hpa, hpeer, hpb]
      exact absurd hsame (hone.new_peer hf hst hb₀ (hbefore' hmb))
    -- both are new: a step links one block
    · exact hnext.trans hnext'.symm

/-! ## The server's socket -/

theorem length_addrs_tcpServerSetup (env : Env) (s : State) (ip : BitVec 32)
    (port : BitVec 16) :
    (tcpServerSetup env s ip port).tcbSet.addrs.length ≤ s.tcbSet.addrs.length + 1 := by
  have hbind : ∀ s fd, (nbind s fd ip port).1.tcbSet.addrs = s.tcbSet.addrs := by
    intro s fd
    unfold nbind
    split
    · rfl
    · rfl
    · exact Table.addrs_modify ..
  have hlisten : ∀ s fd, (nlisten s fd).1.tcbSet.addrs = s.tcbSet.addrs := by
    intro s fd
    unfold nlisten
    split
    · rfl
    · rfl
    · exact Table.addrs_modify ..
  rw [tcpServerSetup, hlisten, hbind]
  exact (evolved_of_nsocket env s SOCK_STREAM).length_addrs_le

theorem oneSocket_of_length {s₀ : State} (h : s₀.tcbSet.addrs.length ≤ 1) :
    OneSocket [] s₀ := by
  have honly : ∀ a b, a ∈ s₀.tcbSet.addrs → b ∈ s₀.tcbSet.addrs → a = b := by
    intro a b ha hb
    generalize s₀.tcbSet.addrs = addrs at h ha hb
    match addrs, h with
    | [], _ => cases ha
    | [c], _ => rw [List.mem_singleton.mp ha, List.mem_singleton.mp hb]
  constructor
  · generalize s₀.tcbSet.addrs = addrs at h
    match addrs, h with
    | [], _ => exact .nil
    | [c], _ => exact List.pairwise_singleton ..
  · intro a t b u ha _ hb
    exact Nat.le_of_eq (honly a b (Table.mem_addrs_of_get? ha) (Table.mem_addrs_of_get? hb))
  · rintro a t ha hst ⟨syn, hmem⟩
    cases hmem
  · rintro a t b u ha hb ⟨syn, hmem⟩
    cases hmem

/-- A SYN of a connection makes no block. -/
theorem OneSocket.no_new_block (hone : OneSocket hist s) (hb : s.tcb b = some u)
    (hmade : MadeBySyn (opsOf hist b)) (hpeer : m.segment.peer = u.peer)
    (h : step s (.packet env m) = .ok (s', o)) (ha : s.tcb a = none) : s'.tcb a = none := by
  have hchange := tcbChange_of_step h a
  rw [ha] at hchange
  cases hcell : s'.tcb a with
  | none => rfl
  | some t =>
      rw [hcell] at hchange
      rcases hchange.ends_new with ⟨_, he, -⟩ | ⟨env', m', l, v, he, hf, hst, -⟩
      · cases he
      · obtain ⟨-, rfl⟩ := Event.packet.inj he
        exact absurd hst (hone.not_listen hb hmade hpeer hf)

/-- A segment without PSH and FIN moves none of a block's numbers. -/
theorem TcbChange.numbers_kept {t' : NgTcpStream} {ops : List StreamOp}
    (h : TcbChange s (.packet env m) a ops (some t) (some t')) (hpsh : m.segment.psh = false)
    (hfin : m.segment.fin = false) : t'.sndNxt = t.sndNxt ∧ t'.rcvNxt = t.rcvNxt := by
  cases h with
  | idle | seen | handshake => exact ⟨rfl, rfl⟩
  | data he hf hst hest =>
      obtain ⟨rfl, rfl⟩ := Event.packet.inj he
      rw [(ngTcpHandleEstablished_ok hest).fields, hpsh, hfin]
      simp
  | bound he | listening he | accepted he | sending he | reading he | closing he | output he =>
      cases he

/-- While one socket is served, no two linked blocks made by SYNs have the
    same peer; and a SYN of a connection that has its block makes no other
    and, if it carries neither PSH nor FIN, leaves `snd_nxt` and `rcv_nxt`
    of that block alone. -/
theorem one_block_per_connection {s₀ : State} (hsocket : s₀.tcbSet.addrs.length ≤ 1)
    (hrun : GuardedRun ServesOneSocket s₀ hist s) :
    (∀ a t b u, s.tcb a = some t → s.tcb b = some u → MadeBySyn (opsOf hist a) →
      MadeBySyn (opsOf hist b) → t.peer = u.peer → a = b) ∧
    ∀ env m s' o a t, step s (.packet env m) = .ok (s', o) → s.tcb a = some t →
      MadeBySyn (opsOf hist a) → m.segment.syn = true → m.segment.peer = t.peer →
      (∀ b, s.tcb b = none → s'.tcb b = none) ∧
      (m.segment.psh = false → m.segment.fin = false →
        ∀ t' ∈ s'.tcb a, t'.sndNxt = t.sndNxt ∧ t'.rcvNxt = t.rcvNxt) := by
  have hone : OneSocket hist s := hrun.invariant (oneSocket_of_length hsocket)
    fun hist s e o s' hone hR => hone.after_step hR.1 hR.2
  refine ⟨hone.unique, ?_⟩
  intro env m s' o a t h ha hmade _ hpeer
  refine ⟨fun b hb => hone.no_new_block ha hmade hpeer h hb, fun hpsh hfin t' ht' => ?_⟩
  have hchange := tcbChange_of_step h a
  rw [ha, ht'] at hchange
  exact hchange.numbers_kept hpsh hfin

/-- The SYN of a connection comes again after its handshake. -/
theorem one_block_per_connection_syn : ∃ (hist : History) (s s' : State) (o : Out)
    (t t' : NgTcpStream),
    GuardedRun ServesOneSocket
      (tcpServerSetup .plain (State.init []) 0x0100000A (htons 9999)) hist s ∧
    s.tcb 1 = some t ∧ t.status = .established ∧
    step s (.packet .plain (peerSegment RTE_TCP_SYN_FLAG 500 0 [])) = .ok (s', o) ∧
    (∀ b, s.tcb b = none → s'.tcb b = none) ∧ s'.tcb 1 = some t' ∧
    t'.sndNxt = t.sndNxt ∧ t'.rcvNxt = t.rcvNxt := by
  have hsocket : (tcpServerSetup .plain (State.init []) 0x0100000A
      (htons 9999)).tcbSet.addrs.length ≤ 1 := length_addrs_tcpServerSetup ..
  have hrun : guardedRunsTo ServesOneSocket
      (tcpServerSetup .plain (State.init []) 0x0100000A (htons 9999)) connectPeer
      (fun hist s =>
        decide (.link (some (peerSegment RTE_TCP_SYN_FLAG 500 0 []).segment) ∈ opsOf hist 1) &&
        decide ((s.tcb 1).map (fun t => (t.status, t.peer)) =
          some (.established, (peerSegment RTE_TCP_SYN_FLAG 500 0 []).segment.peer)) &&
        stepOk s (.packet .plain (peerSegment RTE_TCP_SYN_FLAG 500 0 [])) fun s' _ =>
          (s'.tcb 1).isSome) = true := by
    decide +kernel
  obtain ⟨hist, s, hrun, hP⟩ := run_of_guardedRunsTo hrun
  simp only [Bool.and_eq_true, decide_eq_true_eq] at hP
  obtain ⟨⟨hsyn, hpeer⟩, hP⟩ := hP
  obtain ⟨s', o, hstep, hlinked⟩ := step_of_stepOk hP
  obtain ⟨t, ht, hst⟩ := Option.map_eq_some_iff.mp hpeer
  obtain ⟨hstatus, hpeer⟩ := Prod.mk.inj hst
  obtain ⟨t', ht'⟩ := Option.isSome_iff_exists.mp hlinked
  obtain ⟨hnone, hkept⟩ := (one_block_per_connection hsocket hrun).2 .plain _ s' o 1 t hstep
    ht ⟨_, hsyn⟩ (by decide +kernel) hpeer.symm
  obtain ⟨hsnd, hrcv⟩ := hkept (by decide +kernel) (by decide +kernel) t' ht'
  exact ⟨hist, s, s', o, t, t', hrun, ht, hstatus, hstep, hnone, ht', hsnd, hrcv⟩

/-- A SYN with PSH and a byte of data opens a connection; when it comes again
    after the handshake, it is taken for data and moves both numbers. -/
theorem repeated_syn_moves_numbers : ∃ (hist : History) (s s' : State) (o : Out)
    (t t' : NgTcpStream) (syn : Mbuf),
    GuardedRun ServesOneSocket
      (tcpServerSetup .plain (State.init []) 0x0100000A (htons 9999)) hist s ∧
    .link (some syn.segment) ∈ opsOf hist 1 ∧ s.tcb 1 = some t ∧ t.status = .established ∧
    step s (.packet .plain syn) = .ok (s', o) ∧ s'.tcb 1 = some t' ∧
    t'.rcvNxt ≠ t.rcvNxt ∧ t'.sndNxt ≠ t.sndNxt := by
  have hrun : guardedRunsTo ServesOneSocket
      (tcpServerSetup .plain (State.init []) 0x0100000A (htons 9999))
      [.packet .plain (peerSegment (RTE_TCP_SYN_FLAG ||| RTE_TCP_PSH_FLAG) 500 0 [7]),
       .packet .plain (peerSegment RTE_TCP_ACK_FLAG 501 1001 [])]
      (fun hist s =>
        decide (.link (some (peerSegment (RTE_TCP_SYN_FLAG ||| RTE_TCP_PSH_FLAG) 500 0
          [7]).segment) ∈ opsOf hist 1) &&
        decide ((s.tcb 1).map (fun t => (t.status, t.rcvNxt, t.sndNxt)) =
          some (.established, 501, 1000)) &&
        stepOk s (.packet .plain
            (peerSegment (RTE_TCP_SYN_FLAG ||| RTE_TCP_PSH_FLAG) 500 0 [7])) fun s' _ =>
          decide ((s'.tcb 1).map (fun t => (t.rcvNxt, t.sndNxt)) = some (502, 0))) = true := by
    decide +kernel
  obtain ⟨hist, s, hrun, hP⟩ := run_of_guardedRunsTo hrun
  simp only [Bool.and_eq_true, decide_eq_true_eq] at hP
  obtain ⟨⟨hsyn, hbefore⟩, hP⟩ := hP
  obtain ⟨s', o, hstep, hafter⟩ := step_of_stepOk hP
  rw [decide_eq_true_eq] at hafter
  obtain ⟨t, ht, hnums⟩ := Option.map_eq_some_iff.mp hbefore
  obtain ⟨t', ht', hnums'⟩ := Option.map_eq_some_iff.mp hafter
  simp only [Prod.mk.injEq] at hnums hnums'
  refine ⟨hist, s, s', o, t, t', _, hrun, hsyn, ht, hnums.1, hstep, ht', ?_, ?_⟩
  · rw [hnums.2.1, hnums'.1]
    decide
  · rw [hnums.2.2, hnums'.2]
    decide

end LinuxLearning.Ustack
