/-
  LinuxLearning.Ustack.OutputOrder

  The order in which a connection's fragments leave the stack.

  `ng_tcp_out` puts a fragment back at the tail of `sndbuf` when it does not
  know the peer's hardware address, and then the order is lost.  For a block
  made by `ng_tcp_handle_listen` that does not happen: `pkt_process` has
  learned the address from the frame of the SYN, and no entry ever leaves the
  ARP table.
-/

import LinuxLearning.Ustack.Connection
import LinuxLearning.Ustack.UdpSockets
import LinuxLearning.Ustack.Teardown

namespace LinuxLearning.Ustack

open Lib

/-! ## The ARP table -/

namespace ArpTable

variable {t : ArpTable} {ip ip' : BitVec 32} {mac : List Byte}

/-- The table has a hardware address for `ip`. -/
def Knows (t : ArpTable) (ip : BitVec 32) : Prop := t.ngGetDstMacaddr ip ≠ none

instance (t : ArpTable) (ip : BitVec 32) : Decidable (t.Knows ip) :=
  inferInstanceAs (Decidable (_ ≠ _))

/-- The walk is bounded by `count`, which therefore must count the list. -/
def Counted (t : ArpTable) : Prop := t.count = t.entries.length

theorem walk_ne_none_iff {entries : List ArpEntry} :
    walk ip entries.length entries ≠ none ↔ ∃ entry ∈ entries, entry.ip = ip := by
  induction entries with
  | nil => simp [walk]
  | cons entry rest ih =>
      rw [List.length_cons, walk]
      by_cases hip : ip = entry.ip
      · simp [hip]
      · rw [if_neg hip, ih]
        have hne : entry.ip ≠ ip := fun h => hip h.symm
        simp [hne]

theorem knows_iff (hcount : t.Counted) : t.Knows ip ↔ ∃ entry ∈ t.entries, entry.ip = ip := by
  rw [Knows, ngGetDstMacaddr, hcount]
  exact walk_ne_none_iff

/-- `ng_arp_entry_insert` leaves the table alone or links one entry. -/
theorem ngArpEntryInsert_cases (env : Env) (t : ArpTable) (ip : BitVec 32) (mac : List Byte) :
    (t.ngArpEntryInsert env ip mac).1 = t ∧ (t.Knows ip ∨ env.malloc .arpEntry = false) ∨
    (t.ngArpEntryInsert env ip mac).1 =
      { entries := { ip := ip, hwaddr := mac } :: t.entries, count := t.count + 1 } := by
  unfold ngArpEntryInsert Knows
  cases hget : t.ngGetDstMacaddr ip with
  | some hwaddr => exact .inl ⟨rfl, .inl (Option.some_ne_none _)⟩
  | none =>
      cases hmalloc : env.malloc .arpEntry with
      | false => exact .inl ⟨rfl, .inr rfl⟩
      | true => exact .inr rfl

theorem counted_insert {env : Env} (hcount : t.Counted) :
    (t.ngArpEntryInsert env ip mac).1.Counted := by
  rcases ngArpEntryInsert_cases env t ip mac with ⟨h, -⟩ | h
  · rwa [h]
  · rw [h, Counted, List.length_cons, hcount]

/-- An insertion forgets nothing. -/
theorem Knows.insert {env : Env} (h : t.Knows ip') (hcount : t.Counted) :
    (t.ngArpEntryInsert env ip mac).1.Knows ip' := by
  obtain ⟨entry, hmem, hip⟩ := (knows_iff hcount).mp h
  rw [knows_iff (counted_insert hcount)]
  rcases ngArpEntryInsert_cases env t ip mac with ⟨h, -⟩ | h
  · rw [h]
    exact ⟨entry, hmem, hip⟩
  · rw [h]
    exact ⟨entry, List.mem_cons_of_mem _ hmem, hip⟩

/-- Unless its allocation fails, an insertion makes the address known. -/
theorem knows_insert {env : Env} (hcount : t.Counted) (hmalloc : env.malloc .arpEntry = true) :
    (t.ngArpEntryInsert env ip mac).1.Knows ip := by
  have hcounted : (t.ngArpEntryInsert env ip mac).1.Counted := counted_insert hcount
  rcases ngArpEntryInsert_cases env t ip mac with ⟨h, hknows | hfail⟩ | h
  · rwa [h]
  · rw [hfail] at hmalloc
    cases hmalloc
  · rw [knows_iff hcounted, h]
    exact ⟨_, List.mem_cons_self .., rfl⟩

end ArpTable

/-! ## What a step learns -/

variable {env : Env} {s s' : State} {e : Event} {m : Mbuf} {o : Out} {a : Addr}
  {t : NgTcpStream} {ops : List StreamOp}

/-- The ARP table after `e`. -/
def State.learned (s : State) : Event → ArpTable
  | .packet env m =>
      if m.IsIpv4 then
        (s.arpt.ngArpEntryInsert env (Ipv4Hdr.srcAddr m.iphdr) (EtherHdr.sAddr m.data)).1
      else s.arpt
  | _ => s.arpt

theorem arpt_of_packet (h : pktProcess env s m = .ok (s', o)) :
    s'.arpt = s.learned (.packet env m) := by
  have hlearned (hip : m.IsIpv4) : s.learned (.packet env m) = (s.learnFrom env m).arpt := by
    rw [State.learned, if_pos hip]
    rfl
  rcases pktProcess_cases h with ⟨hudp, h⟩ | ⟨htcp, h⟩ | ⟨-, -, -, rfl⟩
  · rw [hlearned hudp.1]
    rcases udpProcess_cases h with ⟨rfl, -⟩ | ⟨a, host, r, -, -, -, -, -, -, rfl⟩
    · rfl
    · rfl
  · rw [hlearned htcp.1]
    obtain ⟨tcbs, live, rfl, -⟩ := ngTcpProcess_frame h
    rfl
  · by_cases hip : m.IsIpv4
    · rw [hlearned hip, if_pos hip]
    · rw [State.learned, if_neg hip, if_neg hip]

/-- A step reports on a control block only when the packet is one of IPv4. -/
theorem isIpv4_of_ops (h : pktProcess env s m = .ok (s', o)) (hops : o.opsOf a ≠ []) :
    m.IsIpv4 := by
  rcases pktProcess_cases h with ⟨hudp, -⟩ | ⟨htcp, -⟩ | ⟨-, -, rfl, -⟩
  · exact hudp.1
  · exact htcp.1
  · exact absurd rfl hops

/-- Only packets teach the ARP table anything. -/
theorem arpt_of_step (h : step s e = .ok (s', o)) : s'.arpt = s.learned e := by
  cases e with
  | packet env m => exact arpt_of_packet h
  | udpOut | tcpOut | nbind | nlisten | nsend | nrecv | nrecvfrom | nsendto =>
      obtain ⟨lhost, tcbs, rfl⟩ := step_of_transfer rfl h
      rfl
  | nsocket | naccept | nclose =>
      simp only [step, Ustack.nsocket, Ustack.naccept, Ustack.nclose] at h
      repeat' split at h
      all_goals simp only [Except.ok.injEq, Prod.mk.injEq, reduceCtorEq] at h
      all_goals obtain ⟨rfl, -⟩ := h
      all_goals rfl

/-! ## Which steps send -/

theorem frames_of_ngTcpProcess (h : ngTcpProcess env s m = .ok (s', o)) : o.frames = [] := by
  simp only [ngTcpProcess] at h
  split at h
  · split at h
    · obtain ⟨-, rfl⟩ := Prod.mk.inj (Except.ok.inj h)
      rfl
    · obtain ⟨⟨t, ops⟩, -, hret⟩ := bind_eq_ok_iff.mp h
      obtain ⟨-, rfl⟩ := Prod.mk.inj (Except.ok.inj hret)
      rfl
  · obtain ⟨-, rfl⟩ := Prod.mk.inj (Except.ok.inj h)
    rfl

theorem frames_of_packet (h : pktProcess env s m = .ok (s', o)) : o.frames = [] := by
  rcases pktProcess_cases h with ⟨-, h⟩ | ⟨-, h⟩ | ⟨-, -, rfl, -⟩
  · rcases udpProcess_cases h with ⟨-, ret, -, rfl⟩ | ⟨-, -, -, -, -, -, -, -, rfl, -⟩
    · rfl
    · rfl
  · exact frames_of_ngTcpProcess h
  · rfl

/-- Frames are sent by the two output passes only. -/
theorem frames_of_step (h : step s e = .ok (s', o)) :
    (∃ env, e = .udpOut env) ∨ (∃ env, e = .tcpOut env) ∨ o.frames = [] := by
  cases e with
  | udpOut env => exact .inl ⟨env, rfl⟩
  | tcpOut env => exact .inr (.inl ⟨env, rfl⟩)
  | packet env m => exact .inr (.inr (frames_of_packet h))
  | nsocket | nbind | nlisten | naccept | nsend | nrecv | nrecvfrom | nsendto | nclose =>
      refine .inr (.inr ?_)
      simp only [step, Ustack.nsocket, Ustack.nbind, Ustack.nlisten, Ustack.naccept,
        Ustack.nsend, Ustack.nrecv, Ustack.nrecvfrom, Ustack.nsendto, Ustack.nclose] at h
      repeat' split at h
      all_goals simp only [Except.ok.injEq, Prod.mk.injEq, reduceCtorEq] at h
      all_goals obtain ⟨-, rfl⟩ := h
      all_goals rfl

/-- The fragment in a frame of TCP. -/
def Frame.fragment? : Frame → Option NgTcpFragment
  | .tcp _ _ _ _ f => some f
  | .arpRequest _ _ | .udp _ _ _ => none

/-- The fragment that an operation sent. -/
def StreamOp.sent? : StreamOp → Option NgTcpFragment
  | .sent f => some f
  | _ => none

theorem TcbChange.sent {before after : Option NgTcpStream} {f : NgTcpFragment}
    (h : TcbChange s e a ops before after) (hmem : .sent f ∈ ops) : ∃ env, e = .tcpOut env := by
  cases h with
  | idle | bound | listening => cases hmem
  | seen | opened | accepted | sending | closing | closed | synAcked | synUnanswered | handshake
  | destroyed => simp at hmem
  | reading he hinfo hread => cases nrecvStream_ok hread <;> simp [coreOps] at hmem
  | data he hf hst hest =>
      rcases List.mem_cons.mp hmem with h | h
      · cases h
      · rcases (ngTcpHandleEstablished_ok hest).mem_ops h with ⟨_, _, _, _, -, -, h⟩ | ⟨_, _, h⟩ <;>
          cases h
  | @output env t he => exact ⟨env, he⟩

/-- In one turn of `ng_tcp_out`. -/
theorem fragments_tcpOutStream (arpt : ArpTable) (t : NgTcpStream) :
    (tcpOutStream arpt t).2.2.filterMap Frame.fragment? =
      (tcpOutStream arpt t).2.1.filterMap StreamOp.sent? := by
  unfold tcpOutStream
  repeat' split
  all_goals rfl

/-- What a step reports as sent is what its frames carry, in the same order. -/
theorem fragments_of_step (h : step s e = .ok (s', o)) :
    o.frames.filterMap Frame.fragment? = o.ops.filterMap fun p => p.2.sent? := by
  by_cases hout : ∃ env, e = .tcpOut env
  · obtain ⟨env, rfl⟩ := hout
    simp only [step, ngTcpOut] at h
    split at h
    · cases h
    · obtain ⟨-, rfl⟩ := Prod.mk.inj (Except.ok.inj h)
      simp only [List.filterMap_flatMap, fragments_tcpOutStream, List.filterMap_map,
        Function.comp_def]
  · have hsent : o.ops.filterMap (fun p => p.2.sent?) = [] := by
      rw [List.filterMap_eq_nil_iff]
      rintro ⟨b, op⟩ hmem
      cases op with
      | sent f =>
          refine absurd ((tcbChange_of_step h b).sent (f := f) ?_) hout
          exact List.mem_filterMap.mpr ⟨_, hmem, if_pos ⟨rfl, by simp⟩⟩
      | link | unlink | segment | sndPut | sndRequeue | rcvPut | rcvGet | rcvRequeue | accept
      | signal => rfl
    rw [hsent]
    rcases frames_of_step h with ⟨env, rfl⟩ | ⟨env, rfl⟩ | hnil
    · simp only [step, udpOut] at h
      repeat' split at h
      all_goals simp only [Except.ok.injEq, Prod.mk.injEq, reduceCtorEq] at h
      obtain ⟨-, rfl⟩ := h
      rw [List.filterMap_flatMap, List.flatMap_eq_nil_iff]
      intro n _
      unfold udpOutHost
      repeat' split
      all_goals rfl
    · exact absurd ⟨env, rfl⟩ hout
    · rw [hnil]
      rfl

/-! ## The law of a FIFO -/

/-- As long as nothing is put back, one operation keeps what was sent, with
    what is still there behind it, equal to what was queued. -/
theorem fifo_replay {queued sent items items' : List NgTcpFragment} {op : StreamOp}
    (hop : ∀ f stored, op ≠ .sndRequeue f stored) (hfifo : queued = sent ++ items)
    (h : sndReplay items op = some items') :
    queuedReplay queued op = sentReplay sent op ++ items' := by
  subst hfifo
  cases op with
  | link | unlink =>
      obtain rfl := Option.some.inj h
      rfl
  | sndPut f stored =>
      obtain rfl := Option.some.inj h
      exact List.append_assoc ..
  -- the head of the ring goes to the end of what was sent
  | sent f =>
      obtain rfl := eq_cons_of_takeHead h
      simp [queuedReplay, sentReplay]
  | sndRequeue f stored => exact absurd rfl (hop f stored)
  | segment | rcvPut | rcvGet | rcvRequeue | accept | signal =>
      obtain rfl := Option.some.inj h
      rfl

theorem fifo_foldl {queued sent items items' : List NgTcpFragment}
    (hops : ∀ f stored, .sndRequeue f stored ∉ ops) (hfifo : queued = sent ++ items)
    (h : ops.foldlM sndReplay items = some items') :
    ops.foldl queuedReplay queued = ops.foldl sentReplay sent ++ items' := by
  induction ops generalizing queued sent items with
  | nil =>
      obtain rfl := Option.some.inj h
      exact hfifo
  | cons op rest ih =>
      rw [List.foldlM_cons] at h
      obtain ⟨mid, hmid, hrest⟩ := Option.bind_eq_some_iff.mp h
      have hop : ∀ f stored, op ≠ .sndRequeue f stored := by
        rintro f stored rfl
        exact hops f stored (List.mem_cons_self ..)
      have hops' : ∀ f stored, .sndRequeue f stored ∉ rest := fun f stored hmem =>
        hops f stored (List.mem_cons_of_mem _ hmem)
      exact ih hops' (fifo_replay hop hfifo hmid) hrest

/-! ## Connections keep the order -/

/-- The memory for a new ARP entry is always there. -/
def LearnsSenders (_ : State) : Event → Prop
  | .packet env _ => env.malloc .arpEntry = true
  | _ => True

instance (s : State) : (e : Event) → Decidable (LearnsSenders s e)
  | .packet _ _ => inferInstanceAs (Decidable (_ = _))
  | .udpOut _ | .tcpOut _ | .nsocket _ _ | .nbind _ _ _ | .nlisten _ | .naccept _
  | .nsend _ _ _ | .nrecv _ _ | .nrecvfrom _ _ _ | .nsendto _ _ _ _ _ | .nclose _ _ =>
      .isTrue trivial

theorem State.counted_learned (hcount : s.arpt.Counted) (e : Event) :
    (s.learned e).Counted := by
  cases e with
  | packet env m =>
      simp only [State.learned]
      split
      · exact ArpTable.counted_insert hcount
      · exact hcount
  | _ => exact hcount

theorem State.knows_learned {ip : BitVec 32} (hcount : s.arpt.Counted) (h : s.arpt.Knows ip)
    (e : Event) : (s.learned e).Knows ip := by
  cases e with
  | packet env m =>
      simp only [State.learned]
      split
      · exact h.insert hcount
      · exact h
  | _ => exact h

/-- The source of an IPv4 packet is known afterwards. -/
theorem State.knows_sender (hcount : s.arpt.Counted) (hip : m.IsIpv4)
    (hmalloc : env.malloc .arpEntry = true) :
    (s.learned (.packet env m)).Knows m.segment.sip := by
  simp only [State.learned, if_pos hip]
  exact ArpTable.knows_insert hcount hmalloc

/-- The invariant of a block that a SYN made. -/
structure SendsInOrder (arpt : ArpTable) (past : List StreamOp) (cell : Option NgTcpStream) :
    Prop where
  /-- The peer's hardware address is known. -/
  known : ∀ t ∈ cell, arpt.Knows t.sip
  /-- Nothing was put back. -/
  kept : ∀ f stored, .sndRequeue f stored ∉ past
  fifo : queuedFragments past = sentFragments past ++ cellSnd cell

/-- `ng_tcp_out` puts nothing back on a block whose peer it knows. -/
theorem TcbChange.keeps_order {before after : Option NgTcpStream}
    (h : TcbChange s e a ops before after) (hknown : ∀ t ∈ before, s.arpt.Knows t.sip)
    (f : NgTcpFragment) (stored : Bool) : .sndRequeue f stored ∉ ops := by
  intro hmem
  obtain ⟨t, ht, hout⟩ := h.requeue hmem
  obtain ⟨mac, hmac⟩ := Option.ne_none_iff_exists'.mp (hknown t ht)
  unfold tcpOutStream at hout
  rw [hmac] at hout
  split at hout
  · cases hout
  · split at hout
    · cases hout
    · simp at hout

theorem SendsInOrder.after_step {past : List StreamOp} (hinv : SendsInOrder s.arpt past (s.tcb a))
    (hcount : s.arpt.Counted) (hlearns : LearnsSenders s e) (h : step s e = .ok (s', o))
    (hsyn : o.opsOf a ≠ [.link none]) :
    SendsInOrder s'.arpt (past ++ o.opsOf a) (s'.tcb a) := by
  have hchange := tcbChange_of_step h a
  have hkept := hchange.keeps_order hinv.known
  constructor
  · intro t' ht'
    rw [ht'] at hchange
    -- an entry is never removed, and a SYN brings that of its sender
    rw [arpt_of_step h]
    cases hcell : s.tcb a with
    | some t =>
        rw [hcell] at hchange
        rw [hchange.ends_kept.1.1]
        exact State.knows_learned hcount (hinv.known t hcell) e
    | none =>
        rw [hcell] at hchange
        rcases hchange.ends_new with ⟨-, -, hlink, -⟩ |
          ⟨env, m, l, u, rfl, -, -, -, -, hpeer, hops, -⟩
        · exact absurd hlink hsyn
        · have hsip : t'.sip = m.segment.sip := congrArg Peer.sip hpeer
          rw [hsip]
          exact State.knows_sender hcount (isIpv4_of_ops h (List.ne_nil_of_mem hops)) hlearns
  · intro f stored hmem
    rcases List.mem_append.mp hmem with hpast | hops
    · exact hinv.kept f stored hpast
    · exact hkept f stored hops
  · rw [queuedFragments, sentFragments, List.foldl_append, List.foldl_append]
    exact fifo_foldl hkept hinv.fifo hchange.replays.snd

/-- The invariant of every block: in order, if a SYN made it. -/
structure OrderInv (s : State) (past : List StreamOp) (cell : Option NgTcpStream) : Prop where
  counted : s.arpt.Counted
  inOrder : MadeBySyn past → SendsInOrder s.arpt past cell

theorem orderInv_step {past : List StreamOp} (hlearns : LearnsSenders s e)
    (h : step s e = .ok (s', o)) (hfresh : s.tcb a = none → o.opsOf a ≠ [] → past = [])
    (hinv : OrderInv s past (s.tcb a)) : OrderInv s' (past ++ o.opsOf a) (s'.tcb a) := by
  have hchange := tcbChange_of_step h a
  refine ⟨?_, fun hmade => ?_⟩
  · rw [arpt_of_step h]
    exact State.counted_learned hinv.counted e
  · -- a block made by `nsocket` has no SYN in its past
    have hsyn : o.opsOf a ≠ [.link none] := by
      intro hops
      have hnone : s.tcb a = none := hchange.none_of_link (by rw [hops]; exact .head _)
      have hpast : past = [] := hfresh hnone (by rw [hops]; simp)
      obtain ⟨syn, hmem⟩ := hmade
      rw [hpast, hops] at hmem
      simp at hmem
    have hbefore : SendsInOrder s.arpt past (s.tcb a) := by
      cases hcell : s.tcb a with
      | some t =>
          rw [hcell] at hchange hinv
          exact hinv.inOrder (hmade.before hchange)
      | none =>
          by_cases hops : o.opsOf a = []
          · rw [hops, List.append_nil] at hmade
            exact hcell ▸ hinv.inOrder hmade
          · rw [hfresh hcell hops]
            exact ⟨nofun, nofun, rfl⟩
    exact hbefore.after_step hinv.counted hlearns h hsyn

/-- In every run in which ARP entries can be allocated, the peer of every
    linked block made by `ng_tcp_handle_listen` is in the ARP table,
    `ng_tcp_out` never put a fragment of it back, and the fragments whose
    frames were built are, in order, the first of those queued. -/
theorem output_in_order {mac : List Byte} {hist : History}
    (hrun : GuardedRun LearnsSenders (State.init mac) hist s) (ht : s.tcb a = some t)
    (hsyn : MadeBySyn (opsOf hist a)) :
    s.arpt.ngGetDstMacaddr t.sip ≠ none ∧
    (∀ f stored, .sndRequeue f stored ∉ opsOf hist a) ∧
    sentFragments (opsOf hist a) <+: queuedFragments (opsOf hist a) := by
  have hinit : OrderInv (State.init mac) [] none := ⟨rfl, fun ⟨syn, hmem⟩ => nomatch hmem⟩
  have hinv := guardedRun_life_invariant hinit
    (fun s e o s' a past => orderInv_step) hrun a
  have horder := hinv.inOrder hsyn
  exact ⟨horder.known t ht, horder.kept, _, horder.fifo.symm⟩

/-- A connection on which the SYN-ACK and two pieces of data were queued and
    two of the three were sent. -/
theorem output_in_order_connect : ∃ (hist : History) (s : State) (t : NgTcpStream),
    GuardedRun LearnsSenders (State.init []) hist s ∧ s.tcb 1 = some t ∧
    MadeBySyn (opsOf hist 1) ∧ (sentFragments (opsOf hist 1)).length = 2 ∧
    (queuedFragments (opsOf hist 1)).length = 3 ∧
    s.arpt.ngGetDstMacaddr t.sip ≠ none ∧
    (∀ f stored, .sndRequeue f stored ∉ opsOf hist 1) ∧
    sentFragments (opsOf hist 1) <+: queuedFragments (opsOf hist 1) := by
  have hrun : guardedRunsTo LearnsSenders (State.init [])
      (openServer ++ connectPeer ++ [.naccept 3, .nsend .plain 4 [1, 2], .tcpOut .plain,
        .nsend .plain 4 [3], .tcpOut .plain])
      (fun hist s => (s.tcb 1).isSome &&
        decide (.link (some (peerSegment RTE_TCP_SYN_FLAG 500 0 []).segment) ∈ opsOf hist 1) &&
        decide ((sentFragments (opsOf hist 1)).length = 2) &&
        decide ((queuedFragments (opsOf hist 1)).length = 3)) = true := by
    decide +kernel
  obtain ⟨hist, s, hrun, hP⟩ := run_of_guardedRunsTo hrun
  simp only [Bool.and_eq_true, decide_eq_true_eq] at hP
  obtain ⟨⟨⟨hlinked, hsyn⟩, hsent⟩, hqueued⟩ := hP
  obtain ⟨t, ht⟩ := Option.isSome_iff_exists.mp hlinked
  exact ⟨hist, s, t, hrun, ht, ⟨_, hsyn⟩, hsent, hqueued, output_in_order hrun ht ⟨_, hsyn⟩⟩

end LinuxLearning.Ustack
