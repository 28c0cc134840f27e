/-
  LinuxLearning.Ustack.TcbStep

  What one step of the system can do to one TCP control block.

  `TcbChange s e a ops before after` lists the cases, each with its guard:
  event `e`, taken in state `s`, reports the operations `ops` on the block at
  `a` and turns it from `before` into `after` (`none` when it is not linked).
  `tcbChange_of_step` is the only place where the step function is taken
  apart; every invariant of control blocks is an invariant of `TcbChange`,
  and `systemRun_tcb_invariant` carries it over whole runs.
-/

import LinuxLearning.Ustack.System

namespace LinuxLearning.Ustack

open Lib

/-! ## Small lemmas about states and reports -/

/-- The operations that touch the contents of a block. -/
def coreOps (ops : List StreamOp) : List StreamOp := ops.filter (· ≠ .signal)

@[simp] theorem coreOps_nil : coreOps [] = [] := rfl

theorem coreOps_append (ops₁ ops₂ : List StreamOp) :
    coreOps (ops₁ ++ ops₂) = coreOps ops₁ ++ coreOps ops₂ := List.filter_append ..

@[simp] theorem tcb_setTcb (s : State) (a : Addr) (t : NgTcpStream) (b : Addr) :
    (s.setTcb a t).tcb b = if b = a then (s.tcb b).map fun _ => t else s.tcb b :=
  Table.get?_modify ..

/-- The block that was written. -/
theorem tcb_setTcb_at {s : State} {a : Addr} {t : NgTcpStream} (ht : s.tcb a = some t)
    (t' : NgTcpStream) : (s.setTcb a t').tcb a = some t' := by
  rw [tcb_setTcb, if_pos rfl, ht]
  rfl

@[simp] theorem tcb_setHost (s : State) (a : Addr) (h : Localhost) (b : Addr) :
    (s.setHost a h).tcb b = s.tcb b := rfl

@[simp] theorem opsOf_ofRet (ret : Int) (a : Addr) : (Out.ofRet ret).opsOf a = [] := rfl

theorem opsOf_of_map (o : Out) (a : Addr) (ops : List StreamOp) (h : o.ops = ops.map (a, ·))
    (b : Addr) : o.opsOf b = if b = a then coreOps ops else [] := by
  simp only [Out.opsOf, h, List.filterMap_map]
  clear h
  induction ops with
  | nil => simp
  | cons op rest ih =>
      rw [List.filterMap_cons, ih]
      by_cases hb : b = a
      · subst hb
        by_cases hop : op = .signal <;> simp [coreOps, hop]
      · have hab : a ≠ b := fun h => hb h.symm
        simp [hb, hab]

theorem opsOf_of_cons_map (o : Out) (a c : Addr) (op : StreamOp) (ops : List StreamOp)
    (h : o.ops = (a, op) :: ops.map (c, ·)) (hop : op ≠ .signal) (b : Addr) :
    o.opsOf b = (if b = a then [op] else []) ++ if b = c then coreOps ops else [] := by
  rw [← opsOf_of_map { o with ops := ops.map (c, ·) } c ops rfl b]
  simp only [Out.opsOf, h, List.filterMap_cons]
  by_cases hb : b = a
  · simp [hb, hop]
  · have hab : a ≠ b := fun h => hb h.symm
    simp [hb, hab]

theorem opsOf_flatMap_nodes (tcbs : Table NgTcpStream) (f : NgTcpStream → List StreamOp)
    (a : Addr) :
    (tcbs.nodes.flatMap fun n => (f n.2).map (n.1, ·)).filterMap
        (fun p => if p.1 = a ∧ p.2 ≠ .signal then some p.2 else none) =
      match tcbs.get? a with
      | some t => coreOps (f t)
      | none => [] := by
  have hone : ∀ n : Addr × NgTcpStream,
      ((f n.2).map (n.1, ·)).filterMap
        (fun p => if p.1 = a ∧ p.2 ≠ .signal then some p.2 else none) =
      if a = n.1 then coreOps (f n.2) else [] := fun n =>
    opsOf_of_map { Out.ofRet 0 with ops := (f n.2).map (n.1, ·) } n.1 (f n.2) rfl a
  rw [List.filterMap_flatMap]
  simp only [hone]
  have hmem : ∀ t, tcbs.get? a = some t ↔ (a, t) ∈ tcbs.nodes := fun _ =>
    Table.mem_nodes_iff.symm
  cases hget : tcbs.get? a with
  | none =>
      rw [List.flatMap_eq_nil_iff]
      intro n hn
      have hne : a ≠ n.1 := by
        rintro rfl
        rw [Table.mem_nodes_iff.mp hn] at hget
        cases hget
      simp [hne]
  | some t =>
      -- the address occurs once: nothing comes from before or behind its node
      obtain ⟨pre, post, hsplit⟩ := List.append_of_mem ((hmem t).mp hget)
      have hnodup := tcbs.nodup
      rw [hsplit, List.map_append, List.map_cons, List.nodup_append] at hnodup
      obtain ⟨-, hpost, hdisj⟩ := hnodup
      rw [List.nodup_cons] at hpost
      have hpre_nil : (pre.flatMap fun n => if a = n.1 then coreOps (f n.2) else []) = [] := by
        rw [List.flatMap_eq_nil_iff]
        intro n hn
        have hne : a ≠ n.1 := fun h =>
          hdisj n.1 (List.mem_map_of_mem hn) a (List.mem_cons_self ..) h.symm
        simp [hne]
      have hpost_nil : (post.flatMap fun n => if a = n.1 then coreOps (f n.2) else []) = [] := by
        rw [List.flatMap_eq_nil_iff]
        intro n hn
        have hmemfst : n.1 ∈ post.map Prod.fst := List.mem_map_of_mem hn
        have hne : a ≠ n.1 := fun h => hpost.1 (h ▸ hmemfst)
        simp [hne]
      rw [hsplit, List.flatMap_append, List.flatMap_cons, hpre_nil, hpost_nil]
      simp

/-! ## What the lookups return -/

/-- The block `ng_tcp_process` finds for the segment in `m`, if its checksum
    is right. -/
def State.found (s : State) (m : Mbuf) : Option (Addr × NgTcpStream) :=
  if tcpCksumOk m then
    ngTcpStreamSearch s.tcbSet m.segment.sip m.segment.dip m.segment.sport m.segment.dport
  else none

/-- `ng_tcp_process` finds the block `t` at `a` for the segment in `m`. -/
def State.Finds (s : State) (m : Mbuf) (a : Addr) (t : NgTcpStream) : Prop :=
  s.found m = some (a, t)

theorem State.finds_iff {s : State} {m : Mbuf} {a : Addr} {t : NgTcpStream} :
    s.Finds m a t ↔ tcpCksumOk m = true ∧
      ngTcpStreamSearch s.tcbSet m.segment.sip m.segment.dip m.segment.sport m.segment.dport =
        some (a, t) := by
  unfold State.Finds State.found
  by_cases h : tcpCksumOk m = true <;> simp [h]

theorem get?_of_search {tcbs : Table NgTcpStream} {sip dip : BitVec 32}
    {sport dport : BitVec 16} {a : Addr} {t : NgTcpStream}
    (h : ngTcpStreamSearch tcbs sip dip sport dport = some (a, t)) :
    tcbs.get? a = some t := by
  unfold ngTcpStreamSearch at h
  cases hkey : tcbs.find? (·.hasKey sip dip sport dport) with
  | none => exact Table.get?_of_find? (by simpa [hkey] using h)
  | some found =>
      obtain rfl : found = (a, t) := by simpa [hkey] using h
      exact Table.get?_of_find? hkey

/-- What the search returns has the key, unless it is in LISTEN. -/
theorem hasKey_of_search {tcbs : Table NgTcpStream} {sip dip : BitVec 32}
    {sport dport : BitVec 16} {a : Addr} {t : NgTcpStream}
    (h : ngTcpStreamSearch tcbs sip dip sport dport = some (a, t)) (hst : t.status ≠ .listen) :
    t.sip = sip ∧ t.dip = dip ∧ t.sport = sport ∧ t.dport = dport := by
  unfold ngTcpStreamSearch at h
  cases hkey : tcbs.find? (·.hasKey sip dip sport dport) with
  | none =>
      have hl := Table.prop_of_find? (by simpa [hkey] using h)
      simp [NgTcpStream.listensOn, hst] at hl
  | some found =>
      obtain rfl : found = (a, t) := by simpa [hkey] using h
      simpa [NgTcpStream.hasKey, and_assoc] using Table.prop_of_find? hkey

theorem State.Finds.tcb_eq {s : State} {m : Mbuf} {a : Addr} {t : NgTcpStream}
    (h : s.Finds m a t) : s.tcb a = some t := get?_of_search (finds_iff.mp h).2

theorem tcb_of_hostinfo {s : State} {fd : Int} {a : Addr} {t : NgTcpStream}
    (h : getHostinfoFromfd s fd = some (.stream a t)) : s.tcb a = some t ∧ t.fd = fd := by
  unfold getHostinfoFromfd at h
  cases hhost : s.lhost.find? (fun host => fd == host.fd) with
  | some n => simp [hhost] at h
  | none =>
      cases htcb : s.tcbSet.find? (fun stream => fd == stream.fd) with
      | none => simp [hhost, htcb] at h
      | some n =>
          obtain ⟨b, u⟩ := n
          obtain ⟨rfl, rfl⟩ : b = a ∧ u = t := by simpa [hhost, htcb] using h
          have hfd := Table.prop_of_find? htcb
          exact ⟨Table.get?_of_find? htcb, (beq_iff_eq.mp hfd).symm⟩

theorem tcb_of_accept {s : State} {dport : BitVec 16} {a : Addr} {t : NgTcpStream}
    (h : getAcceptTcb s dport = some (a, t)) :
    s.tcb a = some t ∧ t.dport = dport ∧ t.fd = -1 := by
  have hprop := Table.prop_of_find? h
  rw [Bool.and_eq_true, beq_iff_eq, beq_iff_eq] at hprop
  exact ⟨Table.get?_of_find? h, hprop.1.symm, hprop.2⟩

/-! ## The cases of a step -/

/-- What the step on event `e` in state `s` can do to the block at `a`. -/
inductive TcbChange (s : State) (e : Event) (a : Addr) :
    List StreamOp → Option NgTcpStream → Option NgTcpStream → Prop where
  /-- Nothing. -/
  | idle (cell : Option NgTcpStream) : TcbChange s e a [] cell cell
  /-- A segment was found to be for the block, and its handler left it
      alone. -/
  | seen {env : Env} {m : Mbuf} {t : NgTcpStream} :
      e = .packet env m → s.Finds m a t → t.status ≠ .established →
      ¬ (t.status = .synRcvd ∧ m.segment.ack = true) →
      ¬ (t.status = .lastAck ∧ m.segment.ack = true) →
      TcbChange s e a [.segment t.status m.segment] (some t) (some t)
  /-- `nsocket` opened the block. -/
  | opened {env : Env} {sndbuf rcvbuf : RteRing NgTcpFragment} :
      e = .nsocket env SOCK_STREAM → a = s.tcbSet.next → sndbuf.items = [] →
      rcvbuf.items = [] →
      TcbChange s e a [.link none] none
        (some { fd := (getFdFrombitmap s.fdTable).2, dip := 0,
                localmac := List.replicate etherAddrLen 0, dport := 0, sport := 0, sip := 0,
                sndNxt := 0, rcvNxt := 0, status := .closed,
                sndbuf := some sndbuf, rcvbuf := some rcvbuf })
  | bound {fd : Int} {ip : BitVec 32} {port : BitVec 16} {t : NgTcpStream} :
      e = .nbind fd ip port → getHostinfoFromfd s fd = some (.stream a t) →
      TcbChange s e a [] (some t)
        (some { t with dport := port, dip := ip, localmac := s.gSrcMac, status := .closed })
  | listening {fd : Int} {t : NgTcpStream} :
      e = .nlisten fd → getHostinfoFromfd s fd = some (.stream a t) →
      TcbChange s e a [] (some t) (some { t with status := .listen })
  | accepted {fd : Int} {l : Addr} {t listener : NgTcpStream} :
      e = .naccept fd → getHostinfoFromfd s fd = some (.stream l listener) →
      getAcceptTcb s listener.dport = some (a, t) →
      TcbChange s e a [.accept (getFdFrombitmap s.fdTable).2] (some t)
        (some { t with fd := (getFdFrombitmap s.fdTable).2 })
  | sending {env : Env} {fd : Int} {buf : List Byte} {t t' : NgTcpStream} {stored : Bool} :
      e = .nsend env fd buf → getHostinfoFromfd s fd = some (.stream a t) →
      t.enqueueSnd (sendFragment t buf) = .ok (t', stored) →
      TcbChange s e a [.sndPut (sendFragment t buf) stored] (some t) (some t')
  | reading {fd : Int} {len : Nat} {t t' : NgTcpStream} {ops : List StreamOp}
      {buf : List Byte} {ret : Int} :
      e = .nrecv fd len → getHostinfoFromfd s fd = some (.stream a t) →
      nrecvStream t len = .ok (t', ops, buf, ret) →
      TcbChange s e a (coreOps ops) (some t) (some t')
  /-- `nclose` queued a FIN. -/
  | closing {env : Env} {fd : Int} {t t' : NgTcpStream} {stored : Bool} :
      e = .nclose env fd → getHostinfoFromfd s fd = some (.stream a t) → t.status ≠ .listen →
      t.enqueueSnd (finFragment env t) = .ok (t', stored) → env.malloc .closeFragment = true →
      TcbChange s e a [.sndPut (finFragment env t) stored] (some t)
        (some { t' with status := .lastAck })
  /-- `nclose` removed a listener. -/
  | closed {env : Env} {fd : Int} {t : NgTcpStream} :
      e = .nclose env fd → getHostinfoFromfd s fd = some (.stream a t) → t.status = .listen →
      TcbChange s e a [.unlink] (some t) none
  /-- A SYN created the block and its SYN-ACK was queued. -/
  | synAcked {env : Env} {m : Mbuf} {l : Addr} {t syn : NgTcpStream}
      {live : List RingName} {r : RteRing NgTcpFragment} :
      e = .packet env m → s.Finds m l t → t.status = .listen → m.segment.syn = true →
      a = s.tcbSet.next →
      ngTcpStreamCreate env s m.segment.sip m.segment.dip m.segment.sport m.segment.dport =
        some (syn, live) →
      env.malloc .synFragment = true → syn.sndbuf = some r →
      TcbChange s e a
        [.link (some m.segment),
         .sndPut (synAckFragment syn m.segment) (r.mpEnqueue (synAckFragment syn m.segment)).2]
        none
        (some { syn with rcvNxt := m.segment.sentSeq + 1
                         sndbuf := some (r.mpEnqueue (synAckFragment syn m.segment)).1
                         status := .synRcvd })
  /-- A SYN created the block, and no SYN-ACK could be allocated. -/
  | synUnanswered {env : Env} {m : Mbuf} {l : Addr} {t syn : NgTcpStream}
      {live : List RingName} :
      e = .packet env m → s.Finds m l t → t.status = .listen → m.segment.syn = true →
      a = s.tcbSet.next →
      ngTcpStreamCreate env s m.segment.sip m.segment.dip m.segment.sport m.segment.dport =
        some (syn, live) →
      env.malloc .synFragment = false →
      TcbChange s e a [.link (some m.segment)] none (some syn)
  /-- An ACK completed the handshake. -/
  | handshake {env : Env} {m : Mbuf} {t : NgTcpStream} :
      e = .packet env m → s.Finds m a t → t.status = .synRcvd → m.segment.ack = true →
      TcbChange s e a [.segment .synRcvd m.segment] (some t)
        (some { t with status := .established })
  | data {env : Env} {m : Mbuf} {t t' : NgTcpStream} {ops : List StreamOp} :
      e = .packet env m → s.Finds m a t → t.status = .established →
      ngTcpHandleEstablished env t (TcpHdr.setCksum m.l4hdr 0) (tcplenOf m.iphdr) =
        .ok (t', ops) →
      TcbChange s e a (.segment .established m.segment :: coreOps ops) (some t) (some t')
  /-- An ACK ended a connection in LAST_ACK. -/
  | destroyed {env : Env} {m : Mbuf} {t : NgTcpStream} :
      e = .packet env m → s.Finds m a t → t.status = .lastAck → m.segment.ack = true →
      TcbChange s e a [.segment .lastAck m.segment, .unlink] (some t) none
  | output {env : Env} {t : NgTcpStream} :
      e = .tcpOut env →
      TcbChange s e a (coreOps (tcpOutStream s.arpt t).2.1) (some t)
        (some (tcpOutStream s.arpt t).1)

/-! ## Every step is one of the cases -/

variable {env : Env} {s s' : State} {e : Event} {m : Mbuf} {o : Out}

/-- A block that the step neither touches nor reports on. -/
theorem TcbChange.of_untouched {a : Addr} (hops : o.opsOf a = []) (htcb : s'.tcb a = s.tcb a) :
    TcbChange s e a (o.opsOf a) (s.tcb a) (s'.tcb a) := by
  rw [hops, htcb]
  exact .idle _

/-- A step that writes one block and reports on that block only. -/
theorem tcbChange_of_setTcb {a : Addr} {t t' : NgTcpStream} {ops : List StreamOp}
    (ht : s.tcb a = some t) (hs : ∀ b, s'.tcb b = (s.setTcb a t').tcb b)
    (ho : ∀ b, o.opsOf b = if b = a then ops else [])
    (hchange : TcbChange s e a ops (some t) (some t')) (b : Addr) :
    TcbChange s e b (o.opsOf b) (s.tcb b) (s'.tcb b) := by
  rw [hs b, tcb_setTcb, ho b]
  by_cases hb : b = a
  · subst hb
    rw [if_pos rfl, if_pos rfl, ht]
    exact hchange
  · rw [if_neg hb, if_neg hb]
    exact .idle _

/-- A step that unlinks one block and reports on that block only. -/
theorem tcbChange_of_remove {a : Addr} {t : NgTcpStream} {ops : List StreamOp}
    (ht : s.tcb a = some t) (hs : s'.tcbSet = s.tcbSet.remove a)
    (ho : ∀ b, o.opsOf b = if b = a then ops else [])
    (hchange : TcbChange s e a ops (some t) none) (b : Addr) :
    TcbChange s e b (o.opsOf b) (s.tcb b) (s'.tcb b) := by
  have hs' : s'.tcb b = if b = a then none else s.tcb b := by
    rw [State.tcb, hs, Table.get?_remove]
    rfl
  rw [hs', ho b]
  by_cases hb : b = a
  · subst hb
    rw [if_pos rfl, if_pos rfl, ht]
    exact hchange
  · rw [if_neg hb, if_neg hb]
    exact .idle _

/-- A step that links a new block and reports on it and on one other. -/
theorem tcbChange_of_add {a : Addr} {t u : NgTcpStream} {op : StreamOp} {ops : List StreamOp}
    (ht : s.tcb a = some t) (hs : ∀ b, s'.tcb b = if b = s.tcbSet.next then some u else s.tcb b)
    (ho : ∀ b, o.opsOf b = (if b = a then [op] else []) ++ if b = s.tcbSet.next then ops else [])
    (hold : TcbChange s e a [op] (some t) (some t))
    (hnew : TcbChange s e s.tcbSet.next ops none (some u)) (b : Addr) :
    TcbChange s e b (o.opsOf b) (s.tcb b) (s'.tcb b) := by
  have hnext : s.tcb s.tcbSet.next = none := Table.get?_next _
  rw [hs b, ho b]
  by_cases hb : b = s.tcbSet.next
  -- the block found was linked before, so it is not the new one
  · have hba : b ≠ a := by
      rintro rfl
      rw [hb, hnext] at ht
      cases ht
    rw [if_neg hba, if_pos hb, if_pos hb, hb, hnext]
    exact hnew
  · rw [if_neg hb, if_neg hb, List.append_nil]
    by_cases hba : b = a
    · subst hba
      rw [if_pos rfl, ht]
      exact hold
    · rw [if_neg hba]
      exact .idle _

/-- Writing a block's own contents back changes nothing. -/
theorem tcb_setTcb_self {a : Addr} {t : NgTcpStream} (ht : s.tcb a = some t) (b : Addr) :
    (s.setTcb a t).tcb b = s.tcb b := by
  rw [tcb_setTcb]
  by_cases hb : b = a
  · subst hb
    rw [if_pos rfl, ht]
    rfl
  · rw [if_neg hb]

/-- `ng_tcp_process` drops the packet, or hands it to the handler of the
    block it finds. -/
theorem ngTcpProcess_cases (h : ngTcpProcess env s m = .ok (s', o)) :
    (s.found m = none ∧ s' = s ∧ o.ops = []) ∨
    ∃ a t ops, s.Finds m a t ∧
      dispatchSegment env s a t m.iphdr (TcpHdr.setCksum m.l4hdr 0) = .ok (s', ops) ∧
      o.ops = (a, .segment t.status m.segment) :: ops := by
  simp only [ngTcpProcess, srcPort_setCksum, dstPort_setCksum] at h
  split at h
  · rename_i hcksum
    split at h
    · rename_i hnone
      obtain ⟨rfl, rfl⟩ : s = s' ∧ Out.ofRet (-2) = o := by simpa using h
      exact .inl ⟨by rw [State.found, if_pos hcksum]; exact hnone, rfl, rfl⟩
    · rename_i a t hfound
      obtain ⟨⟨s₁, ops⟩, hd, hret⟩ := bind_eq_ok_iff.mp h
      obtain ⟨rfl, rfl⟩ : s₁ = s' ∧
          { Out.ofRet 0 with ops := (a, .segment t.status m.segment) :: ops } = o := by
        simpa [pure, Except.pure] using hret
      exact .inr ⟨a, t, ops, State.finds_iff.mpr ⟨hcksum, hfound⟩, hd, rfl⟩
  · rename_i hcksum
    obtain ⟨rfl, rfl⟩ : s = s' ∧ Out.ofRet (-1) = o := by simpa using h
    exact .inl ⟨by rw [State.found, if_neg hcksum], rfl, rfl⟩

/-! ## One case per handler -/

/-- What `ng_tcp_handle_listen` does with a segment: it ignores it, or links
    a block for it, which it answers if the SYN-ACK can be allocated. -/
inductive ListenCases (env : Env) (s : State) (t : NgTcpStream) (seg : Segment) :
    State → List (Addr × StreamOp) → Prop where
  | ignored : ¬ (seg.syn = true ∧ t.status = .listen) → ListenCases env s t seg s []
  | answered {syn : NgTcpStream} {live : List RingName} {r : RteRing NgTcpFragment} :
      seg.syn = true → t.status = .listen →
      ngTcpStreamCreate env s seg.sip seg.dip seg.sport seg.dport = some (syn, live) →
      env.malloc .synFragment = true → syn.sndbuf = some r →
      ListenCases env s t seg
        (State.setTcb { s with tcbSet := s.tcbSet.add syn, ringNames := live } s.tcbSet.next
          { syn with rcvNxt := seg.sentSeq + 1
                     sndbuf := some (r.mpEnqueue (synAckFragment syn seg)).1
                     status := .synRcvd })
        [(s.tcbSet.next, .link (some seg)),
         (s.tcbSet.next,
           .sndPut (synAckFragment syn seg) (r.mpEnqueue (synAckFragment syn seg)).2)]
  | unanswered {syn : NgTcpStream} {live : List RingName} :
      seg.syn = true → t.status = .listen →
      ngTcpStreamCreate env s seg.sip seg.dip seg.sport seg.dport = some (syn, live) →
      env.malloc .synFragment = false →
      ListenCases env s t seg { s with tcbSet := s.tcbSet.add syn, ringNames := live }
        [(s.tcbSet.next, .link (some seg))]

theorem ngTcpHandleListen_ok {t : NgTcpStream} {seg : Segment} {ops : List (Addr × StreamOp)}
    (h : ngTcpHandleListen env s t seg = .ok (s', ops)) : ListenCases env s t seg s' ops := by
  unfold ngTcpHandleListen at h
  split at h
  · rename_i hsyn
    cases hc : ngTcpStreamCreate env s seg.sip seg.dip seg.sport seg.dport with
    | none => simp [hc] at h
    | some created =>
        obtain ⟨syn, live⟩ := created
        simp only [hc] at h
        split at h
        · rename_i hmalloc
          cases hsnd : syn.sndbuf with
          | none => simp [hsnd] at h
          | some r =>
              simp only [hsnd] at h
              obtain ⟨rfl, rfl⟩ := Prod.mk.inj (Except.ok.inj h)
              exact .answered hsyn.1 hsyn.2 hc hmalloc hsnd
        · rename_i hmalloc
          obtain ⟨rfl, rfl⟩ := Prod.mk.inj (Except.ok.inj h)
          exact .unanswered hsyn.1 hsyn.2 hc (by simpa using hmalloc)
  · rename_i hnot
    obtain ⟨rfl, rfl⟩ := Prod.mk.inj (Except.ok.inj h)
    exact .ignored hnot

/-- The blocks when a new one was linked and written to. -/
theorem tcb_setTcb_add (s : State) (syn u : NgTcpStream) (live : List RingName) (b : Addr) :
    (State.setTcb { s with tcbSet := s.tcbSet.add syn, ringNames := live } s.tcbSet.next u).tcb b =
      if b = s.tcbSet.next then some u else s.tcb b := by
  by_cases hb : b = s.tcbSet.next <;>
    simp [State.tcb, State.setTcb, Table.get?_modify, Table.get?_add, hb]

theorem tcbChange_of_listen {a : Addr} {t : NgTcpStream} {ops : List (Addr × StreamOp)}
    (hf : s.Finds m a t) (hst : t.status = .listen)
    (hd : ngTcpHandleListen env s t m.segment = .ok (s', ops))
    (ho : o.ops = (a, .segment t.status m.segment) :: ops) (b : Addr) :
    TcbChange s (.packet env m) b (o.opsOf b) (s.tcb b) (s'.tcb b) := by
  have hseen : TcbChange s (.packet env m) a [.segment t.status m.segment] (some t) (some t) :=
    .seen rfl hf (by simp [hst]) (by simp [hst]) (by simp [hst])
  cases ngTcpHandleListen_ok hd with
  | ignored =>
      exact tcbChange_of_setTcb hf.tcb_eq (fun b => (tcb_setTcb_self hf.tcb_eq b).symm)
        (opsOf_of_map o a [.segment t.status m.segment] ho) hseen b
  | answered hsyn _ hc hmalloc hsnd =>
      exact tcbChange_of_add hf.tcb_eq (tcb_setTcb_add s _ _ _)
        (opsOf_of_cons_map o a s.tcbSet.next _ [_, _] ho (by simp)) hseen
        (.synAcked rfl hf hst hsyn rfl hc hmalloc hsnd) b
  | @unanswered syn live hsyn _ hc hmalloc =>
      have hadd : ∀ b, State.tcb { s with tcbSet := s.tcbSet.add syn, ringNames := live } b =
          if b = s.tcbSet.next then some syn else s.tcb b :=
        Table.get?_add s.tcbSet syn
      exact tcbChange_of_add hf.tcb_eq hadd
        (opsOf_of_cons_map o a s.tcbSet.next _ [_] ho (by simp)) hseen
        (.synUnanswered rfl hf hst hsyn rfl hc hmalloc) b

theorem tcbChange_of_synRcvd {a : Addr} {t : NgTcpStream} {ops : List (Addr × StreamOp)}
    (hf : s.Finds m a t) (hst : t.status = .synRcvd)
    (hd : ngTcpHandleSynRcvd s a t m.segment = .ok (s', ops))
    (ho : o.ops = (a, .segment t.status m.segment) :: ops) (b : Addr) :
    TcbChange s (.packet env m) b (o.opsOf b) (s.tcb b) (s'.tcb b) := by
  unfold ngTcpHandleSynRcvd at hd
  split at hd
  · rename_i hack
    simp only at hd
    split at hd
    · cases hd
    -- the listener is signalled, which is no operation on its cell
    · rename_i listener _ _
      simp only [Except.ok.injEq, Prod.mk.injEq] at hd
      obtain ⟨rfl, rfl⟩ := hd
      have hops := opsOf_of_cons_map o a listener _ [.signal] ho (by simp)
      refine tcbChange_of_setTcb hf.tcb_eq (fun b => rfl) (fun b => ?_)
        (.handshake rfl hf hst hack.1) b
      rw [hops b, hst]
      simp [coreOps]
  · rename_i hack
    obtain ⟨rfl, rfl⟩ : s = s' ∧ [] = ops := by simpa using hd
    exact tcbChange_of_setTcb hf.tcb_eq (fun b => (tcb_setTcb_self hf.tcb_eq b).symm)
      (opsOf_of_map o a [.segment t.status m.segment] ho)
      (.seen rfl hf (by simp [hst]) (fun h => hack h.symm) (by simp [hst])) b

theorem tcbChange_of_established {a : Addr} {t : NgTcpStream} {ops : List (Addr × StreamOp)}
    (hf : s.Finds m a t) (hst : t.status = .established)
    (hd : dispatchSegment env s a t m.iphdr (TcpHdr.setCksum m.l4hdr 0) = .ok (s', ops))
    (ho : o.ops = (a, .segment t.status m.segment) :: ops) (b : Addr) :
    TcbChange s (.packet env m) b (o.opsOf b) (s.tcb b) (s'.tcb b) := by
  rw [dispatchSegment, hst] at hd
  obtain ⟨⟨t', done⟩, hest, hret⟩ := bind_eq_ok_iff.mp hd
  obtain ⟨rfl, rfl⟩ : s.setTcb a t' = s' ∧ done.map (a, ·) = ops := by
    simpa [pure, Except.pure] using hret
  refine tcbChange_of_setTcb hf.tcb_eq (fun b => rfl)
    (opsOf_of_map o a (.segment t.status m.segment :: done) ho) ?_ b
  rw [hst]
  exact .data rfl hf hst hest

theorem tcbChange_of_lastAck {a : Addr} {t : NgTcpStream} {ops : List (Addr × StreamOp)}
    (hf : s.Finds m a t) (hst : t.status = .lastAck)
    (hd : ngTcpHandleLastAck s a t m.segment = (s', ops))
    (ho : o.ops = (a, .segment t.status m.segment) :: ops) (b : Addr) :
    TcbChange s (.packet env m) b (o.opsOf b) (s.tcb b) (s'.tcb b) := by
  unfold ngTcpHandleLastAck at hd
  split at hd
  · rename_i hack
    rw [Prod.mk.injEq] at hd
    obtain ⟨rfl, rfl⟩ := hd
    refine tcbChange_of_remove hf.tcb_eq rfl
      (opsOf_of_map o a [.segment t.status m.segment, .unlink] ho) ?_ b
    rw [hst]
    exact .destroyed rfl hf hst hack.1
  · rename_i hack
    obtain ⟨rfl, rfl⟩ : s = s' ∧ [] = ops := by simpa using hd
    exact tcbChange_of_setTcb hf.tcb_eq (fun b => (tcb_setTcb_self hf.tcb_eq b).symm)
      (opsOf_of_map o a [.segment t.status m.segment] ho)
      (.seen rfl hf (by simp [hst]) (by simp [hst]) (fun h => hack h.symm)) b

theorem tcbChange_of_process (h : ngTcpProcess env s m = .ok (s', o)) (b : Addr) :
    TcbChange s (.packet env m) b (o.opsOf b) (s.tcb b) (s'.tcb b) := by
  rcases ngTcpProcess_cases h with ⟨-, rfl, hops⟩ | ⟨a, t, ops, hf, hd, ho⟩
  · exact .of_untouched (by simp [Out.opsOf, hops]) rfl
  · -- the states whose handler does nothing
    have hidle (hs : s = s') (hnil : [] = ops) (hest : t.status ≠ .established)
        (hsyn : t.status ≠ .synRcvd) (hlast : t.status ≠ .lastAck) :
        TcbChange s (.packet env m) b (o.opsOf b) (s.tcb b) (s'.tcb b) := by
      subst hs hnil
      exact tcbChange_of_setTcb hf.tcb_eq (fun b => (tcb_setTcb_self hf.tcb_eq b).symm)
        (opsOf_of_map o a [.segment t.status m.segment] ho)
        (.seen rfl hf hest (fun h => hsyn h.1) (fun h => hlast h.1)) b
    have hseg : Segment.ofHdrs m.iphdr (TcpHdr.setCksum m.l4hdr 0) = m.segment :=
      ofHdrs_setCksum ..
    cases hst : t.status with
    | listen =>
        rw [dispatchSegment, hst, hseg] at hd
        exact tcbChange_of_listen hf hst hd ho b
    | synRcvd =>
        rw [dispatchSegment, hst, hseg] at hd
        exact tcbChange_of_synRcvd hf hst hd ho b
    | established => exact tcbChange_of_established hf hst hd ho b
    | lastAck =>
        simp only [dispatchSegment, hst, hseg, Except.ok.injEq] at hd
        exact tcbChange_of_lastAck hf hst hd ho b
    | closed | synSent | finWait1 | finWait2 | closing | timeWait | closeWait =>
        simp only [dispatchSegment, hst, Except.ok.injEq, Prod.mk.injEq] at hd
        exact hidle hd.1 hd.2 (by simp [hst]) (by simp [hst]) (by simp [hst])

/-- What `udp_process` does concerns no control block. -/
theorem udpProcess_tcbs (h : udpProcess env s m = .ok (s', o)) :
    s'.tcbSet = s.tcbSet ∧ o.ops = [] := by
  simp only [udpProcess] at h
  repeat' split at h
  all_goals simp only [Except.ok.injEq, Prod.mk.injEq, reduceCtorEq] at h
  all_goals obtain ⟨rfl, rfl⟩ := h
  all_goals exact ⟨rfl, rfl⟩

/-- The ARP table, which `pkt_process` updates first, matters to no case of
    a packet. -/
theorem TcbChange.of_arpt {arpt : ArpTable} {a : Addr} {ops : List StreamOp}
    {before after : Option NgTcpStream}
    (h : TcbChange { s with arpt := arpt } (.packet env m) a ops before after) :
    TcbChange s (.packet env m) a ops before after := by
  cases h with
  | idle => exact .idle _
  | seen he hf hest hsyn hlast => exact .seen he hf hest hsyn hlast
  | synAcked he hf hst hsyn ha hc hm hsnd => exact .synAcked he hf hst hsyn ha hc hm hsnd
  | synUnanswered he hf hst hsyn ha hc hm => exact .synUnanswered he hf hst hsyn ha hc hm
  | handshake he hf hst hack => exact .handshake he hf hst hack
  | data he hf hst hest => exact .data he hf hst hest
  | destroyed he hf hst hack => exact .destroyed he hf hst hack
  | opened he | bound he | listening he | accepted he | sending he | reading he | closing he
  | closed he | output he => cases he

theorem tcbChange_of_packet (h : pktProcess env s m = .ok (s', o)) (b : Addr) :
    TcbChange s (.packet env m) b (o.opsOf b) (s.tcb b) (s'.tcb b) := by
  have hquiet (htcbs : s'.tcbSet = s.tcbSet) (hops : o.ops = []) :
      TcbChange s (.packet env m) b (o.opsOf b) (s.tcb b) (s'.tcb b) :=
    .of_untouched (by simp [Out.opsOf, hops]) (by simp only [State.tcb, htcbs])
  rcases pktProcess_cases h with ⟨-, h⟩ | ⟨-, h⟩ | ⟨-, -, rfl, rfl⟩
  · obtain ⟨htcbs, hops⟩ := udpProcess_tcbs h
    exact hquiet htcbs hops
  · exact (tcbChange_of_process h b).of_arpt
  · exact hquiet (by split <;> rfl) rfl

/-! ## One case per call -/

theorem tcbChange_of_tcpOut (h : ngTcpOut env s = .ok (s', o)) (b : Addr) :
    TcbChange s (.tcpOut env) b (o.opsOf b) (s.tcb b) (s'.tcb b) := by
  simp only [ngTcpOut] at h
  split at h
  · cases h
  · simp only [Except.ok.injEq, Prod.mk.injEq] at h
    obtain ⟨rfl, rfl⟩ := h
    -- the loop goes over all blocks, and each reports on itself
    rw [Out.opsOf, opsOf_flatMap_nodes s.tcbSet (fun t => (tcpOutStream s.arpt t).2.1)]
    simp only [State.tcb, Table.get?_mapNodes]
    cases s.tcbSet.get? b with
    | none => exact .idle _
    | some t => exact .output rfl

theorem rteRingCreate_items {α : Type} {site : AllocSite} {name : RingName}
    {live live' : List RingName} {r : RteRing α}
    (h : rteRingCreate env site name live = (some r, live')) : r.items = [] := by
  unfold rteRingCreate at h
  split at h
  · cases h
  · obtain ⟨rfl, -⟩ : RteRing.init name = r ∧ name :: live = live' := by simpa using h
    rfl

theorem socketRings_items {α : Type} {rcvName sndName : RingName} {live live' : List RingName}
    {rcvbuf sndbuf : RteRing α}
    (h : socketRings α env rcvName sndName live = (some (rcvbuf, sndbuf), live')) :
    rcvbuf.items = [] ∧ sndbuf.items = [] := by
  unfold socketRings at h
  split at h
  · cases h
  · rename_i hrcv
    split at h
    · cases h
    · rename_i hsnd
      obtain ⟨⟨rfl, rfl⟩, -⟩ := by simpa using h
      exact ⟨rteRingCreate_items hrcv, rteRingCreate_items hsnd⟩

/-- `nsocket` fails, or adds a UDP socket, or adds a control block. -/
theorem nsocket_cases (env : Env) (s : State) (type : Int) :
    ((nsocket env s type).1.lhost = s.lhost ∧ (nsocket env s type).1.tcbSet = s.tcbSet ∧
      (nsocket env s type).2.ops = [] ∧
      (type = SOCK_DGRAM ∨ type = SOCK_STREAM → (nsocket env s type).2.ret = -1)) ∨
    (type = SOCK_DGRAM ∧ (nsocket env s type).1.tcbSet = s.tcbSet ∧
      (nsocket env s type).2 = .ofRet (getFdFrombitmap s.fdTable).2 ∧
      ∃ sndbuf rcvbuf : RteRing Offload, sndbuf.items = [] ∧ rcvbuf.items = [] ∧
        (nsocket env s type).1.lhost = s.lhost.add
          { fd := (getFdFrombitmap s.fdTable).2, localip := 0,
            localmac := List.replicate etherAddrLen 0, localport := 0, sndbuf := some sndbuf,
            rcvbuf := some rcvbuf }) ∨
    (type = SOCK_STREAM ∧ (nsocket env s type).1.lhost = s.lhost ∧
      (nsocket env s type).2 =
        { Out.ofRet (getFdFrombitmap s.fdTable).2 with ops := [(s.tcbSet.next, .link none)] } ∧
      ∃ sndbuf rcvbuf : RteRing NgTcpFragment, sndbuf.items = [] ∧ rcvbuf.items = [] ∧
        (nsocket env s type).1.tcbSet = s.tcbSet.add
          { fd := (getFdFrombitmap s.fdTable).2, dip := 0,
            localmac := List.replicate etherAddrLen 0, dport := 0, sport := 0, sip := 0,
            sndNxt := 0, rcvNxt := 0, status := .closed, sndbuf := some sndbuf,
            rcvbuf := some rcvbuf }) := by
  simp only [nsocket]
  split
  · rename_i htype
    split
    · cases hr : socketRings Offload env "recv buffer".toList "send buffer".toList s.ringNames with
      | mk rings live =>
          cases rings with
          | none => exact .inl ⟨rfl, rfl, rfl, fun _ => rfl⟩
          | some r =>
              obtain ⟨hrcv, hsnd⟩ := socketRings_items hr
              exact .inr (.inl ⟨htype, rfl, rfl, r.2, r.1, hsnd, hrcv, rfl⟩)
    · exact .inl ⟨rfl, rfl, rfl, fun _ => rfl⟩
  · split
    · rename_i htype
      split
      · cases hr : socketRings NgTcpFragment env "tcp recv buffer".toList
            "tcp send buffer".toList s.ringNames with
        | mk rings live =>
            cases rings with
            | none => exact .inl ⟨rfl, rfl, rfl, fun _ => rfl⟩
            | some r =>
                obtain ⟨hrcv, hsnd⟩ := socketRings_items hr
                exact .inr (.inr ⟨htype, rfl, rfl, r.2, r.1, hsnd, hrcv, rfl⟩)
      · exact .inl ⟨rfl, rfl, rfl, fun _ => rfl⟩
    · rename_i hdgram hstream
      exact .inl ⟨rfl, rfl, rfl, fun h => absurd h (not_or.mpr ⟨hdgram, hstream⟩)⟩

theorem tcbChange_of_nsocket {type : Int} (b : Addr) :
    TcbChange s (.nsocket env type) b ((nsocket env s type).2.opsOf b) (s.tcb b)
      ((nsocket env s type).1.tcb b) := by
  rcases nsocket_cases env s type with ⟨-, htcbs, hops, -⟩ | ⟨-, htcbs, hout, -⟩ |
    ⟨htype, -, hout, snd, rcv, hsnd, hrcv, htcbs⟩
  · exact .of_untouched (by simp [Out.opsOf, hops]) (by simp only [State.tcb, htcbs])
  · exact .of_untouched (by rw [hout]; rfl) (by simp only [State.tcb, htcbs])
  · rw [State.tcb, State.tcb, htcbs, Table.get?_add,
      opsOf_of_map _ s.tcbSet.next [.link none] (by rw [hout]; rfl) b]
    by_cases hb : b = s.tcbSet.next
    · subst hb
      rw [if_pos rfl, if_pos rfl, Table.get?_next]
      exact .opened (by rw [htype]) rfl hsnd hrcv
    · rw [if_neg hb, if_neg hb]
      exact .idle _

theorem tcbChange_of_nbind {fd : Int} {ip : BitVec 32} {port : BitVec 16} (b : Addr) :
    TcbChange s (.nbind fd ip port) b ((nbind s fd ip port).2.opsOf b) (s.tcb b)
      ((nbind s fd ip port).1.tcb b) := by
  unfold nbind
  split
  · exact .of_untouched rfl rfl
  · exact .of_untouched rfl rfl
  · rename_i a t hinfo
    exact tcbChange_of_setTcb (tcb_of_hostinfo hinfo).1 (fun _ => rfl) (by simp)
      (.bound rfl hinfo) b

theorem tcbChange_of_nlisten {fd : Int} (b : Addr) :
    TcbChange s (.nlisten fd) b ((nlisten s fd).2.opsOf b) (s.tcb b)
      ((nlisten s fd).1.tcb b) := by
  unfold nlisten
  split
  · exact .of_untouched rfl rfl
  · exact .of_untouched rfl rfl
  · rename_i a t hinfo
    exact tcbChange_of_setTcb (tcb_of_hostinfo hinfo).1 (fun _ => rfl) (by simp)
      (.listening rfl hinfo) b

theorem tcbChange_of_naccept {fd : Int} (h : naccept s fd = .ok (s', o)) (b : Addr) :
    TcbChange s (.naccept fd) b (o.opsOf b) (s.tcb b) (s'.tcb b) := by
  simp only [naccept] at h
  repeat' split at h
  all_goals simp only [Except.ok.injEq, Prod.mk.injEq, reduceCtorEq] at h
  all_goals obtain ⟨rfl, rfl⟩ := h
  · exact .of_untouched rfl rfl
  · exact .of_untouched rfl rfl
  · rename_i l listener hinfo _ a t hacc
    exact tcbChange_of_setTcb (tcb_of_accept hacc).1 (fun _ => rfl)
      (opsOf_of_map _ a [.accept _] rfl) (.accepted rfl hinfo hacc) b

theorem tcbChange_of_nsend {fd : Int} {buf : List Byte} (h : nsend env s fd buf = .ok (s', o))
    (b : Addr) : TcbChange s (.nsend env fd buf) b (o.opsOf b) (s.tcb b) (s'.tcb b) := by
  simp only [nsend] at h
  repeat' split at h
  all_goals simp only [Except.ok.injEq, Prod.mk.injEq, reduceCtorEq] at h
  all_goals obtain ⟨rfl, rfl⟩ := h
  all_goals try exact .of_untouched rfl rfl
  rename_i a t hinfo _ _ _ t' stored hput
  exact tcbChange_of_setTcb (tcb_of_hostinfo hinfo).1 (fun _ => rfl)
    (opsOf_of_map _ a [.sndPut _ stored] rfl) (.sending rfl hinfo hput) b

theorem tcbChange_of_nrecv {fd : Int} {len : Nat} (h : nrecv s fd len = .ok (s', o))
    (b : Addr) : TcbChange s (.nrecv fd len) b (o.opsOf b) (s.tcb b) (s'.tcb b) := by
  simp only [nrecv] at h
  repeat' split at h
  all_goals simp only [Except.ok.injEq, Prod.mk.injEq, reduceCtorEq] at h
  all_goals obtain ⟨rfl, rfl⟩ := h
  all_goals try exact .of_untouched rfl rfl
  rename_i a t hinfo _ t' ops buf ret hrecv
  exact tcbChange_of_setTcb (tcb_of_hostinfo hinfo).1 (fun _ => rfl)
    (opsOf_of_map _ a ops rfl) (.reading rfl hinfo hrecv) b

theorem tcbChange_of_nclose {fd : Int} (h : nclose env s fd = .ok (s', o)) (b : Addr) :
    TcbChange s (.nclose env fd) b (o.opsOf b) (s.tcb b) (s'.tcb b) := by
  simp only [nclose] at h
  repeat' split at h
  all_goals simp only [Except.ok.injEq, Prod.mk.injEq, reduceCtorEq] at h
  all_goals obtain ⟨rfl, rfl⟩ := h
  all_goals try exact .of_untouched rfl rfl
  · rename_i a t hinfo hst hmalloc _ t' stored hput
    exact tcbChange_of_setTcb (tcb_of_hostinfo hinfo).1 (fun _ => rfl)
      (opsOf_of_map _ a [.sndPut _ stored] rfl)
      (.closing rfl hinfo hst hput (by simpa using hmalloc)) b
  · rename_i a t hinfo hst
    exact tcbChange_of_remove (tcb_of_hostinfo hinfo).1 rfl (opsOf_of_map _ a [.unlink] rfl)
      (.closed rfl hinfo (by simpa using hst)) b

/-- The UDP calls concern no control block. -/
theorem udpOut_tcbs (h : udpOut env s = .ok (s', o)) : s'.tcbSet = s.tcbSet ∧ o.ops = [] := by
  simp only [udpOut] at h
  repeat' split at h
  all_goals simp only [Except.ok.injEq, Prod.mk.injEq, reduceCtorEq] at h
  obtain ⟨rfl, rfl⟩ := h
  exact ⟨rfl, rfl⟩

theorem nrecvfrom_tcbs {fd : Int} {len : Nat} (h : nrecvfrom env s fd len = .ok (s', o)) :
    s'.tcbSet = s.tcbSet ∧ o.ops = [] := by
  simp only [nrecvfrom] at h
  repeat' split at h
  all_goals simp only [Except.ok.injEq, Prod.mk.injEq, reduceCtorEq] at h
  all_goals obtain ⟨rfl, rfl⟩ := h
  all_goals exact ⟨rfl, rfl⟩

theorem nsendto_tcbs {fd : Int} {buf : List Byte} {ip : BitVec 32} {port : BitVec 16}
    (h : nsendto env s fd buf ip port = .ok (s', o)) :
    s'.tcbSet = s.tcbSet ∧ o.ops = [] := by
  simp only [nsendto] at h
  repeat' split at h
  all_goals simp only [Except.ok.injEq, Prod.mk.injEq, reduceCtorEq] at h
  all_goals obtain ⟨rfl, rfl⟩ := h
  all_goals exact ⟨rfl, rfl⟩

/-! ## Every step, every run -/

/-- What a step does to a control block is one of the cases of `TcbChange`. -/
theorem tcbChange_of_step (h : step s e = .ok (s', o)) (a : Addr) :
    TcbChange s e a (o.opsOf a) (s.tcb a) (s'.tcb a) := by
  have hquiet (hq : s'.tcbSet = s.tcbSet ∧ o.ops = []) :
      TcbChange s e a (o.opsOf a) (s.tcb a) (s'.tcb a) :=
    .of_untouched (by simp [Out.opsOf, hq.2]) (by simp only [State.tcb, hq.1])
  cases e with
  | packet env m => exact tcbChange_of_packet h a
  | udpOut env => exact hquiet (udpOut_tcbs h)
  | tcpOut env => exact tcbChange_of_tcpOut h a
  | nsocket env type =>
      obtain ⟨rfl, rfl⟩ := Prod.mk.inj (Except.ok.inj h)
      exact tcbChange_of_nsocket a
  | nbind fd ip port =>
      obtain ⟨rfl, rfl⟩ := Prod.mk.inj (Except.ok.inj h)
      exact tcbChange_of_nbind a
  | nlisten fd =>
      obtain ⟨rfl, rfl⟩ := Prod.mk.inj (Except.ok.inj h)
      exact tcbChange_of_nlisten a
  | naccept fd => exact tcbChange_of_naccept h a
  | nsend env fd buf => exact tcbChange_of_nsend h a
  | nrecv fd len => exact tcbChange_of_nrecv h a
  | nrecvfrom env fd len => exact hquiet (nrecvfrom_tcbs h)
  | nsendto env fd buf ip port => exact hquiet (nsendto_tcbs h)
  | nclose env fd => exact tcbChange_of_nclose h a

/-- An invariant of one control block and the operations on it so far, kept
    by every case of `TcbChange` that the steps of the run can be, holds at
    the end of every run. -/
theorem guardedRun_tcb_invariant {C : State → Event → Prop}
    {Inv : List StreamOp → Option NgTcpStream → Prop} {s₀ : State} {hist : History}
    (hinit : ∀ a, Inv [] (s₀.tcb a))
    (hstep : ∀ s e a past ops before after, C s e → Inv past before →
      TcbChange s e a ops before after → Inv (past ++ ops) after)
    (hrun : GuardedRun C s₀ hist s) (a : Addr) : Inv (opsOf hist a) (s.tcb a) := by
  have hkeep : ∀ s e o s', Guarded C (StepsOf step) s e o s' → ∀ a past,
      Inv past (s.tcb a) → Inv (past ++ o.opsOf a) (s'.tcb a) := fun s e _ _ hR a past hinv =>
    hstep s e a past _ _ _ hR.1 hinv (tcbChange_of_step hR.2 a)
  exact hrun.component_invariant hinit hkeep a

/-- The same without a condition on the steps. -/
theorem systemRun_tcb_invariant {Inv : List StreamOp → Option NgTcpStream → Prop} {s₀ : State}
    {hist : History} (hinit : ∀ a, Inv [] (s₀.tcb a))
    (hstep : ∀ s e a past ops before after, Inv past before →
      TcbChange s e a ops before after → Inv (past ++ ops) after)
    (hrun : SystemRun s₀ hist s) (a : Addr) : Inv (opsOf hist a) (s.tcb a) :=
  guardedRun_tcb_invariant hinit (fun s e a past ops _ _ _ => hstep s e a past ops _ _)
    (hrun.mono fun _ _ _ _ h => ⟨trivial, h⟩ : GuardedRun (fun _ _ => True) s₀ hist s) a

end LinuxLearning.Ustack
