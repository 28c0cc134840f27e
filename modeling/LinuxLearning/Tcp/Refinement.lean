/-
  LinuxLearning.Tcp.Refinement

  `tcp.c` against `tcp_from_king.c` on the server side of a connection: from
  a table with a listener, through a SYN, the acknowledgement of the SYN-ACK
  and data in order.

  The reference follows the connection.  `tcp.c` never shows one: no step of
  its `ng_tcp_process` links a block.
-/

import LinuxLearning.Tcp.Stack
import LinuxLearning.Ustack.ServerSide

namespace LinuxLearning.Tcp

open Lib Ustack

/-- A packet and what `ng_tcp_process` finds around it. -/
abbrev Packet := Env × Mbuf

/-- `ng_tcp_process` of `tcp_from_king.c`, for the same packets. -/
def kingProcess (s : Ustack.State) (p : Packet) : Except Halt (Ustack.State × Out) :=
  Ustack.ngTcpProcess p.1.toEnv s p.2

/-- `ng_tcp_process` of `tcp.c`. -/
def tcpProcess (s : State) (p : Packet) : Except Halt (State × Int) := ngTcpProcess p.1 s p.2

/-- The connection behind the SYN `syn` and the segments `rest`. -/
def connBehind (syn : Packet) (isn : BitVec 32) (rest : List Packet) : ServerConn :=
  (rest.map Prod.snd).foldl ServerConn.recv (.opened syn.2.segment isn)

/-- What is asked of a stack: after the SYN, and after each of the segments
    `rest`, exactly one block was linked since `table`, and it is that of the
    connection. -/
def Serves {σ ο : Type} (process : σ → Packet → Except Halt (σ × ο)) (tcbs : σ → Table NgTcpStream)
    (table : Table NgTcpStream) (s : σ) (syn : Packet) (rest : List Packet) : Prop :=
  ∃ isn, ∀ past, past <+: rest → ∃ hist s', exec process s (syn :: past) = .ok (hist, s') ∧
    (connBehind syn isn past).Shows table (tcbs s')

/-- A SYN to the port of a listener, then the segments of its sender in
    order: the acknowledgement of the SYN-ACK first, then data. -/
structure Conversation (table : Table NgTcpStream) (syn : Packet) (rest : List Packet) : Prop where
  listener : ∃ l u, table.get? l = some u ∧ u.listensOn syn.2.segment.dport = true
  cksum : tcpCksumOk syn.2 = true
  isSyn : syn.2.segment.syn = true
  follow : (ServerConn.opened syn.2.segment (BitVec.ofNat 32 (syn.1.rand % TCP_MAX_SEQ))).Follow
    (rest.map Prod.snd)

/-- What the reference needs: memory, a peer without a block, and room for
    the data, of which nothing is taken off the ring meanwhile. -/
structure Supplied (s : Ustack.State) (syn : Packet) (rest : List Packet) : Prop where
  succeeds : ∀ p ∈ syn :: rest, p.1.toEnv.Succeeds
  new : s.connection syn.2.segment.peer = none
  names : s.NamesFree syn.2.segment
  room : rest.length ≤ RING_SIZE

/-! ## The reference -/

section Reference
variable {s₀ s : Ustack.State} {c : ServerConn} {a : Addr} {syn : Packet} {rest : List Packet}

theorem follow_of_append {pre post : List Mbuf} (h : c.Follow (pre ++ post)) : c.Follow pre := by
  induction pre generalizing c with
  | nil => trivial
  | cons m pre ih => exact ⟨h.1, ih h.2⟩

/-- Data is followed as long as the receive ring has room. -/
theorem servedAt_of_data (h : ServedAt s₀ c a s) (hst : c.status = .established)
    (hlisten : ∃ l u, s₀.tcb l = some u ∧ u.listensOn c.peer.dport = true)
    (hfollow : c.Follow (rest.map Prod.snd)) (henv : ∀ p ∈ rest, p.1.toEnv.Succeeds)
    (hroom : c.received.length + rest.length ≤ RING_SIZE - 1) :
    ∃ hist s', exec kingProcess s rest = .ok (hist, s') ∧
      ServedAt s₀ ((rest.map Prod.snd).foldl ServerConn.recv c) a s' := by
  induction rest generalizing c s with
  | nil => exact ⟨[], s, rfl, h⟩
  | cons p rest ih =>
      obtain ⟨hm, hfollow⟩ := hfollow
      rw [List.length_cons] at hroom
      obtain ⟨s₁, o, hstep, h₁⟩ := h.recv hlisten (.inr hst) hm (henv p (List.mem_cons_self ..))
        (by omega)
      have hrecv := recv_of_established (m := p.2) hst
      have hlen : (c.recv p.2).received.length = c.received.length + 1 := by
        rw [hrecv, List.length_append, List.length_singleton]
      obtain ⟨hist, s', hexec, h'⟩ := ih h₁ (by rw [hrecv]; exact hst)
        (by rw [hrecv]; exact hlisten) hfollow (fun q hq => henv q (List.mem_cons_of_mem _ hq))
        (by omega)
      exact ⟨_, s', exec_cons hstep hexec, h'⟩

/-- The handshake, then data. -/
theorem servedAt_of_follow (h : ServedAt s₀ c a s) (hst : c.status = .synRcvd)
    (hnil : c.received = [])
    (hlisten : ∃ l u, s₀.tcb l = some u ∧ u.listensOn c.peer.dport = true)
    (hfollow : c.Follow (rest.map Prod.snd)) (henv : ∀ p ∈ rest, p.1.toEnv.Succeeds)
    (hroom : rest.length ≤ RING_SIZE) :
    ∃ hist s', exec kingProcess s rest = .ok (hist, s') ∧
      ServedAt s₀ ((rest.map Prod.snd).foldl ServerConn.recv c) a s' := by
  cases rest with
  | nil => exact ⟨[], s, rfl, h⟩
  | cons p rest =>
      obtain ⟨hm, hfollow⟩ := hfollow
      rw [List.length_cons] at hroom
      obtain ⟨s₁, o, hstep, h₁⟩ := h.handshake hlisten hst hm
      have hrecv : c.recv p.2 = { c with status := .established } := if_pos hst
      have hlen : (c.recv p.2).received.length = 0 := by rw [hrecv, hnil, List.length_nil]
      obtain ⟨hist, s', hexec, h'⟩ := servedAt_of_data h₁ (by rw [hrecv])
        (by rw [hrecv]; exact hlisten) hfollow (fun q hq => henv q (List.mem_cons_of_mem _ hq))
        (by omega)
      exact ⟨_, s', exec_cons hstep hexec, h'⟩

/-- `tcp_from_king.c` serves every conversation it is supplied for. -/
theorem king_serves (hconv : Conversation s.tcbSet syn rest) (hsupplied : Supplied s syn rest) :
    Serves kingProcess Ustack.State.tcbSet s.tcbSet s syn rest := by
  refine ⟨BitVec.ofNat 32 (syn.1.rand % TCP_MAX_SEQ), fun past hpast => ?_⟩
  obtain ⟨post, rfl⟩ := hpast
  obtain ⟨s₁, o, hstep, h₁⟩ := servedAt_of_syn hconv.cksum hconv.isSyn hsupplied.new
    hconv.listener (hsupplied.succeeds syn (List.mem_cons_self ..)) hsupplied.names
  have hfollow := hconv.follow
  rw [List.map_append] at hfollow
  have hroom := hsupplied.room
  rw [List.length_append] at hroom
  obtain ⟨hist, s', hexec, h'⟩ := servedAt_of_follow h₁ rfl rfl hconv.listener
    (follow_of_append hfollow)
    (fun p hp => hsupplied.succeeds p (List.mem_cons_of_mem _ (List.mem_append_left _ hp)))
    (Nat.le_trans (Nat.le_add_right ..) hroom)
  exact ⟨_, s', exec_cons hstep hexec, h'.shows⟩

end Reference

/-! ## `tcp.c` -/

section Links
variable {env : Env} {s s' : State} {m : Mbuf} {a b : Addr} {t : NgTcpStream} {r : Int}

/-- The list has no block that it did not have. -/
def LinksNothing (s s' : State) : Prop :=
  ∀ b, s.tcbSet.get? b = none → s'.tcbSet.get? b = none

theorem LinksNothing.of_eq (h : s'.tcbSet = s.tcbSet) : LinksNothing s s' := by
  intro b hb
  rw [h, hb]

theorem linksNothing_setTcb (s : State) (a : Addr) (t : NgTcpStream) :
    LinksNothing s (s.setTcb a t) := by
  intro b hb
  simp [State.setTcb, Table.get?_modify, hb]

/-- The handler of a SYN makes a block and leaves it to itself. -/
theorem linksNothing_of_listen {seg : Segment}
    (h : ngTcpHandleListen env s t seg = .ok s') : LinksNothing s s' := by
  unfold ngTcpHandleListen at h
  split at h
  · split at h
    · obtain rfl := Except.ok.inj h
      exact .of_eq rfl
    · split at h
      · split at h
        · cases h
        · obtain rfl := Except.ok.inj h
          exact .of_eq rfl
      · obtain rfl := Except.ok.inj h
        exact .of_eq rfl
  · obtain rfl := Except.ok.inj h
    exact .of_eq rfl

theorem linksNothing_of_synRcvd {seg : Segment}
    (h : ngTcpHandleSynRcvd s a t seg = .ok s') : LinksNothing s s' := by
  simp only [ngTcpHandleSynRcvd] at h
  split at h
  · split at h
    · cases h
    · obtain rfl := Except.ok.inj h
      exact linksNothing_setTcb _ _ _
  · obtain rfl := Except.ok.inj h
    exact .of_eq rfl

theorem linksNothing_lastAck (env : Env) (s : State) (a : Addr) (t : NgTcpStream) :
    LinksNothing s (ngTcpHandleLastAck env s a t) := by
  unfold ngTcpHandleLastAck
  split
  · intro b hb
    rw [Table.get?_remove]
    split
    · rfl
    · exact hb
  · exact .of_eq rfl

theorem linksNothing_of_dispatch {iphdr tcphdr : Ptr}
    (h : dispatchSegment env s a t iphdr tcphdr = .ok s') : LinksNothing s s' := by
  unfold dispatchSegment at h
  cases hst : t.status with
  | listen =>
      rw [hst] at h
      exact linksNothing_of_listen h
  | synRcvd =>
      rw [hst] at h
      exact linksNothing_of_synRcvd h
  | established =>
      rw [hst] at h
      obtain ⟨t', -, rfl⟩ := map_eq_ok_iff.mp h
      exact linksNothing_setTcb _ _ _
  | lastAck =>
      rw [hst] at h
      obtain rfl := Except.ok.inj h
      exact linksNothing_lastAck _ _ _ _
  | closed | synSent | finWait1 | finWait2 | closing | timeWait | closeWait =>
      rw [hst] at h
      obtain rfl := Except.ok.inj h
      exact .of_eq rfl

/-- No segment, in whatever state it is received, gets a block linked. -/
theorem linksNothing_of_process (h : ngTcpProcess env s m = .ok (s', r)) : LinksNothing s s' := by
  simp only [ngTcpProcess] at h
  split at h
  · split at h
    · obtain ⟨rfl, -⟩ : s = s' ∧ _ = r := by simpa using h
      exact .of_eq rfl
    · obtain ⟨s₁, hdispatch, heq⟩ := map_eq_ok_iff.mp h
      obtain rfl : s₁ = s' := congrArg Prod.fst heq
      exact linksNothing_of_dispatch hdispatch
  · obtain ⟨rfl, -⟩ : s = s' ∧ _ = r := by simpa using h
    exact .of_eq rfl

/-- No run of `ng_tcp_process` links a block. -/
theorem linksNothing_of_run {hist : List (Packet × Int)} (h : Run (StepsOf tcpProcess) s hist s') :
    LinksNothing s s' := by
  refine h.invariant (P := fun _ u => LinksNothing s u) (.of_eq rfl) ?_
  intro hist u p r u' hu hstep b hb
  exact linksNothing_of_process hstep b (hu b hb)

end Links

/-- `tcp.c` serves nobody: behind the SYN the block of the connection would be
    linked. -/
theorem tcp_serves_none (s : State) (syn : Packet) (rest : List Packet) :
    ¬ Serves tcpProcess State.tcbSet s.tcbSet s syn rest := by
  rintro ⟨isn, hserves⟩
  obtain ⟨hist, s', hexec, a, t, hbefore, hafter, -⟩ := hserves [] List.nil_prefix
  rw [linksNothing_of_run (run_of_exec hexec) a hbefore] at hafter
  cases hafter

/-- `tcp_from_king.c` serves every conversation it is supplied for, `tcp.c`
    serves none. -/
theorem serves_reference_only {table : Table NgTcpStream} {syn : Packet} {rest : List Packet}
    (hconv : Conversation table syn rest) :
    (∀ s : Ustack.State, s.tcbSet = table → Supplied s syn rest →
      Serves kingProcess Ustack.State.tcbSet table s syn rest) ∧
    ∀ s : State, s.tcbSet = table → ¬ Serves tcpProcess State.tcbSet table s syn rest := by
  constructor
  · rintro s rfl hsupplied
    exact king_serves hconv hsupplied
  · rintro s rfl
    exact tcp_serves_none s syn rest

/-! ## A server on port 9999 -/

/-- Every allocation succeeds. -/
def Env.plain : Env :=
  { Ustack.Env.plain with
    echoFragment := true
    echoData := true
    iphdr := 0x1000
    rfragment := .zero
    statusIsAck := false }

/-- The reference with a server that listens on port 9999 of 10.0.0.1. -/
def kingServer : Ustack.State := tcpServerSetup .plain (State.init []) 0x0100000A (htons 9999)

/-- `tcp.c` with the same list of blocks. -/
def tcpServer : State where
  tcbSet := kingServer.tcbSet
  unlinked := []
  ringNames := kingServer.ringNames
  smac := kingServer.gSrcMac

def peerSyn : Packet := (.plain, peerSegment RTE_TCP_SYN_FLAG 500 0 [])

/-- The acknowledgement of the SYN-ACK, and two bytes of data. -/
def peerRest : List Packet :=
  [(.plain, peerSegment RTE_TCP_ACK_FLAG 501 1001 []),
    (.plain, peerSegment (RTE_TCP_ACK_FLAG ||| RTE_TCP_PSH_FLAG) 501 1001 [7, 8])]

theorem conversation_peer : Conversation kingServer.tcbSet peerSyn peerRest where
  listener := ⟨0, _, rfl, by decide +kernel⟩
  cksum := by decide +kernel
  isSyn := by decide +kernel
  follow := by
    refine ⟨⟨?_, ?_, ?_, ?_, ?_, ?_, ?_⟩, ⟨?_, ?_, ?_, ?_, ?_, ?_, ?_⟩, trivial⟩
    all_goals decide +kernel

theorem supplied_peer : Supplied kingServer peerSyn peerRest where
  succeeds p hp site := by
    rcases List.mem_cons.mp hp with rfl | hp
    · rfl
    · rcases List.mem_cons.mp hp with rfl | hp
      · rfl
      · obtain rfl := List.mem_singleton.mp hp
        rfl
  new := by decide +kernel
  names := by decide +kernel
  room := by decide

/-- The reference serves the peer, `tcp.c` does not. -/
theorem serves_reference_only_peer :
    Serves kingProcess Ustack.State.tcbSet kingServer.tcbSet kingServer peerSyn peerRest ∧
      ¬ Serves tcpProcess State.tcbSet kingServer.tcbSet tcpServer peerSyn peerRest :=
  ⟨(serves_reference_only conversation_peer).1 kingServer rfl supplied_peer,
    (serves_reference_only conversation_peer).2 tcpServer rfl⟩

/-- Behind the SYN `tcp.c` has the list it had; the block that it made lies
    elsewhere, with its ends exchanged. -/
theorem syn_block_unlinked : Conversation kingServer.tcbSet peerSyn peerRest ∧
    Serves kingProcess Ustack.State.tcbSet kingServer.tcbSet kingServer peerSyn peerRest ∧
    (∃ hist s', exec tcpProcess tcpServer [peerSyn] = .ok (hist, s') ∧
      s'.tcbSet.addrs = kingServer.tcbSet.addrs ∧
      s'.unlinked.map NgTcpStream.peer =
        [{ sip := 0x0100000A, dip := 0x0200000A, sport := htons 9999, dport := htons 40000 }]) ∧
    ¬ Serves tcpProcess State.tcbSet kingServer.tcbSet tcpServer peerSyn peerRest := by
  refine ⟨conversation_peer, king_serves conversation_peer supplied_peer, ?_,
    tcp_serves_none tcpServer peerSyn peerRest⟩
  have hexec : execsTo tcpProcess tcpServer [peerSyn] (fun _ s' =>
      s'.tcbSet.addrs = kingServer.tcbSet.addrs ∧
      s'.unlinked.map NgTcpStream.peer =
        [{ sip := 0x0100000A, dip := 0x0200000A, sport := htons 9999,
           dport := htons 40000 }]) = true := by decide +kernel
  obtain ⟨hist, s', hexec, hP⟩ := exec_of_execsTo hexec
  exact ⟨hist, s', hexec, of_decide_eq_true hP⟩

end LinuxLearning.Tcp
