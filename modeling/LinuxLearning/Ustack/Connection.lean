/-
  LinuxLearning.Ustack.Connection

  A connection as its peer's segments see it: the block that
  `ng_tcp_stream_search` finds for them.  As long as the application does not
  rename, close or listen on the connection, the search finds the same block
  after every step, whatever happens to the other sockets.
-/

import LinuxLearning.Ustack.Buffers
import LinuxLearning.Ustack.Lifetime

namespace LinuxLearning.Ustack

open Lib

/-! ## The peer of a connection -/

/-- The two ends of a connection, as the peer's segments name them. -/
structure Peer where
  sip : BitVec 32
  dip : BitVec 32
  sport : BitVec 16
  dport : BitVec 16
deriving DecidableEq, Repr

def Segment.peer (seg : Segment) : Peer :=
  { sip := seg.sip, dip := seg.dip, sport := seg.sport, dport := seg.dport }

def NgTcpStream.peer (t : NgTcpStream) : Peer :=
  { sip := t.sip, dip := t.dip, sport := t.sport, dport := t.dport }

/-- The block the search finds for the segments of `k`, listeners aside. -/
def State.connection (s : State) (k : Peer) : Option (Addr × NgTcpStream) :=
  s.tcbSet.find? (·.hasKey k.sip k.dip k.sport k.dport)

variable {env : Env} {s s' : State} {e : Event} {m : Mbuf} {o : Out} {k : Peer} {a : Addr}
  {t : NgTcpStream} {ops : List StreamOp}

theorem hasKey_iff : t.hasKey k.sip k.dip k.sport k.dport = true ↔ t.peer = k := by
  obtain ⟨sip, dip, sport, dport⟩ := k
  simp [NgTcpStream.hasKey, NgTcpStream.peer, and_assoc]

theorem tcb_of_connection (h : s.connection k = some (a, t)) : s.tcb a = some t ∧ t.peer = k := by
  have hkey := Table.prop_of_find? h
  exact ⟨Table.get?_of_find? h, hasKey_iff.mp hkey⟩

/-- A segment of `k` whose checksum is right is for the connection. -/
theorem finds_of_connection (h : s.connection k = some (a, t)) (hcksum : tcpCksumOk m = true)
    (hm : m.segment.peer = k) : s.Finds m a t := by
  subst hm
  have hkey : s.tcbSet.find? (·.hasKey m.segment.sip m.segment.dip m.segment.sport
      m.segment.dport) = some (a, t) := h
  refine State.finds_iff.mpr ⟨hcksum, ?_⟩
  rw [ngTcpStreamSearch, hkey]

/-- No other block is found for a segment of `k`. -/
theorem eq_of_finds {b : Addr} {u : NgTcpStream} (h : s.connection k = some (a, t))
    (hf : s.Finds m b u) (hm : m.segment.peer = k) : b = a ∧ u = t := by
  have hf' := finds_of_connection h (State.finds_iff.mp hf).1 hm
  simpa [State.Finds] using hf.symm.trans hf'

/-- A step links at most one new block, in front of the others, or unlinks at
    most one. -/
theorem relinked_of_step (h : step s e = .ok (s', o)) : s.tcbSet.Relinked s'.tcbSet :=
  (evolved_of_step h).relinked

/-! ## The ends of a block -/

/-- A linked block keeps its peer, unless `nbind` names it; its remote end
    never changes. -/
theorem TcbChange.ends_kept {t' : NgTcpStream} (h : TcbChange s e a ops (some t) (some t')) :
    (t'.sip = t.sip ∧ t'.sport = t.sport) ∧
    (t'.peer = t.peer ∨
      ∃ fd ip port, e = .nbind fd ip port ∧ getHostinfoFromfd s fd = some (.stream a t)) := by
  cases h with
  | idle | seen | listening | accepted | handshake => exact ⟨⟨rfl, rfl⟩, .inl rfl⟩
  | bound he hinfo => exact ⟨⟨rfl, rfl⟩, .inr ⟨_, _, _, he, hinfo⟩⟩
  | sending he hinfo hput =>
      obtain ⟨r, -, rfl, -⟩ := enqueueSnd_ok hput
      exact ⟨⟨rfl, rfl⟩, .inl rfl⟩
  | reading he hinfo hread =>
      rw [(nrecvStream_ok hread).fields]
      exact ⟨⟨rfl, rfl⟩, .inl rfl⟩
  | closing he hinfo hst hput =>
      obtain ⟨r, -, rfl, -⟩ := enqueueSnd_ok hput
      exact ⟨⟨rfl, rfl⟩, .inl rfl⟩
  | data he hf hst hest =>
      rw [(ngTcpHandleEstablished_ok hest).fields]
      exact ⟨⟨rfl, rfl⟩, .inl rfl⟩
  | output he =>
      rw [(tcpOutStream_cases s.arpt _).fields]
      exact ⟨⟨rfl, rfl⟩, .inl rfl⟩

/-- A new block is a socket without a peer, or belongs to the sender of a SYN
    that found a listener. -/
theorem TcbChange.ends_new {t' : NgTcpStream} (h : TcbChange s e a ops none (some t')) :
    (∃ env, e = .nsocket env SOCK_STREAM ∧ ops = [.link none] ∧
      t'.peer = { sip := 0, dip := 0, sport := 0, dport := 0 }) ∨
    ∃ env m l u, e = .packet env m ∧ s.Finds m l u ∧ u.status = .listen ∧
      m.segment.syn = true ∧ a = s.tcbSet.next ∧ t'.peer = m.segment.peer ∧
      .link (some m.segment) ∈ ops ∧ (env.malloc .synFragment = true → t'.status = .synRcvd) := by
  cases h with
  | opened he => exact .inl ⟨_, he, rfl, rfl⟩
  | synAcked he hf hst hsyn ha hc =>
      obtain ⟨⟨hsip, hdip, hsport, hdport⟩, -⟩ := ngTcpStreamCreate_ok hc
      refine .inr ⟨_, _, _, _, he, hf, hst, hsyn, ha, ?_, .head _, fun _ => rfl⟩
      simp [Segment.peer, NgTcpStream.peer, hsip, hdip, hsport, hdport]
  | synUnanswered he hf hst hsyn ha hc hmalloc =>
      obtain ⟨⟨hsip, hdip, hsport, hdport⟩, -⟩ := ngTcpStreamCreate_ok hc
      refine .inr ⟨_, _, _, _, he, hf, hst, hsyn, ha, ?_, .head _, ?_⟩
      · simp [Segment.peer, NgTcpStream.peer, hsip, hdip, hsport, hdport]
      · rw [hmalloc]
        exact nofun

/-! ## Steps that leave a connection open -/

/-- The application leaves the connection of `k` with the block at `a` open:
    it neither renames it or another block of the same peer, nor listens on
    it, nor closes it. -/
def LeavesOpen (k : Peer) (a : Addr) (s : State) : Event → Prop
  | .nsocket _ _ => k ≠ { sip := 0, dip := 0, sport := 0, dport := 0 }
  | .nbind fd _ _ =>
      match getHostinfoFromfd s fd with
      | some (.stream _ u) => ¬ (u.sip = k.sip ∧ u.sport = k.sport)
      | _ => True
  | .nlisten fd | .nclose _ fd => (getHostinfoFromfd s fd).map HostInfo.sock ≠ some (.tcp a)
  | _ => True

instance (k : Peer) (a : Addr) (s : State) : (e : Event) → Decidable (LeavesOpen k a s e)
  | .nsocket _ _ => inferInstanceAs (Decidable (k ≠ _))
  | .nbind fd _ _ =>
      match hinfo : getHostinfoFromfd s fd with
      | some (.stream _ u) =>
          decidable_of_iff (¬ (u.sip = k.sip ∧ u.sport = k.sport))
            (by simp only [LeavesOpen, hinfo])
      | some (.localhost _ _) | none => .isTrue (by simp only [LeavesOpen, hinfo])
  | .nlisten fd | .nclose _ fd =>
      inferInstanceAs (Decidable ((getHostinfoFromfd s fd).map HostInfo.sock ≠ some (.tcp a)))
  | .packet _ _ | .udpOut _ | .tcpOut _ | .naccept _ | .nsend _ _ _ | .nrecv _ _
  | .nrecvfrom _ _ _ | .nsendto _ _ _ _ _ => .isTrue trivial

/-- A block gets to belong to `k` only through a SYN to a listener. -/
theorem TcbChange.peer_before {b : Addr} {u' : NgTcpStream} {before : Option NgTcpStream}
    (h : TcbChange s e b ops before (some u')) (hopen : LeavesOpen k a s e)
    (hsyn : ∀ m l u, s.Finds m l u → m.segment.peer = k → u.status ≠ .listen)
    (hu' : u'.peer = k) : ∃ u, before = some u ∧ u.peer = k := by
  cases before with
  | some u =>
      refine ⟨u, rfl, ?_⟩
      obtain ⟨⟨hsip, hsport⟩, hpeer | ⟨fd, ip, port, rfl, hinfo⟩⟩ := h.ends_kept
      · exact hpeer.symm.trans hu'
      · simp only [LeavesOpen, hinfo, ← hu'] at hopen
        exact absurd ⟨hsip.symm, hsport.symm⟩ hopen
  | none =>
      rcases h.ends_new with ⟨env, rfl, -, hpeer⟩ | ⟨env, m, l, u, -, hf, hst, -, -, hpeer, -⟩
      · exact absurd (hu'.symm.trans hpeer) hopen
      · exact absurd hst (hsyn m l u hf (hpeer.symm.trans hu'))

/-- The block of an open connection stays linked, and stays that of `k`. -/
theorem TcbChange.peer_after {after : Option NgTcpStream}
    (h : TcbChange s e a ops (some t) after) (hopen : LeavesOpen k a s e) (ht : t.peer = k)
    (hst : t.status ≠ .lastAck) : ∃ t', after = some t' ∧ t'.peer = k := by
  cases after with
  | some t' =>
      refine ⟨t', rfl, ?_⟩
      obtain ⟨-, hpeer | ⟨fd, ip, port, rfl, hinfo⟩⟩ := h.ends_kept
      · exact hpeer.trans ht
      · simp only [LeavesOpen, hinfo, ← ht] at hopen
        exact absurd ⟨rfl, rfl⟩ hopen
  | none =>
      cases h with
      | closed he hinfo =>
          subst he
          simp only [LeavesOpen, hinfo, Option.map_some] at hopen
          exact absurd rfl hopen
      | destroyed _ _ hlast => exact absurd hlast hst

/-- After a step that leaves the connection open, the search finds the same
    block for its segments. -/
theorem connection_of_step (hconn : s.connection k = some (a, t)) (h : step s e = .ok (s', o))
    (hopen : LeavesOpen k a s e) (hlisten : t.status ≠ .listen) (hlast : t.status ≠ .lastAck) :
    ∃ t', s'.connection k = some (a, t') ∧ TcbChange s e a (o.opsOf a) (some t) (some t') := by
  obtain ⟨ht, hpeer⟩ := tcb_of_connection hconn
  have hchange := tcbChange_of_step h a
  rw [ht] at hchange
  obtain ⟨t', ht', hpeer'⟩ := hchange.peer_after hopen hpeer hlast
  have hsyn : ∀ m l u, s.Finds m l u → m.segment.peer = k → u.status ≠ .listen := by
    intro m l u hf hm
    obtain ⟨-, rfl⟩ := eq_of_finds hconn hf hm
    exact hlisten
  refine ⟨t', Table.find?_of_relinked (relinked_of_step h) hconn ht' (hasKey_iff.mpr hpeer') ?_,
    ht' ▸ hchange⟩
  intro b _ u' hu' hkey
  have hchangeb := tcbChange_of_step h b
  rw [State.tcb, State.tcb, hu'] at hchangeb
  obtain ⟨u, hu, hupeer⟩ := hchangeb.peer_before hopen hsyn (hasKey_iff.mp hkey)
  exact ⟨u, hu, hasKey_iff.mpr hupeer⟩

end LinuxLearning.Ustack
