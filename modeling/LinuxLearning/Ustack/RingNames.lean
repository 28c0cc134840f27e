/-
  LinuxLearning.Ustack.RingNames

  The names under which the stack asks for its rings.

  `nsocket` uses the same two names for all UDP sockets and the same two for
  all TCP sockets, and `ng_tcp_stream_create` prints the peer's address in
  hex and, right behind it, its port in decimal.  `rte_ring_create` refuses a
  name that a live ring has.  So a second socket of a kind cannot be opened
  beside the first; a TCP socket that listened keeps its names when it is
  closed; and two peers whose digits read the same cannot both be connected.

  A ghost list says who holds rings.  While no two holders clash, every name
  asked for is new, and a clash is just when one is not.
-/

import LinuxLearning.Ustack.TcpOutput
import LinuxLearning.Ustack.UdpSockets

namespace LinuxLearning.Ustack

open Lib

variable {env : Env} {s s' : State} {e : Event} {m : Mbuf} {o : Out} {a : Addr}
  {t t' : NgTcpStream} {ops : List StreamOp}

/-! ## Who holds rings -/

/-- The names `nsocket` uses. -/
def udpSndName : RingName := "send buffer".toList
def udpRcvName : RingName := "recv buffer".toList
def tcpSndName : RingName := "tcp send buffer".toList
def tcpRcvName : RingName := "tcp recv buffer".toList

/-- A pair of rings, by the socket or connection that asked for it. -/
inductive Holder where
  | udpSocket (a : Addr)
  | tcpSocket (a : Addr)
  | connection (a : Addr) (sip : BitVec 32) (sport : BitVec 16)
deriving DecidableEq, Repr

namespace Holder

def sock : Holder → Sock
  | udpSocket a => .udp a
  | tcpSocket a => .tcp a
  | connection a _ _ => .tcp a

def sndName : Holder → RingName
  | udpSocket _ => udpSndName
  | tcpSocket _ => tcpSndName
  | connection _ sip sport => sbufname sip sport

def rcvName : Holder → RingName
  | udpSocket _ => udpRcvName
  | tcpSocket _ => tcpRcvName
  | connection _ sip sport => rbufname sip sport

end Holder

/-- What `%x%d` prints for a peer. -/
def peerDigits (sip : BitVec 32) (sport : BitVec 16) : List Char :=
  Nat.toDigits 16 sip.toNat ++ Nat.toDigits 10 sport.toNat

/-- Two sockets of one kind clash, and two connections whose peers are
    printed alike. -/
def Holder.Clashes : Holder → Holder → Prop
  | .udpSocket _, .udpSocket _ => True
  | .tcpSocket _, .tcpSocket _ => True
  | .connection _ sip sport, .connection _ sip' sport' =>
      peerDigits sip sport = peerDigits sip' sport'
  | _, _ => False

instance : (p q : Holder) → Decidable (p.Clashes q)
  | .udpSocket _, .udpSocket _ => .isTrue trivial
  | .tcpSocket _, .tcpSocket _ => .isTrue trivial
  | .connection _ sip sport, .connection _ sip' sport' =>
      inferInstanceAs (Decidable (peerDigits sip sport = peerDigits sip' sport'))
  | .udpSocket _, .tcpSocket _ | .udpSocket _, .connection _ _ _ | .tcpSocket _, .udpSocket _
  | .tcpSocket _, .connection _ _ _ | .connection _ _ _, .udpSocket _
  | .connection _ _ _, .tcpSocket _ => .isFalse id

theorem sbufname_eq_iff {sip sip' : BitVec 32} {sport sport' : BitVec 16} :
    sbufname sip sport = sbufname sip' sport' ↔ peerDigits sip sport = peerDigits sip' sport' := by
  rw [sbufname, sbufname, List.append_assoc, List.append_assoc, List.append_cancel_left_eq]
  rfl

theorem rbufname_eq_iff {sip sip' : BitVec 32} {sport sport' : BitVec 16} :
    rbufname sip sport = rbufname sip' sport' ↔ peerDigits sip sport = peerDigits sip' sport' := by
  rw [rbufname, rbufname, List.append_assoc, List.append_assoc, List.append_cancel_left_eq]
  rfl

namespace Holder

/-- The kinds of names differ in their first characters. -/
theorem take_sndName (p : Holder) : p.sndName.take 5 = match p with
    | .udpSocket _ => ['s', 'e', 'n', 'd', ' ']
    | .tcpSocket _ => ['t', 'c', 'p', ' ', 's']
    | .connection _ _ _ => ['s', 'n', 'd', 'b', 'u'] := by
  cases p with
  | udpSocket | tcpSocket =>
      simp only [sndName]
      decide +kernel
  | connection a sip sport =>
      rw [sndName, sbufname, List.append_assoc]
      rfl

theorem take_rcvName (p : Holder) : p.rcvName.take 5 = match p with
    | .udpSocket _ => ['r', 'e', 'c', 'v', ' ']
    | .tcpSocket _ => ['t', 'c', 'p', ' ', 'r']
    | .connection _ _ _ => ['r', 'c', 'v', 'b', 'u'] := by
  cases p with
  | udpSocket | tcpSocket =>
      simp only [rcvName]
      decide +kernel
  | connection a sip sport =>
      rw [rcvName, rbufname, List.append_assoc]
      rfl

variable {p q : Holder}

/-- Holders clash just when they have the same names. -/
theorem sndName_eq_iff : p.sndName = q.sndName ↔ p.Clashes q := by
  constructor
  · intro h
    have htake := congrArg (List.take 5) h
    rw [take_sndName, take_sndName] at htake
    cases p <;> cases q
    -- two kinds with different first characters contradict `htake`
    case udpSocket.udpSocket | tcpSocket.tcpSocket => trivial
    case connection.connection => exact sbufname_eq_iff.mp h
    all_goals simp at htake
  · intro h
    cases p <;> cases q
    case udpSocket.udpSocket | tcpSocket.tcpSocket => rfl
    case connection.connection => exact sbufname_eq_iff.mpr h
    all_goals exact h.elim

theorem rcvName_eq_iff : p.rcvName = q.rcvName ↔ p.Clashes q := by
  constructor
  · intro h
    have htake := congrArg (List.take 5) h
    rw [take_rcvName, take_rcvName] at htake
    cases p <;> cases q
    case udpSocket.udpSocket | tcpSocket.tcpSocket => trivial
    case connection.connection => exact rbufname_eq_iff.mp h
    all_goals simp at htake
  · intro h
    cases p <;> cases q
    case udpSocket.udpSocket | tcpSocket.tcpSocket => rfl
    case connection.connection => exact rbufname_eq_iff.mpr h
    all_goals exact h.elim

theorem sndName_ne_rcvName : p.sndName ≠ q.rcvName := by
  intro h
  have htake := congrArg (List.take 5) h
  rw [take_sndName, take_rcvName] at htake
  cases p <;> cases q <;> simp at htake

end Holder

/-! ## Names asked for and names given back -/

/-- The names of a block's rings, `sndbuf` first. -/
def NgTcpStream.ringNames (t : NgTcpStream) : Option RingName × Option RingName :=
  (t.sndbuf.map (·.name), t.rcvbuf.map (·.name))

/-- The names of a UDP socket's rings, `sndbuf` first. -/
def Localhost.ringNames (host : Localhost) : Option RingName × Option RingName :=
  (host.sndbuf.map (·.name), host.rcvbuf.map (·.name))

/-- The names of the rings of a linked socket of either kind. -/
def State.ringsOf (s : State) : Sock → Option (Option RingName × Option RingName)
  | .udp a => (s.localhost a).map Localhost.ringNames
  | .tcp a => (s.tcb a).map NgTcpStream.ringNames

/-- Both rings of a holder, under their names. -/
def Holder.rings (p : Holder) : Option RingName × Option RingName :=
  (some p.sndName, some p.rcvName)

/-- The pair of rings a step asks for: `nsocket` for a new socket, or
    `ng_tcp_stream_create` for a SYN. -/
def State.asks (s : State) : Event → Option Holder
  | .nsocket env type =>
      if type = SOCK_DGRAM then
        if env.malloc .localhost then some (.udpSocket s.lhost.next) else none
      else if type = SOCK_STREAM then
        if env.malloc .tcpStream then some (.tcpSocket s.tcbSet.next) else none
      else none
  | .packet env m =>
      if m.IsTcp then
        match s.found m with
        | some (_, t) =>
            if t.status = .listen ∧ m.segment.syn = true ∧ env.malloc .synStream = true then
              some (.connection s.tcbSet.next m.segment.sip m.segment.sport)
            else none
        | none => none
      else none
  | _ => none

/-- The socket whose rings a step frees: a UDP socket that is closed, or a
    connection whose FIN is acknowledged. -/
def State.frees (s : State) : Event → Option Sock
  | .nclose _ fd =>
      match getHostinfoFromfd s fd with
      | some (.localhost a _) => some (.udp a)
      | _ => none
  | .packet _ m =>
      if m.IsTcp then
        match s.found m with
        | some (a, t) =>
            if t.status = .lastAck ∧ m.segment.ack = true then some (.tcp a) else none
        | none => none
      else none
  | _ => none

/-- `rte_ring_create` does not fail for want of memory. -/
def RingMemory : Event → Prop
  | .nsocket env _ => env.malloc .rcvRing = true ∧ env.malloc .sndRing = true
  | .packet env _ => env.malloc .synSndRing = true ∧ env.malloc .synRcvRing = true
  | _ => True

instance : (e : Event) → Decidable (RingMemory e)
  | .nsocket _ _ | .packet _ _ => inferInstanceAs (Decidable (_ ∧ _))
  | .udpOut _ | .tcpOut _ | .nbind _ _ _ | .nlisten _ | .naccept _ | .nsend _ _ _ | .nrecv _ _
  | .nrecvfrom _ _ _ | .nsendto _ _ _ _ _ | .nclose _ _ => .isTrue trivial

/-- The names a step asks for are those of no live ring. -/
def AsksFreshNames (s : State) (e : Event) : Prop :=
  ∀ p ∈ s.asks e, p.sndName ∉ s.ringNames ∧ p.rcvName ∉ s.ringNames

instance (s : State) (e : Event) : Decidable (AsksFreshNames s e) :=
  inferInstanceAs (Decidable (∀ p ∈ s.asks e, _))

/-! ## Rings keep their names -/

theorem name_mpEnqueue {α : Type} (r : RteRing α) (x : α) : (r.mpEnqueue x).1.name = r.name := by
  unfold RteRing.mpEnqueue
  split <;> rfl

theorem name_mcDequeue {α : Type} {r r' : RteRing α} {x : α} (h : r.mcDequeue = some (x, r')) :
    r'.name = r.name := by
  unfold RteRing.mcDequeue at h
  split at h
  · obtain ⟨-, rfl⟩ := Prod.mk.inj (Option.some.inj h)
    rfl
  · cases h

theorem RingPut.name_eq {op : NgTcpFragment → Bool → StreamOp} {f? : Option NgTcpFragment}
    {ring ring' : Option (RteRing NgTcpFragment)} (h : RingPut op f? ring ring' ops) :
    ring'.map (·.name) = ring.map (·.name) := by
  cases h with
  | nothing => rfl
  | put f r => rw [Option.map_some, Option.map_some, name_mpEnqueue]

theorem ringNames_of_enqueueSnd {f : NgTcpFragment} {stored : Bool}
    (h : t.enqueueSnd f = .ok (t', stored)) : t'.ringNames = t.ringNames := by
  obtain ⟨r, hr, rfl, -⟩ := enqueueSnd_ok h
  simp only [NgTcpStream.ringNames, hr, Option.map_some, name_mpEnqueue]

theorem ringNames_of_established (h : EstablishedStep env m t ops t') :
    t'.ringNames = t.ringNames := by
  have hstored : ∀ {b : SegBranch} {p : Ptr} {len : Int} {delta : BitVec 32} {u u' : NgTcpStream}
      {ops : List StreamOp}, StoredAndAcked env b p len delta u ops u' →
      u'.ringNames = u.ringNames := by
    intro b p len delta u u' ops hu
    obtain ⟨put, ack, -, hrcv, hsnd⟩ := hu.rings
    exact Prod.ext hsnd.name_eq hrcv.name_eq
  obtain ⟨t₁, ops₁, ops₂, -, hpsh, hfin⟩ := h.blocks
  have h₁ : t₁.ringNames = t.ringNames := by
    unfold OptBlock at hpsh
    split at hpsh
    · exact hstored hpsh
    · rw [hpsh.1]
  have h₂ : t'.ringNames = t₁.ringNames := by
    unfold OptBlock at hfin
    split at hfin
    · exact (hstored hfin).trans rfl
    · rw [hfin.1]
  exact h₂.trans h₁

theorem ringNames_of_nrecvStream {len : Nat} {buf : List Byte} {ret : Int}
    (h : nrecvStream t len = .ok (t', ops, buf, ret)) : t'.ringNames = t.ringNames := by
  unfold nrecvStream at h
  split at h
  · cases h
  · rename_i r hr
    split at h
    · cases h
    · rename_i f r' hpop
      have hname := name_mcDequeue hpop
      repeat' split at h
      all_goals simp only [Except.ok.injEq, Prod.mk.injEq, reduceCtorEq] at h
      all_goals obtain ⟨rfl, -⟩ := h
      all_goals simp only [NgTcpStream.ringNames, hr, Option.map_some, name_mpEnqueue, hname]

theorem ringNames_tcpOutStream (arpt : ArpTable) (t : NgTcpStream) :
    (tcpOutStream arpt t).1.ringNames = t.ringNames := by
  unfold tcpOutStream
  split
  · rfl
  · rename_i r hr
    split
    · rfl
    · rename_i f r' hpop
      have hname := name_mcDequeue hpop
      split <;> simp only [NgTcpStream.ringNames, hr, Option.map_some, name_mpEnqueue, hname]

theorem ringNames_udpOutHost (arpt : ArpTable) (host : Localhost) :
    (udpOutHost arpt host).1.ringNames = host.ringNames := by
  unfold udpOutHost
  split
  · rfl
  · rename_i r hr
    split
    · rfl
    · rename_i ol r' hpop
      have hname := name_mcDequeue hpop
      split <;> simp only [Localhost.ringNames, hr, Option.map_some, name_mpEnqueue, hname]

/-- A block that stays linked keeps its rings. -/
theorem TcbChange.ringNames_eq (h : TcbChange s e a ops (some t) (some t')) :
    t'.ringNames = t.ringNames := by
  cases h with
  | idle | seen | bound | listening | accepted | handshake => rfl
  | sending he hinfo hput => exact ringNames_of_enqueueSnd hput
  | reading he hinfo hread => exact ringNames_of_nrecvStream hread
  | @closing env fd t t' stored he hinfo hst hput =>
      exact (ringNames_of_enqueueSnd hput : t'.ringNames = t.ringNames)
  | data he hf hst hest => exact ringNames_of_established (ngTcpHandleEstablished_ok hest)
  | output => exact ringNames_tcpOutStream _ _

/-- A UDP socket that stays linked keeps its rings. -/
theorem HostChange.ringNames_eq {host host' : Localhost}
    (h : HostChange s e a (some host) (some host')) : host'.ringNames = host.ringNames := by
  cases h with
  | idle | bound => rfl
  | arrived he hrcv hlen hr | sending he hinfo hr =>
      simp only [Localhost.ringNames, hr, Option.map_some, name_mpEnqueue]
  | output => exact ringNames_udpOutHost _ _
  | reading he hinfo hrecv =>
      cases hrecv with
      | part hr hpop | whole hr hpop =>
          simp only [Localhost.ringNames, hr, Option.map_some, name_mpEnqueue, name_mcDequeue hpop]

/-! ## The names a step takes and frees -/

theorem socketRings_fresh {α : Type} {rcvName sndName : RingName} {live : List RingName}
    (hmem : env.malloc .rcvRing = true ∧ env.malloc .sndRing = true) (hne : sndName ≠ rcvName)
    (hrcv : rcvName ∉ live) (hsnd : sndName ∉ live) :
    socketRings α env rcvName sndName live =
      (some (.init rcvName, .init sndName), sndName :: rcvName :: live) := by
  have h₁ : rteRingCreate (α := α) env .rcvRing rcvName live =
      (some (.init rcvName), rcvName :: live) := by
    rw [rteRingCreate, if_neg (by simp [hrcv, hmem.1])]
  have h₂ : rteRingCreate (α := α) env .sndRing sndName (rcvName :: live) =
      (some (.init sndName), sndName :: rcvName :: live) := by
    rw [rteRingCreate, if_neg (by simp [hne, hsnd, hmem.2])]
  simp only [socketRings, h₁, h₂]

/-- The rings `p` was asked for exist, and its socket is linked with them. -/
structure Took (s s' : State) (p : Holder) : Prop where
  names : s'.ringNames.Perm (p.sndName :: p.rcvName :: s.ringNames)
  rings : ∀ x, s'.ringsOf x = if x = p.sock then some p.rings else s.ringsOf x

/-- A block was linked with the rings of `p`. -/
theorem took_of_link {p : Holder} (hsock : p.sock = .tcp s.tcbSet.next)
    (hrings : t.ringNames = p.rings)
    (hnames : s'.ringNames.Perm (p.sndName :: p.rcvName :: s.ringNames))
    (hhosts : s'.lhost = s.lhost)
    (htcb : ∀ b, s'.tcb b = if b = s.tcbSet.next then some t else s.tcb b) : Took s s' p := by
  refine ⟨hnames, fun x => ?_⟩
  rw [hsock]
  cases x with
  | udp a => simp only [State.ringsOf, State.localhost, hhosts, reduceCtorEq, if_false]
  | tcp a =>
      simp only [State.ringsOf, htcb, Sock.tcp.injEq]
      by_cases ha : a = s.tcbSet.next
      · rw [if_pos ha, if_pos ha, Option.map_some, hrings]
      · rw [if_neg ha, if_neg ha]

theorem took_of_nsocket {type : Int} {p : Holder} (hmem : RingMemory (.nsocket env type))
    (hasks : s.asks (.nsocket env type) = some p)
    (hfresh : p.sndName ∉ s.ringNames ∧ p.rcvName ∉ s.ringNames) :
    Took s (nsocket env s type).1 p := by
  have hne : p.sndName ≠ p.rcvName := Holder.sndName_ne_rcvName
  simp only [State.asks] at hasks
  split at hasks
  · rename_i htype
    split at hasks
    · rename_i hmalloc
      obtain rfl := Option.some.inj hasks
      have hrings : socketRings Offload env "recv buffer".toList "send buffer".toList s.ringNames =
          (some (.init udpRcvName, .init udpSndName), udpSndName :: udpRcvName :: s.ringNames) :=
        socketRings_fresh hmem hne hfresh.2 hfresh.1
      simp only [nsocket, if_pos htype, if_pos hmalloc, hrings]
      refine ⟨.refl _, fun x => ?_⟩
      cases x with
      | udp a =>
          simp only [State.ringsOf, State.localhost, Table.get?_add, Holder.sock, Sock.udp.injEq]
          by_cases ha : a = s.lhost.next
          · rw [if_pos ha, if_pos ha]
            rfl
          · rw [if_neg ha, if_neg ha]
      | tcp a => rfl
    · cases hasks
  · rename_i hdgram
    split at hasks
    · rename_i htype
      split at hasks
      · rename_i hmalloc
        obtain rfl := Option.some.inj hasks
        have hrings : socketRings NgTcpFragment env "tcp recv buffer".toList
            "tcp send buffer".toList s.ringNames =
            (some (.init tcpRcvName, .init tcpSndName),
              tcpSndName :: tcpRcvName :: s.ringNames) :=
          socketRings_fresh hmem hne hfresh.2 hfresh.1
        simp only [nsocket, if_neg hdgram, if_pos htype, if_pos hmalloc, hrings]
        exact took_of_link rfl rfl (.refl _) rfl (Table.get?_add s.tcbSet _)
      · cases hasks
    · cases hasks

/-- What a SYN's block is like when its names are new. -/
theorem ngTcpStreamCreate_fresh {sip dip : BitVec 32} {sport dport : BitVec 16}
    {live : List RingName} (hmem : RingMemory (.packet env m))
    (hfresh : sbufname sip sport ∉ s.ringNames ∧ rbufname sip sport ∉ s.ringNames)
    (h : ngTcpStreamCreate env s sip dip sport dport = some (t, live)) :
    t.sndbuf = some (.init (sbufname sip sport)) ∧ t.rcvbuf = some (.init (rbufname sip sport)) ∧
      live = rbufname sip sport :: sbufname sip sport :: s.ringNames := by
  have hne : sbufname sip sport ≠ rbufname sip sport :=
    Holder.sndName_ne_rcvName (p := .connection 0 sip sport) (q := .connection 0 sip sport)
  have h₁ : rteRingCreate (α := NgTcpFragment) env .synSndRing (sbufname sip sport) s.ringNames =
      (some (.init (sbufname sip sport)), sbufname sip sport :: s.ringNames) := by
    rw [rteRingCreate, if_neg (by simp [hfresh.1, hmem.1])]
  have h₂ : rteRingCreate (α := NgTcpFragment) env .synRcvRing (rbufname sip sport)
      (sbufname sip sport :: s.ringNames) = (some (.init (rbufname sip sport)),
        rbufname sip sport :: sbufname sip sport :: s.ringNames) := by
    rw [rteRingCreate, if_neg (by simp [hne.symm, hfresh.2, hmem.2])]
  simp only [ngTcpStreamCreate, h₁, h₂] at h
  split at h
  · obtain ⟨rfl, rfl⟩ := Prod.mk.inj (Option.some.inj h)
    exact ⟨rfl, rfl, rfl⟩
  · cases h

theorem took_of_packet {p : Holder} (hmem : RingMemory (.packet env m))
    (hasks : s.asks (.packet env m) = some p)
    (hfresh : p.sndName ∉ s.ringNames ∧ p.rcvName ∉ s.ringNames)
    (h : pktProcess env s m = .ok (s', o)) : Took s s' p := by
  simp only [State.asks] at hasks
  split at hasks
  · rename_i htcp
    split at hasks
    · rename_i l t hfound
      split at hasks
      · rename_i hsyn
        obtain rfl := Option.some.inj hasks
        rw [pktProcess_of_tcp htcp] at h
        rcases ngTcpProcess_cases h with ⟨hnone, -⟩ | ⟨a, t', ops, hf, hd, -⟩
        · exact absurd (hnone.symm.trans hfound).symm (Option.some_ne_none _)
        · obtain ⟨rfl, rfl⟩ := Prod.mk.inj (Option.some.inj (hfound.symm.trans hf))
          simp only [dispatchSegment, hsyn.1, ofHdrs_setCksum] at hd
          have hd : ngTcpHandleListen env (s.learnFrom env m) t m.segment = .ok (s', ops) := hd
          cases ngTcpHandleListen_ok hd with
          | ignored hnot => exact absurd ⟨hsyn.2.1, hsyn.1⟩ hnot
          | answered _ _ hc _ hr =>
              obtain ⟨hsnd, hrcv, rfl⟩ :=
                ngTcpStreamCreate_fresh (s := s.learnFrom env m) hmem hfresh hc
              obtain rfl := Option.some.inj (hr.symm.trans hsnd)
              refine took_of_link rfl ?_ (.swap ..) rfl (tcb_setTcb_add (s.learnFrom env m) _ _ _)
              simp only [NgTcpStream.ringNames, Option.map_some, name_mpEnqueue, hrcv]
              rfl
          | @unanswered syn live _ _ hc =>
              obtain ⟨hsnd, hrcv, rfl⟩ :=
                ngTcpStreamCreate_fresh (s := s.learnFrom env m) hmem hfresh hc
              refine took_of_link (t := syn) rfl ?_ (.swap ..) rfl (Table.get?_add s.tcbSet syn)
              simp only [NgTcpStream.ringNames, hsnd, hrcv, Option.map_some]
              rfl
      · cases hasks
    · cases hasks
  · cases hasks

/-- The rings of `x` were freed and `x` was unlinked. -/
structure Freed (s s' : State) (x : Sock) : Prop where
  names : ∀ p : Holder, s.ringsOf x = some p.rings →
    s'.ringNames = (s.ringNames.erase p.sndName).erase p.rcvName
  rings : ∀ y, s'.ringsOf y = if y = x then none else s.ringsOf y

theorem rteRingFree_named {α : Type} {ring : Option (RteRing α)} {name : RingName}
    (h : ring.map (·.name) = some name) (live : List RingName) :
    rteRingFree ring live = live.erase name := by
  obtain ⟨r, rfl, rfl⟩ := Option.map_eq_some_iff.mp h
  rfl

theorem freed_of_nclose {fd : Int} {x : Sock} (hfrees : s.frees (.nclose env fd) = some x)
    (h : nclose env s fd = .ok (s', o)) : Freed s s' x := by
  simp only [State.frees] at hfrees
  split at hfrees
  · rename_i a host hinfo
    obtain rfl := Option.some.inj hfrees
    have hhost := localhost_of_hostinfo hinfo
    simp only [nclose, hinfo] at h
    obtain ⟨rfl, -⟩ := Prod.mk.inj (Except.ok.inj h)
    constructor
    · intro p hp
      simp only [State.ringsOf, hhost, Option.map_some, Option.some.injEq] at hp
      obtain ⟨hsnd, hrcv⟩ := Prod.mk.inj hp
      -- `nclose` frees the receive ring first
      rw [rteRingFree_named hsnd, rteRingFree_named hrcv, List.erase_comm]
    · intro y
      cases y with
      | tcp b => rfl
      | udp b =>
          simp only [State.ringsOf, State.localhost, Table.get?_remove, Sock.udp.injEq]
          by_cases hb : b = a
          · rw [if_pos hb, if_pos hb]
            rfl
          · rw [if_neg hb, if_neg hb]
  · cases hfrees

theorem freed_of_packet {x : Sock} (hfrees : s.frees (.packet env m) = some x)
    (h : pktProcess env s m = .ok (s', o)) : Freed s s' x := by
  simp only [State.frees] at hfrees
  split at hfrees
  · rename_i htcp
    split at hfrees
    · rename_i a t hfound
      split at hfrees
      · rename_i hlast
        obtain rfl := Option.some.inj hfrees
        rw [pktProcess_of_tcp htcp] at h
        rcases ngTcpProcess_cases h with ⟨hnone, -⟩ | ⟨b, t', ops, hf, hd, -⟩
        · exact absurd (hnone.symm.trans hfound).symm (Option.some_ne_none _)
        · obtain ⟨rfl, rfl⟩ := Prod.mk.inj (Option.some.inj (hfound.symm.trans hf))
          have htcb : s.tcb a = some t := hf.tcb_eq
          simp only [dispatchSegment, hlast.1, ofHdrs_setCksum, Except.ok.injEq] at hd
          have hd : ngTcpHandleLastAck (s.learnFrom env m) a t m.segment = (s', ops) := hd
          rw [ngTcpHandleLastAck, if_pos ⟨hlast.2, hlast.1⟩] at hd
          obtain ⟨rfl, -⟩ := Prod.mk.inj hd
          constructor
          · intro p hp
            simp only [State.ringsOf, htcb, Option.map_some, Option.some.injEq] at hp
            obtain ⟨hsnd, hrcv⟩ := Prod.mk.inj hp
            rw [rteRingFree_named hsnd, rteRingFree_named hrcv]
            rfl
          · intro y
            cases y with
            | udp b => rfl
            | tcp b =>
                have hremove := Table.get?_remove s.tcbSet a b
                simp only [Sock.tcp.injEq]
                by_cases hb : b = a
                · rw [if_pos hb] at hremove ⊢
                  exact congrArg (Option.map _) hremove
                · rw [if_neg hb] at hremove ⊢
                  exact congrArg (Option.map _) hremove
      · cases hfrees
    · cases hfrees
  · cases hfrees

/-! ## The other steps -/

/-- A UDP socket that is not closed keeps its rings. -/
theorem HostChange.rings_kept {before after : Option Localhost}
    (h : HostChange s e a before after) (hopen : ∀ env type, e ≠ .nsocket env type)
    (hfrees : s.frees e = none) :
    after.map Localhost.ringNames = before.map Localhost.ringNames := by
  have hkeep : ∀ host host', HostChange s e a (some host) (some host') →
      (some host').map Localhost.ringNames = (some host).map Localhost.ringNames :=
    fun host host' h => congrArg some h.ringNames_eq
  cases h with
  | idle => rfl
  | opened he => exact absurd he (hopen _ _)
  | closed he hinfo =>
      subst he
      simp only [State.frees, hinfo, reduceCtorEq] at hfrees
  | bound he hinfo => exact hkeep _ _ (.bound he hinfo)
  | arrived he hrcv hlen hr => exact hkeep _ _ (.arrived he hrcv hlen hr)
  | output he => exact hkeep _ _ (.output he)
  | reading he hinfo hrecv => exact hkeep _ _ (.reading he hinfo hrecv)
  | sending he hinfo hr => exact hkeep _ _ (.sending he hinfo hr)

theorem malloc_of_create {live : List RingName} {sip dip : BitVec 32} {sport dport : BitVec 16}
    (h : ngTcpStreamCreate env s sip dip sport dport = some (t, live)) :
    env.malloc .synStream = true := by
  unfold ngTcpStreamCreate at h
  split at h
  · assumption
  · cases h

theorem TcbChange.none_of_none {after : Option NgTcpStream} (h : TcbChange s e a ops none after)
    (hopen : ∀ env type, e ≠ .nsocket env type) (htcp : ∀ env m, e = .packet env m → m.IsTcp)
    (hasks : s.asks e = none) : after = none := by
  -- a SYN that makes a block asks for its rings
  have hsyn : ∀ {env m l t live syn}, e = .packet env m → s.Finds m l t → t.status = .listen →
      m.segment.syn = true → ngTcpStreamCreate env s m.segment.sip m.segment.dip m.segment.sport
        m.segment.dport = some (syn, live) → False := by
    intro env m l t live syn he hf hst hflag hc
    have hfound : s.found m = some (l, t) := hf
    subst he
    simp only [State.asks, if_pos (htcp env m rfl), hfound, hst, hflag, malloc_of_create hc,
      and_self, if_true, reduceCtorEq] at hasks
  cases h with
  | idle => rfl
  | opened he => exact absurd he (hopen _ _)
  | synAcked he hf hst hflag ha hc => exact (hsyn he hf hst hflag hc).elim
  | synUnanswered he hf hst hflag ha hc => exact (hsyn he hf hst hflag hc).elim

theorem tcbs_of_not_tcp (htcp : ¬ m.IsTcp) (h : pktProcess env s m = .ok (s', o)) :
    s'.tcbSet = s.tcbSet ∧ s'.ringNames = s.ringNames := by
  rcases pktProcess_cases h with ⟨-, h⟩ | ⟨hm, -⟩ | ⟨-, -, -, rfl⟩
  · rcases udpProcess_cases h with ⟨rfl, -⟩ | ⟨a, host, r, -, -, -, -, -, -, rfl⟩
    · exact ⟨rfl, rfl⟩
    · exact ⟨rfl, rfl⟩
  · exact absurd hm htcp
  · split <;> exact ⟨rfl, rfl⟩

theorem ringNames_of_tcp (htcp : m.IsTcp) (hasks : s.asks (.packet env m) = none)
    (hfrees : s.frees (.packet env m) = none) (h : pktProcess env s m = .ok (s', o)) :
    s'.ringNames = s.ringNames := by
  -- each handler but two leaves the names alone; those two would ask or free
  rw [pktProcess_of_tcp htcp] at h
  rcases ngTcpProcess_cases h with ⟨-, rfl, -⟩ | ⟨a, t, ops, hf, hd, -⟩
  · rfl
  · have hfound : s.found m = some (a, t) := hf
    simp only [State.asks, if_pos htcp, hfound] at hasks
    simp only [State.frees, if_pos htcp, hfound] at hfrees
    cases hst : t.status with
    | listen =>
        simp only [dispatchSegment, hst, ofHdrs_setCksum] at hd
        have hd : ngTcpHandleListen env (s.learnFrom env m) t m.segment = .ok (s', ops) := hd
        -- a SYN that gets a block asks for rings
        have hnot : ∀ {syn live}, m.segment.syn = true →
            ngTcpStreamCreate env (s.learnFrom env m) m.segment.sip m.segment.dip m.segment.sport
              m.segment.dport = some (syn, live) → False := by
          intro syn live hsyn hc
          rw [if_pos ⟨hst, hsyn, malloc_of_create hc⟩] at hasks
          cases hasks
        cases ngTcpHandleListen_ok hd with
        | ignored => rfl
        | answered hsyn _ hc => exact (hnot hsyn hc).elim
        | unanswered hsyn _ hc => exact (hnot hsyn hc).elim
    | synRcvd =>
        simp only [dispatchSegment, hst, ngTcpHandleSynRcvd] at hd
        repeat' split at hd
        all_goals simp only [Except.ok.injEq, Prod.mk.injEq, reduceCtorEq] at hd
        all_goals obtain ⟨rfl, -⟩ := hd
        all_goals rfl
    | established =>
        rw [dispatchSegment, hst] at hd
        obtain ⟨⟨t', ops'⟩, -, hret⟩ := bind_eq_ok_iff.mp hd
        obtain ⟨rfl, -⟩ : (s.learnFrom env m).setTcb a t' = s' ∧ ops'.map (a, ·) = ops := by
          simpa [pure, Except.pure] using hret
        rfl
    | lastAck =>
        simp only [dispatchSegment, hst, ofHdrs_setCksum, Except.ok.injEq] at hd
        have hd : ngTcpHandleLastAck (s.learnFrom env m) a t m.segment = (s', ops) := hd
        unfold ngTcpHandleLastAck at hd
        split at hd
        · rename_i hack
          -- an acknowledged FIN frees them
          rw [if_pos ⟨hst, hack.1⟩] at hfrees
          cases hfrees
        · obtain ⟨rfl, -⟩ := Prod.mk.inj hd
          rfl
    | closed | synSent | finWait1 | finWait2 | closing | timeWait | closeWait =>
        simp only [dispatchSegment, hst, Except.ok.injEq, Prod.mk.injEq] at hd
        rw [← hd.1]
        rfl

theorem nsocket_of_no_asks {type : Int} (hasks : s.asks (.nsocket env type) = none) :
    (nsocket env s type).1 = { s with fdTable := (getFdFrombitmap s.fdTable).1 } := by
  simp only [State.asks] at hasks
  by_cases hdgram : type = SOCK_DGRAM
  · have hmalloc : ¬ env.malloc .localhost = true := by
      intro hm
      rw [if_pos hdgram, if_pos hm] at hasks
      cases hasks
    simp only [nsocket, if_pos hdgram, if_neg hmalloc]
  · by_cases hstream : type = SOCK_STREAM
    · have hmalloc : ¬ env.malloc .tcpStream = true := by
        intro hm
        rw [if_neg hdgram, if_pos hstream, if_pos hm] at hasks
        cases hasks
      simp only [nsocket, if_neg hdgram, if_pos hstream, if_neg hmalloc]
    · simp only [nsocket, if_neg hdgram, if_neg hstream]

/-- Events that neither open nor close a socket and are no packet. -/
def Event.isData : Event → Bool
  | .packet _ _ | .nsocket _ _ | .nclose _ _ => false
  | _ => true

theorem ringNames_of_data (he : e.isData = true) (h : step s e = .ok (s', o)) :
    s'.ringNames = s.ringNames := by
  cases e with
  | packet | nsocket | nclose => cases he
  | udpOut | tcpOut | nbind | nlisten | nsend | nrecv | nrecvfrom | nsendto =>
      obtain ⟨lhost, tcbs, rfl⟩ := step_of_transfer rfl h
      rfl
  | naccept =>
      simp only [step, Ustack.naccept] at h
      repeat' split at h
      all_goals simp only [Except.ok.injEq, Prod.mk.injEq, reduceCtorEq] at h
      all_goals obtain ⟨rfl, -⟩ := h
      all_goals rfl

/-- What a step does that asks for no rings and frees none. -/
structure Kept (s s' : State) : Prop where
  names : s'.ringNames = s.ringNames
  udp : ∀ a, s'.ringsOf (.udp a) = s.ringsOf (.udp a)
  /-- A listener may be unlinked with its rings. -/
  tcp : ∀ a, s'.ringsOf (.tcp a) = s.ringsOf (.tcp a) ∨ s'.ringsOf (.tcp a) = none

/-- A block whose address was free stays so, so every block keeps its rings. -/
theorem ringsOf_tcp (h : step s e = .ok (s', o)) (hnone : s.tcb a = none → s'.tcb a = none) :
    s'.ringsOf (.tcp a) = s.ringsOf (.tcp a) ∨ s'.ringsOf (.tcp a) = none := by
  have hchange := tcbChange_of_step h a
  simp only [State.ringsOf]
  cases hbefore : s.tcb a with
  | none => exact .inr (by rw [hnone hbefore]; rfl)
  | some t =>
      cases hafter : s'.tcb a with
      | none => exact .inr rfl
      | some t' =>
          rw [hbefore, hafter] at hchange
          exact .inl (congrArg some hchange.ringNames_eq)

theorem kept_of_step (hasks : s.asks e = none) (hfrees : s.frees e = none)
    (h : step s e = .ok (s', o)) : Kept s s' := by
  have hudp (hopen : ∀ env type, e ≠ .nsocket env type) (a : Addr) :
      s'.ringsOf (.udp a) = s.ringsOf (.udp a) :=
    (hostChange_of_step h a).rings_kept hopen hfrees
  have htcp (hopen : ∀ env type, e ≠ .nsocket env type)
      (hsyn : ∀ env m, e = .packet env m → m.IsTcp) (a : Addr) :
      s'.ringsOf (.tcp a) = s.ringsOf (.tcp a) ∨ s'.ringsOf (.tcp a) = none := by
    refine ringsOf_tcp h fun ha => ?_
    have hchange := tcbChange_of_step h a
    rw [ha] at hchange
    exact hchange.none_of_none hopen hsyn hasks
  cases e with
  | packet env m =>
      by_cases hm : m.IsTcp
      · refine ⟨ringNames_of_tcp hm hasks hfrees h, hudp (by rintro _ _ ⟨⟩),
          htcp (by rintro _ _ ⟨⟩) ?_⟩
        rintro _ _ heq
        obtain ⟨-, rfl⟩ := Event.packet.inj heq
        exact hm
      · obtain ⟨htcbs, hnames⟩ := tcbs_of_not_tcp hm h
        refine ⟨hnames, hudp (by rintro _ _ ⟨⟩), fun a => .inl ?_⟩
        rw [State.ringsOf, State.ringsOf, State.tcb, State.tcb, htcbs]
  | nsocket env type =>
      have hs : (nsocket env s type).1 = s' := congrArg Prod.fst (Except.ok.inj h)
      rw [← hs, nsocket_of_no_asks hasks]
      exact ⟨rfl, fun _ => rfl, fun _ => .inl rfl⟩
  | nclose env fd =>
      refine ⟨?_, hudp (by rintro _ _ ⟨⟩), htcp (by rintro _ _ ⟨⟩) (by rintro _ _ ⟨⟩)⟩
      simp only [step, nclose] at h
      split at h
      · obtain ⟨rfl, -⟩ := Prod.mk.inj (Except.ok.inj h)
        rfl
      -- a UDP socket that is closed frees its rings
      · rename_i a host hinfo
        simp only [State.frees, hinfo, reduceCtorEq] at hfrees
      -- a control block's rings stay, also those of a listener that is unlinked
      · repeat' split at h
        all_goals simp only [Except.ok.injEq, Prod.mk.injEq, reduceCtorEq] at h
        all_goals obtain ⟨rfl, -⟩ := h
        all_goals rfl
  | udpOut | tcpOut | nbind | nlisten | naccept | nsend | nrecv | nrecvfrom | nsendto =>
      exact ⟨ringNames_of_data rfl h, hudp (by rintro _ _ ⟨⟩),
        htcp (by rintro _ _ ⟨⟩) (by rintro _ _ ⟨⟩)⟩

/-! ## The holders of a run -/

/-- How the holders change in a step. -/
def trackHolders (held : List Holder) (s : State) (e : Event) (_ : Out) : List Holder :=
  match s.asks e with
  | some p => p :: held
  | none =>
      match s.frees e with
      | some x => held.filter fun p => p.sock ≠ x
      | none => held

/-- What a step asks rings for clashes with no holder. -/
def NamesApart (p : State × List Holder) (e : Event) : Prop :=
  ∀ q ∈ p.1.asks e, ∀ q' ∈ p.2, ¬ q.Clashes q'

instance (p : State × List Holder) (e : Event) : Decidable (NamesApart p e) :=
  inferInstanceAs (Decidable (∀ q ∈ p.1.asks e, ∀ q' ∈ p.2, ¬ q.Clashes q'))

/-- The holders say which rings are live, and who would free them. -/
structure RingsHeld (s : State) (held : List Holder) : Prop where
  names : ∀ name, name ∈ s.ringNames ↔ ∃ p ∈ held, name = p.sndName ∨ name = p.rcvName
  nodup : s.ringNames.Nodup
  apart : ∀ p ∈ held, ∀ q ∈ held, p.Clashes q → p = q
  sock : ∀ p ∈ held, ∀ q ∈ held, p.sock = q.sock → p = q
  linked : ∀ x rings, s.ringsOf x = some rings → ∃ p ∈ held, p.sock = x ∧ rings = p.rings
  /-- A UDP socket that is closed holds nothing. -/
  udp : ∀ p ∈ held, ∀ a, p.sock = .udp a → s.ringsOf (.udp a) ≠ none
  tcp : ∀ p ∈ held, ∀ a, p.sock = .tcp a → a < s.tcbSet.next

theorem Holder.clashes_comm {p q : Holder} : p.Clashes q ↔ q.Clashes p := by
  rw [← sndName_eq_iff, ← sndName_eq_iff]
  exact eq_comm

/-- The names asked for are new just when nobody clashes. -/
theorem RingsHeld.fresh_iff {held : List Holder} (h : RingsHeld s held) (p : Holder) :
    (p.sndName ∉ s.ringNames ∧ p.rcvName ∉ s.ringNames) ↔ ∀ q ∈ held, ¬ p.Clashes q := by
  simp only [h.names]
  constructor
  · rintro ⟨hsnd, -⟩ q hq hclash
    exact hsnd ⟨q, hq, .inl (Holder.sndName_eq_iff.mpr hclash)⟩
  · intro hapart
    constructor
    · rintro ⟨q, hq, hname | hname⟩
      · exact hapart q hq (Holder.sndName_eq_iff.mp hname)
      · exact Holder.sndName_ne_rcvName hname
    · rintro ⟨q, hq, hname | hname⟩
      · exact Holder.sndName_ne_rcvName hname.symm
      · exact hapart q hq (Holder.rcvName_eq_iff.mp hname)

theorem RingsHeld.asksFresh_iff {held : List Holder} (h : RingsHeld s held) :
    AsksFreshNames s e ↔ NamesApart (s, held) e :=
  forall₂_congr fun p _ => h.fresh_iff p

/-- The socket that asks is a new one. -/
theorem RingsHeld.new_sock {held : List Holder} (h : RingsHeld s held) {p q : Holder}
    (hasks : s.asks e = some p) (hq : q ∈ held) : p.sock ≠ q.sock := by
  intro hsock
  have hnext : p.sock = .udp s.lhost.next ∨ p.sock = .tcp s.tcbSet.next := by
    unfold State.asks at hasks
    repeat' split at hasks
    all_goals try cases hasks
    · exact .inl rfl
    · exact .inr rfl
    · exact .inr rfl
  rcases hnext with hudp | htcp
  -- addresses are given once: nothing is linked at the next one
  · refine h.udp q hq s.lhost.next (hsock.symm.trans hudp) ?_
    rw [State.ringsOf, State.localhost, Table.get?_next, Option.map_none]
  · exact Nat.lt_irrefl _ (h.tcp q hq s.tcbSet.next (hsock.symm.trans htcp))

theorem RingsHeld.took {held : List Holder} (h : RingsHeld s held) {p : Holder}
    (hasks : s.asks e = some p) (hapart : ∀ q ∈ held, ¬ p.Clashes q) (htook : Took s s' p)
    (hnext : s.tcbSet.next ≤ s'.tcbSet.next) (hlinked : ∀ a, p.sock = .tcp a → a < s'.tcbSet.next) :
    RingsHeld s' (p :: held) := by
  obtain ⟨hsnd, hrcv⟩ := (h.fresh_iff p).mpr hapart
  constructor
  · intro name
    rw [htook.names.mem_iff, List.mem_cons, List.mem_cons, h.names, ← or_assoc]
    simp
  · rw [htook.names.nodup_iff, List.nodup_cons, List.nodup_cons, List.mem_cons, not_or]
    exact ⟨⟨Holder.sndName_ne_rcvName, hsnd⟩, hrcv, h.nodup⟩
  · intro q hq q' hq' hclash
    -- the new holder has names of its own
    rcases List.mem_cons.mp hq with rfl | hold <;> rcases List.mem_cons.mp hq' with rfl | hold'
    · rfl
    · exact absurd hclash (hapart q' hold')
    · exact absurd (Holder.clashes_comm.mp hclash) (hapart q hold)
    · exact h.apart q hold q' hold' hclash
  · intro q hq q' hq' hsock
    -- and a socket of its own
    rcases List.mem_cons.mp hq with rfl | hold <;> rcases List.mem_cons.mp hq' with rfl | hold'
    · rfl
    · exact absurd hsock (h.new_sock hasks hold')
    · exact absurd hsock.symm (h.new_sock hasks hold)
    · exact h.sock q hold q' hold' hsock
  · intro x rings hrings
    rw [htook.rings] at hrings
    split at hrings
    · rename_i hx
      exact ⟨p, List.mem_cons_self .., hx.symm, (Option.some.inj hrings).symm⟩
    · obtain ⟨q, hq, hsock, heq⟩ := h.linked x rings hrings
      exact ⟨q, List.mem_cons_of_mem _ hq, hsock, heq⟩
  · intro q hq a ha
    rw [htook.rings]
    split
    · exact Option.some_ne_none _
    · rename_i hne
      rcases List.mem_cons.mp hq with rfl | hq
      · exact absurd ha.symm hne
      · exact h.udp q hq a ha
  · intro q hq a ha
    rcases List.mem_cons.mp hq with rfl | hq
    · exact hlinked a ha
    · exact Nat.lt_of_lt_of_le (h.tcp q hq a ha) hnext

theorem RingsHeld.freed {held : List Holder} (h : RingsHeld s held) {x : Sock}
    (hlinked : s.ringsOf x ≠ none) (hfreed : Freed s s' x)
    (hnext : s.tcbSet.next ≤ s'.tcbSet.next) :
    RingsHeld s' (held.filter fun p => p.sock ≠ x) := by
  obtain ⟨rings, hrings⟩ := Option.ne_none_iff_exists'.mp hlinked
  obtain ⟨p, hp, hsock, rfl⟩ := h.linked x rings hrings
  have hnames := hfreed.names p hrings
  have hmem : ∀ {q}, q ∈ held.filter (fun p => p.sock ≠ x) ↔ q ∈ held ∧ q.sock ≠ x := by
    simp [List.mem_filter]
  constructor
  · intro name
    rw [hnames, (h.nodup.erase _).mem_erase_iff, h.nodup.mem_erase_iff, h.names]
    constructor
    -- a name that is left belongs to another holder, since `p` has just two
    · rintro ⟨hrcv, hsnd, q, hq, hname⟩
      refine ⟨q, hmem.mpr ⟨hq, fun hx => ?_⟩, hname⟩
      obtain rfl := h.sock q hq p hp (hx.trans hsock.symm)
      rcases hname with hname | hname
      · exact hsnd hname
      · exact hrcv hname
    · rintro ⟨q, hq, hname⟩
      obtain ⟨hq, hx⟩ := hmem.mp hq
      -- no other holder's name is one of the two erased
      have hne : ¬ q.Clashes p := fun hclash => hx (h.apart q hq p hp hclash ▸ hsock)
      refine ⟨?_, ?_, q, hq, hname⟩
      · rintro rfl
        rcases hname with hname | hname
        · exact Holder.sndName_ne_rcvName hname.symm
        · exact hne (Holder.rcvName_eq_iff.mp hname.symm)
      · rintro rfl
        rcases hname with hname | hname
        · exact hne (Holder.sndName_eq_iff.mp hname.symm)
        · exact Holder.sndName_ne_rcvName hname
  · rw [hnames]
    exact (h.nodup.erase _).erase _
  · intro q hq q' hq'
    exact h.apart q (hmem.mp hq).1 q' (hmem.mp hq').1
  · intro q hq q' hq'
    exact h.sock q (hmem.mp hq).1 q' (hmem.mp hq').1
  · intro y rings hy
    rw [hfreed.rings] at hy
    split at hy
    · cases hy
    · rename_i hne
      obtain ⟨q, hq, hqsock, heq⟩ := h.linked y rings hy
      exact ⟨q, hmem.mpr ⟨hq, hqsock ▸ hne⟩, hqsock, heq⟩
  · intro q hq a ha
    obtain ⟨hq, hx⟩ := hmem.mp hq
    rw [hfreed.rings, if_neg (ha ▸ hx)]
    exact h.udp q hq a ha
  · intro q hq a ha
    exact Nat.lt_of_lt_of_le (h.tcp q (hmem.mp hq).1 a ha) hnext

theorem RingsHeld.kept {held : List Holder} (h : RingsHeld s held) (hkept : Kept s s')
    (hnext : s.tcbSet.next ≤ s'.tcbSet.next) : RingsHeld s' held where
  names := by
    rw [hkept.names]
    exact h.names
  nodup := by
    rw [hkept.names]
    exact h.nodup
  apart := h.apart
  sock := h.sock
  linked := by
    intro x rings hrings
    cases x with
    | udp a => exact h.linked _ rings (hkept.udp a ▸ hrings)
    | tcp a =>
        -- a listener may be gone; its rings stay live and its holder stays
        rcases hkept.tcp a with heq | hnone
        · exact h.linked _ rings (heq ▸ hrings)
        · rw [hnone] at hrings
          cases hrings
  udp := by
    intro p hp a ha
    rw [hkept.udp]
    exact h.udp p hp a ha
  tcp := fun p hp a ha => Nat.lt_of_lt_of_le (h.tcp p hp a ha) hnext

/-- Only linked sockets give rings back. -/
theorem ringsOf_of_frees {x : Sock} (h : s.frees e = some x) : s.ringsOf x ≠ none := by
  unfold State.frees at h
  split at h
  · split at h
    · rename_i hinfo
      obtain rfl := Option.some.inj h
      rw [State.ringsOf, localhost_of_hostinfo hinfo]
      exact Option.some_ne_none _
    · cases h
  · split at h
    · split at h
      · rename_i a t hfound
        split at h
        · obtain rfl := Option.some.inj h
          rw [State.ringsOf, State.Finds.tcb_eq hfound]
          exact Option.some_ne_none _
        · cases h
      · cases h
    · cases h
  · cases h

theorem RingsHeld.after_step {held : List Holder} (h : RingsHeld s held) (hmem : RingMemory e)
    (hapart : NamesApart (s, held) e) (hstep : step s e = .ok (s', o)) :
    RingsHeld s' (trackHolders held s e o) := by
  have hevolved := evolved_of_step hstep
  unfold trackHolders
  cases hasks : s.asks e with
  | none =>
      cases hfrees : s.frees e with
      | none => exact h.kept (kept_of_step hasks hfrees hstep) hevolved.next_le
      | some x =>
          have hfreed : Freed s s' x := by
            cases e with
            | packet env m => exact freed_of_packet hfrees hstep
            | nclose env fd => exact freed_of_nclose hfrees hstep
            | udpOut | tcpOut | nsocket | nbind | nlisten | naccept | nsend | nrecv | nrecvfrom
            | nsendto => cases hfrees
          exact h.freed (ringsOf_of_frees hfrees) hfreed hevolved.next_le
  | some p =>
      have hfresh := (h.fresh_iff p).mpr (hapart p hasks)
      have htook : Took s s' p := by
        cases e with
        | packet env m => exact took_of_packet hmem hasks hfresh hstep
        | nsocket env type =>
            have hs : (nsocket env s type).1 = s' := congrArg Prod.fst (Except.ok.inj hstep)
            exact hs ▸ took_of_nsocket hmem hasks hfresh
        | udpOut | tcpOut | nclose | nbind | nlisten | naccept | nsend | nrecv | nrecvfrom
        | nsendto => cases hasks
      refine h.took hasks (hapart p hasks) htook hevolved.next_le fun a ha => ?_
      -- the socket is linked now
      have hrings := htook.rings (.tcp a)
      rw [if_pos ha.symm] at hrings
      obtain ⟨t, ht, -⟩ := Option.map_eq_some_iff.mp hrings
      exact Table.lt_next_of_get? ht

theorem ringsHeld_init (mac : List Byte) : RingsHeld (State.init mac) [] where
  names name := by simp [State.init]
  nodup := List.nodup_nil
  apart p hp := absurd hp List.not_mem_nil
  sock p hp := absurd hp List.not_mem_nil
  linked x rings h := by
    cases x <;> cases h
  udp p hp := absurd hp List.not_mem_nil
  tcp p hp := absurd hp List.not_mem_nil

/-- The runs in which ring memory can be had and nobody who asks for rings
    clashes with a holder, with the holders at their end. -/
abbrev ApartRun (mac : List Byte) (hist : History) (s : State) (held : List Holder) : Prop :=
  Run (Guarded (fun p e => RingMemory e ∧ NamesApart p e) (StepsOf (withGhost step trackHolders)))
    (State.init mac, []) hist (s, held)

theorem ringsHeld_of_run {mac : List Byte} {hist : History} {p : State × List Holder}
    (hrun : Run (Guarded (fun p e => RingMemory e ∧ NamesApart p e)
      (StepsOf (withGhost step trackHolders))) (State.init mac, []) hist p) :
    RingsHeld p.1 p.2 := by
  induction hrun with
  | start => exact ringsHeld_init mac
  | @step hist p e o p' _ hR ih =>
      obtain ⟨⟨hmem, hapart⟩, hstep⟩ := hR
      obtain ⟨hok, hghost⟩ := withGhost_ok.mp hstep
      rw [hghost]
      -- the holders of the ghost run are those `trackHolders` gives
      exact ih.after_step hmem hapart hok

/-- In a run in which nobody who asked for rings clashed with a holder, the
    names asked for next are new exactly if nobody clashes now. -/
theorem ring_names_apart {mac : List Byte} {hist : History} {held : List Holder}
    (hrun : ApartRun mac hist s held) (e : Event) : AsksFreshNames s e ↔ NamesApart (s, held) e :=
  (ringsHeld_of_run hrun).asksFresh_iff

/-- The SYN of a peer to port 9999 of 10.0.0.1. -/
def synFrom (sip : BitVec 32) (sport : BitVec 16) : Mbuf :=
  ngTcpPkt (fun _ => 0) sip 0x0100000A [2, 0, 0, 0, 0, 2] [2, 0, 0, 0, 0, 1]
    { NgTcpFragment.zero with
      sport := sport
      dport := htons 9999
      seqnum := 500
      hdrlenOff := 0x50
      tcpFlags := RTE_TCP_SYN_FLAG
      windows := TCP_INITIAL_WINDOW }

/-- A socket of each kind is open, and two peers with different digits
    connect. -/
theorem ring_names_apart_two_peers : ∃ (hist : History) (s : State) (held : List Holder),
    ApartRun [] hist s held ∧ held.length = 3 ∧
    s.asks (.packet .plain (synFrom 0x0200000A (htons 40001))) ≠ none ∧
    AsksFreshNames s (.packet .plain (synFrom 0x0200000A (htons 40001))) := by
  have hrun : execsTo (guardStep (fun p e => RingMemory e ∧ NamesApart p e) .blocked
        (withGhost step trackHolders)) (State.init [], [])
      [.nsocket .plain SOCK_DGRAM, .nsocket .plain SOCK_STREAM, .nbind 4 0x0100000A (htons 9999),
       .nlisten 4, .packet .plain (synFrom 0x0200000A (htons 40000))]
      (fun _ p => decide (p.2.length = 3) &&
        decide (p.1.asks (.packet .plain (synFrom 0x0200000A (htons 40001))) ≠ none) &&
        decide (NamesApart p (.packet .plain (synFrom 0x0200000A (htons 40001))))) = true := by
    decide +kernel
  obtain ⟨hist, ⟨s, held⟩, hexec, hP⟩ := exec_of_execsTo hrun
  simp only [Bool.and_eq_true, decide_eq_true_eq] at hP
  obtain ⟨⟨hlen, hasks⟩, hapart⟩ := hP
  have hapartRun : ApartRun [] hist s held := guarded_of_exec hexec
  exact ⟨hist, s, held, hapartRun, hlen, hasks, (ring_names_apart hapartRun _).mpr hapart⟩

/-- The names of live rings are asked for: by a second UDP socket beside the
    first; by a new TCP socket after a listener was closed; and by the SYN of
    161.0.0.16:10505 while 10.0.0.1:14640 is connected, where `%x%d` prints
    `100000a12345` for both. -/
theorem ring_name_collisions :
    (∃ (hist : History) (s : State), SystemRun (State.init []) hist s ∧
      ¬ AsksFreshNames s (.nsocket .plain SOCK_DGRAM) ∧
      (nsocket .plain s SOCK_DGRAM).2.ret = -1) ∧
    (∃ (hist : History) (s : State), SystemRun (State.init []) hist s ∧ s.tcbSet.nodes = [] ∧
      ¬ AsksFreshNames s (.nsocket .plain SOCK_STREAM) ∧
      (nsocket .plain s SOCK_STREAM).2.ret = -1) ∧
    ∃ (hist : History) (s : State), SystemRun (State.init []) hist s ∧
      (s.tcb 1).map (fun t => (t.sip, t.sport)) = some (0x0100000A, 12345) ∧
      s.asks (.packet .plain (synFrom 0x100000A1 2345)) = some (.connection 2 0x100000A1 2345) ∧
      ¬ AsksFreshNames s (.packet .plain (synFrom 0x100000A1 2345)) := by
  refine ⟨?_, ?_, ?_⟩
  · have hrun : runsTo (State.init []) [.nsocket .plain SOCK_DGRAM] (fun _ s =>
        decide (¬ AsksFreshNames s (.nsocket .plain SOCK_DGRAM)) &&
        decide ((nsocket .plain s SOCK_DGRAM).2.ret = -1)) = true := by
      decide +kernel
    obtain ⟨hist, s, hrun, hP⟩ := run_of_runsTo hrun
    rw [Bool.and_eq_true, decide_eq_true_eq, decide_eq_true_eq] at hP
    exact ⟨hist, s, hrun, hP⟩
  · have hrun : runsTo (State.init []) (openServer ++ [.nclose .plain 3]) (fun _ s =>
        decide (s.tcbSet.nodes = []) &&
        (decide (¬ AsksFreshNames s (.nsocket .plain SOCK_STREAM)) &&
        decide ((nsocket .plain s SOCK_STREAM).2.ret = -1))) = true := by
      decide +kernel
    obtain ⟨hist, s, hrun, hP⟩ := run_of_runsTo hrun
    simp only [Bool.and_eq_true, decide_eq_true_eq] at hP
    exact ⟨hist, s, hrun, hP⟩
  · have hrun : runsTo (State.init []) (openServer ++ [.packet .plain (synFrom 0x0100000A 12345)])
        (fun _ s =>
          decide ((s.tcb 1).map (fun t => (t.sip, t.sport)) = some (0x0100000A, 12345)) &&
          (decide (s.asks (.packet .plain (synFrom 0x100000A1 2345)) =
            some (.connection 2 0x100000A1 2345)) &&
          decide (¬ AsksFreshNames s (.packet .plain (synFrom 0x100000A1 2345))))) = true := by
      decide +kernel
    obtain ⟨hist, s, hrun, hP⟩ := run_of_runsTo hrun
    simp only [Bool.and_eq_true, decide_eq_true_eq] at hP
    exact ⟨hist, s, hrun, hP⟩

end LinuxLearning.Ustack
