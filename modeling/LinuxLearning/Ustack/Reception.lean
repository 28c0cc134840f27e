/-
  LinuxLearning.Ustack.Reception

  What a connection receives.

  The receiver is stated first on its own: a status, the bytes delivered so
  far and the next expected number, and what one segment makes of them.  It
  looks at the flags and at the payload, never at `sent_seq`.  The stack's
  block for a connection mirrors it through every run that leaves the
  connection open and finds memory and room for the payloads.

  Then follows what the receiver makes of a whole sequence of segments: the
  payloads in the order of their arrival, and when that is what the peer
  sent.
-/

import LinuxLearning.Ustack.Connection
import LinuxLearning.Ustack.TcpOutput

namespace LinuxLearning.Ustack

open Lib

/-! ## The receiver -/

/-- A connection as a receiver. -/
structure Receiver where
  status : NgTcpStatus
  bytes : List Byte
  next : BitVec 32
deriving DecidableEq, Repr

/-- What a segment in ESTABLISHED delivers. -/
def Mbuf.pushed (m : Mbuf) : List Byte := if m.segment.psh then m.payload else []

/-- The receiver after a segment. -/
def Receiver.accept (r : Receiver) (m : Mbuf) : Receiver :=
  match r.status with
  | .synRcvd => { r with status := if m.segment.ack then .established else .synRcvd }
  | .established =>
      { status := if m.segment.fin then .closeWait else .established
        bytes := r.bytes ++ m.pushed
        next := r.next + BitVec.ofNat 32 m.pushed.length + if m.segment.fin then 1 else 0 }
  | _ => r

/-- The statuses in which a connection is open for its peer. -/
def NgTcpStatus.isOpen : NgTcpStatus → Bool
  | .synRcvd | .established | .closeWait => true
  | _ => false

theorem Receiver.isOpen_accept {r : Receiver} (h : r.status.isOpen = true) (m : Mbuf) :
    (r.accept m).status.isOpen = true := by
  unfold Receiver.accept
  split
  · cases m.segment.ack <;> rfl
  · cases m.segment.fin <;> rfl
  · exact h

/-! ## What a run receives -/

/-- The bytes stored on `rcvbuf`, in the order they were stored. -/
def bytesOf (ops : List StreamOp) : List Byte :=
  (putFragments ops).flatMap NgTcpFragment.payload

theorem bytesOf_append (ops₁ ops₂ : List StreamOp) :
    bytesOf (ops₁ ++ ops₂) = bytesOf ops₁ ++ bytesOf ops₂ := by
  rw [bytesOf, putFragments_append, List.flatMap_append]
  rfl

/-- The bytes a run stored on the `rcvbuf` of one block. -/
def received (hist : History) (a : Addr) : List Byte := bytesOf (opsOf hist a)

/-- The frame is a TCP segment of `k` with the right checksum. -/
def Mbuf.Arrives (k : Peer) (m : Mbuf) : Prop :=
  EtherHdr.etherType m.data = htons RTE_ETHER_TYPE_IPV4 ∧
    Ipv4Hdr.nextProtoId m.iphdr = IPPROTO_TCP ∧ tcpCksumOk m = true ∧ m.segment.peer = k

instance (k : Peer) (m : Mbuf) : Decidable (m.Arrives k) := by
  unfold Mbuf.Arrives
  infer_instance

/-- The segment of `k` in an event. -/
def Event.arrival (k : Peer) : Event → Option Mbuf
  | .packet _ m => if m.Arrives k then some m else none
  | _ => none

theorem arrival_eq_some_iff {k : Peer} {e : Event} {m : Mbuf} :
    e.arrival k = some m ↔ ∃ env, e = .packet env m ∧ m.Arrives k := by
  unfold Event.arrival
  split
  · rename_i env m'
    constructor
    · intro h
      split at h
      · obtain rfl := Option.some.inj h
        exact ⟨env, rfl, by assumption⟩
      · cases h
    · rintro ⟨env, he, hm⟩
      obtain ⟨rfl, rfl⟩ := Event.packet.inj he
      exact if_pos hm
  · rename_i hnot
    constructor
    · intro h
      cases h
    · rintro ⟨env, rfl, -⟩
      exact absurd rfl (hnot env m)

/-- The segments of `k` that arrived in a run. -/
def arrivals (k : Peer) (hist : History) : List Mbuf := hist.filterMap (·.1.arrival k)

/-- The connection is left open, and its segments are not longer than they
    say and find memory and room for their payloads. -/
def Serves (k : Peer) (a : Addr) (s : State) (e : Event) : Prop :=
  LeavesOpen k a s e ∧
    match e with
    | .packet env m => m.Arrives k → 0 ≤ m.segment.payloadlen ∧
        env.malloc (.recvFragment .psh) = true ∧ env.malloc (.recvData .psh) = true ∧
        ∀ t ∈ s.tcb a, ∃ r ∈ t.rcvbuf, r.HasRoom
    | _ => True

instance (k : Peer) (a : Addr) (s : State) : (e : Event) → Decidable (Serves k a s e)
  | .packet env m =>
      inferInstanceAs (Decidable (LeavesOpen k a s (.packet env m) ∧ (_ → _ ∧ _ ∧ _ ∧ _)))
  | .udpOut _ | .tcpOut _ | .nsocket _ _ | .nbind _ _ _ | .nlisten _ | .naccept _
  | .nsend _ _ _ | .nrecv _ _ | .nrecvfrom _ _ _ | .nsendto _ _ _ _ _ | .nclose _ _ =>
      inferInstanceAs (Decidable (_ ∧ True))

theorem received_snoc (hist : History) (en : Event × Out) (a : Addr) :
    received (hist ++ [en]) a = received hist a ++ bytesOf (en.2.opsOf a) := by
  rw [received, opsOf, List.flatMap_append, List.flatMap_singleton, bytesOf_append]
  rfl

theorem arrivals_snoc (k : Peer) (hist : History) (en : Event × Out) :
    arrivals k (hist ++ [en]) = arrivals k hist ++ (en.1.arrival k).toList := by
  rw [arrivals, List.filterMap_append]
  cases h : en.1.arrival k <;> simp [arrivals, h]

/-! ## One step -/

section Step
variable {env : Env} {s s' : State} {e : Event} {m : Mbuf} {o : Out} {k : Peer} {a : Addr}
  {t t' : NgTcpStream} {ops : List StreamOp}

/-- The payload is stored if there is memory and room for it. -/
theorem EstablishedStep.bytesOf_eq (h : EstablishedStep env m t ops t')
    (hfrag : env.malloc (.recvFragment .psh) = true) (hdata : env.malloc (.recvData .psh) = true)
    (hroom : ∃ r ∈ t.rcvbuf, r.HasRoom) : bytesOf (coreOps ops) = m.pushed := by
  obtain ⟨finPut, hfinPut, hputs, -⟩ := h.puts
  have hfin : finPut.flatMap NgTcpFragment.payload = [] := by
    rw [List.flatMap_eq_nil_iff]
    intro f hf
    rw [NgTcpFragment.payload, (hfinPut f hf).2, List.take_zero]
  rw [bytesOf, hputs, List.flatMap_append, hfin, List.append_nil, Mbuf.pushed]
  split
  · obtain ⟨r, hr, hroom⟩ := hroom
    have hsome : (recvFragment env .psh (TcpHdr.setCksum m.l4hdr 0) (tcplenOf m.iphdr)).isSome =
        true := recvFragment_isSome_iff.mpr ⟨hfrag, fun _ => hdata⟩
    obtain ⟨f, hf⟩ := Option.isSome_iff_exists.mp hsome
    have hput : putItems (recvFragment env .psh (TcpHdr.setCksum m.l4hdr 0) (tcplenOf m.iphdr))
        t.rcvbuf = [f] := by
      rw [hf, hr, putItems, if_pos hroom]
    have hpayload := payload_of_put (hput ▸ List.mem_singleton_self f)
    rw [hput, List.flatMap_singleton, hpayload]
  · rfl

/-- The next expected number goes forward by the bytes delivered, and one for
    a FIN. -/
theorem EstablishedStep.rcvNxt_eq (h : EstablishedStep env m t ops t')
    (hlen : 0 ≤ m.segment.payloadlen) :
    t'.rcvNxt = t.rcvNxt + BitVec.ofNat 32 m.pushed.length + if m.segment.fin then 1 else 0 := by
  have hofInt : BitVec.ofInt 32 m.segment.payloadlen = BitVec.ofNat 32 m.payload.length := by
    rw [length_payload]
    conv_lhs => rw [← Int.toNat_of_nonneg hlen]
    exact BitVec.ofInt_natCast ..
  rw [h.fields, Mbuf.pushed]
  cases m.segment.psh with
  | false => rfl
  | true => simp only [if_true, hofInt]

/-- The segment of a connection is handled by its block. -/
theorem head?_of_arrival (h : pktProcess env s m = .ok (s', o)) (hm : m.Arrives k)
    (hf : s.Finds m a t) : (o.opsOf a).head? = some (.segment t.status m.segment) := by
  obtain ⟨hether, hproto, -, -⟩ := hm
  rw [pktProcess_of_tcp ⟨hether, hproto⟩] at h
  rcases ngTcpProcess_cases h with ⟨hnone, -⟩ | ⟨b, u, ops, hf', -, hops⟩
  · cases hnone.symm.trans hf
  · obtain ⟨rfl, rfl⟩ : b = a ∧ u = t := by
      simpa [State.Finds] using hf'.symm.trans hf
    simp [Out.opsOf, hops]

/-- The segments a block is found for are those of its peer, listeners
    aside. -/
theorem peer_of_finds (hf : s.Finds m a t) (hlisten : t.status ≠ .listen) :
    m.segment.peer = t.peer := by
  obtain ⟨hsip, hdip, hsport, hdport⟩ := hasKey_of_search (State.finds_iff.mp hf).2 hlisten
  simp [Segment.peer, NgTcpStream.peer, hsip, hdip, hsport, hdport]

theorem TcbChange.unseen {after : Option NgTcpStream}
    (h : TcbChange s (.packet env m) a ops (some t) after) (hf : ¬ s.Finds m a t) :
    ops = [] ∧ after = some t := by
  cases h with
  | idle => exact ⟨rfl, rfl⟩
  | seen he hf' | handshake he hf' | data he hf' | destroyed he hf' =>
      cases he
      exact absurd hf' hf
  | bound he | listening he | accepted he | sending he | reading he | closing he | closed he
  | output he => cases he

/-- A frame that is no segment of the connection does not reach its block. -/
theorem unseen_of_packet (h : pktProcess env s m = .ok (s', o)) (hm : ¬ m.Arrives k)
    (ht : s.tcb a = some t) (hpeer : t.peer = k) (hlisten : t.status ≠ .listen) :
    o.opsOf a = [] ∧ s'.tcb a = some t := by
  have hquiet (htcbs : s'.tcbSet = s.tcbSet) (hops : o.ops = []) :
      o.opsOf a = [] ∧ s'.tcb a = some t :=
    ⟨by simp [Out.opsOf, hops], by simpa only [State.tcb, htcbs] using ht⟩
  rcases pktProcess_cases h with ⟨-, h⟩ | ⟨htcp, h⟩ | ⟨-, -, rfl, rfl⟩
  · obtain ⟨htcbs, hops⟩ := udpProcess_tcbs h
    exact hquiet htcbs hops
  · have hchange : TcbChange s (.packet env m) a (o.opsOf a) (s.tcb a) (s'.tcb a) :=
      (tcbChange_of_process h a).of_arpt
    rw [ht] at hchange
    refine hchange.unseen fun hf => hm ⟨htcp.1, htcp.2, (State.finds_iff.mp hf).1, ?_⟩
    rw [peer_of_finds hf hlisten, hpeer]
  · exact hquiet (by split <;> rfl) rfl

theorem ReadCases.bytesOf_eq {len : Nat} {buf : List Byte} {ret : Int}
    (h : ReadCases t len t' ops buf ret) : bytesOf (coreOps ops) = [] := by
  cases h <;> rfl

theorem OutCases.bytesOf_eq (h : OutCases t t' ops) : bytesOf (coreOps ops) = [] := by
  cases h <;> rfl

/-- What the application and the output passes do with an open connection
    changes neither its status nor its number, and stores nothing. -/
theorem TcbChange.quiet (h : TcbChange s e a ops (some t) (some t'))
    (he : ∀ env m, e ≠ .packet env m) (hopen : LeavesOpen k a s e) (hpeer : t.peer = k) :
    t'.status = t.status ∧ t'.rcvNxt = t.rcvNxt ∧ bytesOf ops = [] := by
  cases h with
  | idle | accepted => exact ⟨rfl, rfl, rfl⟩
  | seen hev | handshake hev | data hev => exact absurd hev (he _ _)
  | bound hev hinfo =>
      subst hev
      subst hpeer
      simp only [LeavesOpen, hinfo] at hopen
      -- `LeavesOpen` rules out that the block is bound anew
      exact absurd ⟨rfl, rfl⟩ hopen
  | listening hev hinfo | closing hev hinfo =>
      subst hev
      simp only [LeavesOpen, hinfo, Option.map_some] at hopen
      exact absurd rfl hopen
  | sending hev hinfo hput =>
      obtain ⟨r, -, rfl, -⟩ := enqueueSnd_ok hput
      exact ⟨rfl, rfl, rfl⟩
  | reading hev hinfo hread =>
      have hcases := nrecvStream_ok hread
      rw [hcases.fields]
      exact ⟨rfl, rfl, hcases.bytesOf_eq⟩
  | output hev =>
      have hcases := tcpOutStream_cases s.arpt t
      rw [hcases.fields]
      exact ⟨rfl, rfl, hcases.bytesOf_eq⟩

/-- Whatever is no segment of the connection leaves it as it is. -/
theorem quiet_of_no_arrival (h : step s e = .ok (s', o)) (he : e.arrival k = none)
    (hopen : LeavesOpen k a s e) (hconn : s.connection k = some (a, t))
    (hlisten : t.status ≠ .listen) (hconn' : s'.connection k = some (a, t'))
    (hchange : TcbChange s e a (o.opsOf a) (some t) (some t')) :
    t'.status = t.status ∧ t'.rcvNxt = t.rcvNxt ∧ bytesOf (o.opsOf a) = [] := by
  obtain ⟨ht, hpeer⟩ := tcb_of_connection hconn
  cases e with
  | packet env m =>
      have hm : ¬ m.Arrives k := fun hm => by
        cases he.symm.trans (arrival_eq_some_iff.mpr ⟨env, rfl, hm⟩)
      obtain ⟨hops, ht'⟩ := unseen_of_packet h hm ht hpeer hlisten
      obtain rfl := Option.some.inj ((tcb_of_connection hconn').1.symm.trans ht')
      rw [hops]
      exact ⟨rfl, rfl, rfl⟩
  | udpOut | tcpOut | nsocket | nbind | nlisten | naccept | nsend | nrecv | nrecvfrom | nsendto
  | nclose => exact hchange.quiet (by simp) hopen hpeer

/-- The block mirrors the receiver, which has delivered what was stored. -/
structure Mirrors (r : Receiver) (t : NgTcpStream) (bytes : List Byte) : Prop where
  status : t.status = r.status
  next : t.rcvNxt = r.next
  bytes : bytes = r.bytes

/-- On a segment of the connection the block does what the receiver does. -/
theorem mirrors_of_arrival {r : Receiver} {bytes : List Byte}
    (h : TcbChange s (.packet env m) a ops (some t) (some t'))
    (hseen : ops.head? = some (.segment t.status m.segment)) (hmirrors : Mirrors r t bytes)
    (hlen : 0 ≤ m.segment.payloadlen)
    (hfrag : env.malloc (.recvFragment .psh) = true) (hdata : env.malloc (.recvData .psh) = true)
    (hroom : ∃ r ∈ t.rcvbuf, r.HasRoom) : Mirrors (r.accept m) t' (bytes ++ bytesOf ops) := by
  obtain ⟨hstatus, hnext, rfl⟩ := hmirrors
  cases h with
  | idle => cases hseen
  | seen he hf hest hsyn hlast =>
      cases he
      have hbytes : bytesOf [.segment t.status m.segment] = [] := rfl
      rw [hbytes, List.append_nil, Receiver.accept]
      split
      · rename_i hr
        -- a segment without ACK in SYN_RCVD
        have hack : ¬ m.segment.ack = true := fun hack => hsyn ⟨hstatus.trans hr, hack⟩
        exact ⟨by rw [hstatus, hr, if_neg hack], hnext, rfl⟩
      · rename_i hr
        exact absurd (hstatus.trans hr) hest
      · exact ⟨hstatus, hnext, rfl⟩
  | handshake he hf hst hack =>
      cases he
      have hr : r.status = .synRcvd := hstatus.symm.trans hst
      have hbytes : bytesOf [.segment .synRcvd m.segment] = [] := rfl
      -- the segment that completes the handshake brings no data
      rw [hbytes, List.append_nil, Receiver.accept]
      simp only [hr, hack, if_true]
      exact ⟨rfl, hnext, rfl⟩
  | data he hf hst hest =>
      cases he
      have hstep := ngTcpHandleEstablished_ok hest
      have hr : r.status = .established := hstatus.symm.trans hst
      have hbytes := hstep.bytesOf_eq hfrag hdata hroom
      rw [Receiver.accept]
      simp only [hr]
      refine ⟨?_, ?_, ?_⟩
      · rw [hstep.fields, hst]
      · rw [hstep.rcvNxt_eq hlen, hnext]
      · rw [← hbytes]
        rfl
  | bound he | listening he | accepted he | sending he | reading he | closing he | output he =>
      cases he

/-! ## Segments are processed -/

/-- The block has both its rings. -/
def NgTcpStream.HasRings (t : NgTcpStream) : Prop :=
  t.rcvbuf.isSome = true ∧ t.sndbuf.isSome = true

theorem RingPut.isSome {op : NgTcpFragment → Bool → StreamOp} {f? : Option NgTcpFragment}
    {ring ring' : Option (RteRing NgTcpFragment)} (h : RingPut op f? ring ring' ops)
    (hring : ring.isSome = true) : ring'.isSome = true := by
  cases h with
  | nothing => exact hring
  | put f r => rfl

theorem StoredAndAcked.hasRings {b : SegBranch} {tcphdr : Ptr} {len : Int} {delta : BitVec 32}
    (h : StoredAndAcked env b tcphdr len delta t ops t') (ht : t.HasRings) : t'.HasRings := by
  obtain ⟨put, ack, -, hrcv, hsnd⟩ := h.rings
  exact ⟨hrcv.isSome ht.1, hsnd.isSome ht.2⟩

theorem storeAndAck_returns (env : Env) (b : SegBranch) (tcphdr : Ptr) (len : Int)
    (delta : BitVec 32) (ht : t.HasRings) :
    ∃ t' ops, storeAndAck env b t tcphdr len delta = .ok (t', ops) := by
  obtain ⟨rcv, hrcv⟩ := Option.isSome_iff_exists.mp ht.1
  obtain ⟨snd, hsnd⟩ := Option.isSome_iff_exists.mp ht.2
  have hack : ∀ u : NgTcpStream, u.sndbuf = some snd →
      ∃ u' ops ret, ngTcpSendAckpkt env b u tcphdr = .ok (u', ops, ret) := by
    intro u hu
    unfold ngTcpSendAckpkt NgTcpStream.enqueueSnd
    split
    · simp only [hu]
      exact ⟨_, _, _, rfl⟩
    · exact ⟨_, _, _, rfl⟩
  -- storing the payload leaves the send ring for the acknowledgement
  have hput : ∃ u ops ret, ngTcpEnqueueRecvbuffer env b t tcphdr len = .ok (u, ops, ret) ∧
      u.sndbuf = some snd := by
    unfold ngTcpEnqueueRecvbuffer NgTcpStream.enqueueRcv
    cases recvFragment env b tcphdr len with
    | none => exact ⟨_, _, _, rfl, hsnd⟩
    | some f =>
        simp only [hrcv]
        exact ⟨_, _, _, rfl, hsnd⟩
  obtain ⟨u, ops₁, ret₁, hput, hu⟩ := hput
  obtain ⟨u', ops₂, ret₂, hack⟩ := hack
    { u with rcvNxt := u.rcvNxt + delta, sndNxt := ntohl (TcpHdr.recvAck tcphdr) } hu
  exact ⟨u', ops₁ ++ ops₂, by simp [storeAndAck, hput, hack, bind, Except.bind, pure, Except.pure]⟩

theorem ngTcpHandleEstablished_returns (env : Env) (tcphdr : Ptr) (tcplen : Int)
    (ht : t.HasRings) : ∃ t' ops, ngTcpHandleEstablished env t tcphdr tcplen = .ok (t', ops) := by
  have hpsh : ∃ u ops₁,
      ifFlag tcphdr RTE_TCP_PSH_FLAG (handleEstablishedPsh env · tcphdr tcplen) t =
        .ok (u, ops₁) ∧ u.HasRings := by
    unfold ifFlag
    split
    · obtain ⟨u, ops₁, hu⟩ := storeAndAck_returns env .psh tcphdr tcplen _ ht
      exact ⟨u, ops₁, hu, (storeAndAck_ok hu).hasRings ht⟩
    · exact ⟨t, [], rfl, ht⟩
  obtain ⟨u, ops₁, hu, hrings⟩ := hpsh
  have hfin : ∃ u' ops₂, ifFlag tcphdr RTE_TCP_FIN_FLAG (handleEstablishedFin env · tcphdr) u =
      .ok (u', ops₂) := by
    unfold ifFlag
    split
    · exact storeAndAck_returns env .fin tcphdr _ _ hrings
    · exact ⟨u, [], rfl⟩
  obtain ⟨u', ops₂, hu'⟩ := hfin
  exact ⟨u', ops₁ ++ ops₂, by
    simp [ngTcpHandleEstablished, hu, hu', bind, Except.bind, pure, Except.pure]⟩

end Step

/-! ## Whole runs -/

/-- Every run that serves an open connection makes its block the receiver of
    the segments that arrived. -/
theorem mirrors_of_run {k : Peer} {a : Addr} {s₀ s : State} {t₀ : NgTcpStream} {hist : History}
    (hconn : s₀.connection k = some (a, t₀)) (hopen : t₀.status.isOpen = true)
    (hrun : GuardedRun (Serves k a) s₀ hist s) :
    ∃ t, s.connection k = some (a, t) ∧
      Mirrors ((arrivals k hist).foldl Receiver.accept
        { status := t₀.status, bytes := [], next := t₀.rcvNxt }) t (received hist a) ∧
      t.status.isOpen = true := by
  induction hrun with
  | start => exact ⟨t₀, hconn, ⟨rfl, rfl, rfl⟩, hopen⟩
  | @step hist s e o s' _ hR ih =>
      obtain ⟨t, hconn, hmirrors, hopen⟩ := ih
      obtain ⟨⟨hleaves, hserves⟩, hstep⟩ := hR
      -- an open block is neither a listener nor about to be destroyed
      have hlisten : t.status ≠ .listen := fun h => by rw [h] at hopen; cases hopen
      have hlast : t.status ≠ .lastAck := fun h => by rw [h] at hopen; cases hopen
      obtain ⟨ht, hpeer⟩ := tcb_of_connection hconn
      obtain ⟨t', hconn', hchange⟩ := connection_of_step hconn hstep hleaves hlisten hlast
      refine ⟨t', hconn', ?_⟩
      rw [received_snoc, arrivals_snoc, List.foldl_append]
      cases harrival : e.arrival k with
      | some m =>
          obtain ⟨env, rfl, hm⟩ := arrival_eq_some_iff.mp harrival
          obtain ⟨hlen, hfrag, hdata, hroom⟩ := hserves hm
          have hseen := head?_of_arrival hstep hm (finds_of_connection hconn hm.2.2.1 hm.2.2.2)
          -- the segment is the connection's: the receiver takes it too
          have hnew := mirrors_of_arrival hchange hseen hmirrors hlen hfrag hdata (hroom t ht)
          have hopen' := Receiver.isOpen_accept (hmirrors.status ▸ hopen) m
          exact ⟨hnew, by rw [hnew.status]; exact hopen'⟩
      | none =>
          obtain ⟨hstatus, hnext, hbytes⟩ :=
            quiet_of_no_arrival hstep harrival hleaves hconn hlisten hconn' hchange
          rw [hbytes, List.append_nil, hstatus]
          exact ⟨⟨hstatus.trans hmirrors.status, hnext.trans hmirrors.next, hmirrors.bytes⟩, hopen⟩

/-! ## What a sequence of segments delivers -/

/-- The segments up to the first with FIN. -/
def untilFin : List Mbuf → List Mbuf
  | [] => []
  | m :: ms => if m.segment.fin then [m] else m :: untilFin ms

/-- The segments behind the first with ACK. -/
def afterAck : List Mbuf → List Mbuf
  | [] => []
  | m :: ms => if m.segment.ack then ms else afterAck ms

/-- A FIN is among the segments. -/
def finSent (ms : List Mbuf) : Bool := ms.any (·.segment.fin)

/-- What the segments deliver in ESTABLISHED. -/
def delivered (ms : List Mbuf) : List Byte := (untilFin ms).flatMap Mbuf.pushed

theorem mem_of_mem_untilFin {m : Mbuf} {ms : List Mbuf} (h : m ∈ untilFin ms) : m ∈ ms := by
  induction ms with
  | nil => exact h
  | cons x ms ih =>
      unfold untilFin at h
      split at h
      · rw [List.mem_singleton.mp h]
        exact List.mem_cons_self ..
      · rcases List.mem_cons.mp h with rfl | h
        · exact List.mem_cons_self ..
        · exact List.mem_cons_of_mem _ (ih h)

/-- After the FIN nothing is received. -/
theorem foldl_accept_closeWait {r : Receiver} (h : r.status = .closeWait) (ms : List Mbuf) :
    ms.foldl Receiver.accept r = r := by
  induction ms with
  | nil => rfl
  | cons m ms ih =>
      have haccept : r.accept m = r := by simp [Receiver.accept, h]
      rw [List.foldl_cons, haccept, ih]

theorem foldl_accept_established (ms : List Mbuf) (bytes : List Byte) (next : BitVec 32) :
    ms.foldl Receiver.accept { status := .established, bytes := bytes, next := next } =
      { status := if finSent ms then .closeWait else .established
        bytes := bytes ++ delivered ms
        next := next + BitVec.ofNat 32 (delivered ms).length + if finSent ms then 1 else 0 } := by
  induction ms generalizing bytes next with
  | nil => simp [finSent, delivered, untilFin]
  | cons m ms ih =>
      rw [List.foldl_cons]
      cases hfin : m.segment.fin with
      | true =>
          -- nothing after a FIN counts
          rw [foldl_accept_closeWait (by simp [Receiver.accept, hfin])]
          simp [Receiver.accept, finSent, delivered, untilFin, hfin]
      | false =>
          have haccept : Receiver.accept
              { status := .established, bytes := bytes, next := next } m =
              { status := .established, bytes := bytes ++ m.pushed
                next := next + BitVec.ofNat 32 m.pushed.length } := by
            simp [Receiver.accept, hfin]
          have hdelivered : delivered (m :: ms) = m.pushed ++ delivered ms := by
            simp [delivered, untilFin, hfin]
          have hsent : finSent (m :: ms) = finSent ms := by simp [finSent, hfin]
          rw [haccept, ih, hdelivered, hsent, List.append_assoc, List.length_append,
            BitVec.ofNat_add, BitVec.add_assoc next]

/-- The segment that completes the handshake delivers nothing. -/
theorem foldl_accept_synRcvd (ms : List Mbuf) (bytes : List Byte) (next : BitVec 32) :
    ∃ status, ms.foldl Receiver.accept { status := .synRcvd, bytes := bytes, next := next } =
      { status := status
        bytes := bytes ++ delivered (afterAck ms)
        next := next + BitVec.ofNat 32 (delivered (afterAck ms)).length +
          if finSent (afterAck ms) then 1 else 0 } := by
  induction ms with
  | nil => exact ⟨.synRcvd, by simp [afterAck, delivered, untilFin, finSent]⟩
  | cons m ms ih =>
      rw [List.foldl_cons]
      cases hack : m.segment.ack with
      | true =>
          have haccept : Receiver.accept { status := .synRcvd, bytes := bytes, next := next } m =
              { status := .established, bytes := bytes, next := next } := by
            simp [Receiver.accept, hack]
          have hafter : afterAck (m :: ms) = ms := by simp [afterAck, hack]
          rw [haccept, hafter]
          exact ⟨_, foldl_accept_established ms bytes next⟩
      | false =>
          have haccept : Receiver.accept { status := .synRcvd, bytes := bytes, next := next } m =
              { status := .synRcvd, bytes := bytes, next := next } := by
            simp [Receiver.accept, hack]
          have hafter : afterAck (m :: ms) = afterAck ms := by simp [afterAck, hack]
          rw [haccept, hafter]
          exact ih

/-! ## Segments in the order of the stream -/

/-- The segments carry `stream` from offset `off` on, each the bytes that
    follow those before it; number `base` is that of offset zero. -/
def InOrder (stream : List Byte) (base : BitVec 32) : Nat → List Mbuf → Prop
  | _, [] => True
  | off, m :: ms =>
      m.segment.sentSeq = base + BitVec.ofNat 32 off ∧ m.payload <+: stream.drop off ∧
        InOrder stream base (off + m.payload.length) ms

instance InOrder.decidable (stream : List Byte) (base : BitVec 32) :
    ∀ off ms, Decidable (InOrder stream base off ms)
  | _, [] => isTrue trivial
  | off, m :: ms =>
      have := InOrder.decidable stream base (off + m.payload.length) ms
      inferInstanceAs (Decidable (_ ∧ _ ∧ _))

theorem prefix_of_inOrder {stream : List Byte} {base : BitVec 32} {off : Nat} {ms : List Mbuf}
    (h : InOrder stream base off ms) : ms.flatMap Mbuf.payload <+: stream.drop off := by
  induction ms generalizing off with
  | nil => exact List.nil_prefix
  | cons m ms ih =>
      obtain ⟨-, ⟨rest, hrest⟩, hms⟩ := h
      have hdrop : stream.drop (off + m.payload.length) = rest := by
        rw [← List.drop_drop, ← hrest, List.drop_left]
      have hprefix := ih hms
      rw [hdrop] at hprefix
      rw [List.flatMap_cons, ← hrest]
      exact (List.prefix_append_right_inj _).mpr hprefix

theorem delivered_of_pushed {ms : List Mbuf}
    (hpsh : ∀ m ∈ ms, m.payload ≠ [] → m.segment.psh = true) :
    delivered ms = (untilFin ms).flatMap Mbuf.payload := by
  refine List.flatMap_congr fun m hm => ?_
  rw [Mbuf.pushed]
  by_cases hflag : m.segment.psh = true
  · rw [if_pos hflag]
  · rw [if_neg hflag]
    by_contra hne
    exact hflag (hpsh m (mem_of_mem_untilFin hm) (Ne.symm hne))

/-! ## What a connection in ESTABLISHED receives -/

/-- The peer of `connectPeer`. -/
def connectingPeer : Peer :=
  { sip := 0x0200000A, dip := 0x0100000A, sport := htons 40000, dport := htons 9999 }

/-- `es₀` leads to a connection in the given status, `es` serve it, and `Q`
    holds of its block before, the run and the state after. -/
def receives (status : NgTcpStatus) (es₀ es : List Event)
    (Q : Addr → NgTcpStream → History → State → Bool) : Bool :=
  runsTo (State.init []) es₀ fun _ s₀ =>
    (s₀.connection connectingPeer).any fun found => found.2.status == status &&
      guardedRunsTo (Serves connectingPeer found.1) s₀ es (Q found.1 found.2)

theorem exists_of_receives {status : NgTcpStatus} {es₀ es : List Event}
    {Q : Addr → NgTcpStream → History → State → Bool} (h : receives status es₀ es Q = true) :
    ∃ hist₀ s₀ a t₀ hist s, SystemRun (State.init []) hist₀ s₀ ∧
      s₀.connection connectingPeer = some (a, t₀) ∧ t₀.status = status ∧
      GuardedRun (Serves connectingPeer a) s₀ hist s ∧ Q a t₀ hist s = true := by
  obtain ⟨hist₀, s₀, hrun₀, h⟩ := run_of_runsTo h
  obtain ⟨⟨a, t₀⟩, hconn, h⟩ := (Option.any_eq_true _ _).mp h
  rw [Bool.and_eq_true, beq_iff_eq] at h
  obtain ⟨hist, s, hrun, hQ⟩ := run_of_guardedRunsTo h.2
  exact ⟨hist₀, s₀, a, t₀, hist, s, hrun₀, hconn, h.1, hrun, hQ⟩

section Runs
variable {k : Peer} {a : Addr} {s₀ s : State} {t₀ : NgTcpStream} {hist : History}

/-- In every run that serves a connection in ESTABLISHED, in which its
    segments arrive in any order and any number of times, all with PSH, what
    is put on `rcvbuf` is their payloads in the order of arrival, up to the
    first FIN, and `rcv_nxt` counts these bytes.  They are a prefix of the
    peer's stream if the segments arrive in order and once. -/
theorem received_in_arrival_order (hconn : s₀.connection k = some (a, t₀))
    (hst : t₀.status = .established) (hrun : GuardedRun (Serves k a) s₀ hist s)
    (hpsh : ∀ m ∈ arrivals k hist, m.segment.psh = true) :
    ∃ t, s.connection k = some (a, t) ∧
      received hist a = (untilFin (arrivals k hist)).flatMap Mbuf.payload ∧
      t.rcvNxt = t₀.rcvNxt + BitVec.ofNat 32 (received hist a).length +
        (if finSent (arrivals k hist) then 1 else 0) ∧
      ∀ stream, InOrder stream t₀.rcvNxt 0 (untilFin (arrivals k hist)) →
        received hist a <+: stream := by
  obtain ⟨t, hconn', hmirrors, -⟩ := mirrors_of_run hconn (by rw [hst]; rfl) hrun
  rw [hst, foldl_accept_established] at hmirrors
  have hbytes : received hist a = (untilFin (arrivals k hist)).flatMap Mbuf.payload :=
    hmirrors.bytes.trans (delivered_of_pushed fun m hm _ => hpsh m hm)
  refine ⟨t, hconn', hbytes, ?_, fun stream hstream => ?_⟩
  · rw [hmirrors.next, hmirrors.bytes]
    rfl
  · rw [hbytes]
    exact prefix_of_inOrder hstream

/-- Three bytes in two segments, read in between. -/
theorem received_in_arrival_order_twice : ∃ (hist₀ hist : History) (s₀ s : State) (a : Addr)
    (t₀ t : NgTcpStream), SystemRun (State.init []) hist₀ s₀ ∧
    s₀.connection connectingPeer = some (a, t₀) ∧ t₀.status = .established ∧
    GuardedRun (Serves connectingPeer a) s₀ hist s ∧
    s.connection connectingPeer = some (a, t) ∧
    received hist a <+: [1, 2, 3, 4] ∧ received hist a = [1, 2, 3] := by
  have hrun : receives .established (openServer ++ connectPeer)
      [.packet .plain (peerSegment (RTE_TCP_PSH_FLAG ||| RTE_TCP_ACK_FLAG) 501 1001 [1, 2]),
       .naccept 3, .nrecv 4 1024, .tcpOut .plain,
       .packet .plain (peerSegment (RTE_TCP_PSH_FLAG ||| RTE_TCP_ACK_FLAG) 503 1001 [3])]
      (fun a t₀ hist _ => decide ((∀ m ∈ arrivals connectingPeer hist, m.segment.psh = true) ∧
        InOrder [1, 2, 3, 4] t₀.rcvNxt 0 (untilFin (arrivals connectingPeer hist)) ∧
        received hist a = [1, 2, 3])) = true := by
    decide +kernel
  obtain ⟨hist₀, s₀, a, t₀, hist, s, hrun₀, hconn, hst, hrun, hQ⟩ := exists_of_receives hrun
  obtain ⟨hpsh, horder, hreceived⟩ := of_decide_eq_true hQ
  obtain ⟨t, hconn', -, -, hprefix⟩ := received_in_arrival_order hconn hst hrun hpsh
  exact ⟨hist₀, hist, s₀, s, a, t₀, t, hrun₀, hconn, hst, hrun, hconn', hprefix _ horder,
    hreceived⟩

/-- A segment of the one-byte stream that arrives twice is put on `rcvbuf`
    twice. -/
theorem segment_received_twice : ∃ (hist₀ hist : History) (s₀ s : State) (a : Addr)
    (t₀ : NgTcpStream), SystemRun (State.init []) hist₀ s₀ ∧
    s₀.connection connectingPeer = some (a, t₀) ∧ t₀.status = .established ∧
    GuardedRun (Serves connectingPeer a) s₀ hist s ∧
    (∀ m ∈ arrivals connectingPeer hist, m.segment.psh = true ∧ m.segment.ack = true ∧
      m.segment.sentSeq = t₀.rcvNxt ∧ m.payload = [63]) ∧
    received hist a = [63, 63] ∧ ¬ received hist a <+: [63] := by
  have hrun : receives .established (openServer ++ connectPeer)
      [.packet .plain (peerSegment (RTE_TCP_PSH_FLAG ||| RTE_TCP_ACK_FLAG) 501 1001 [63]),
       .packet .plain (peerSegment (RTE_TCP_PSH_FLAG ||| RTE_TCP_ACK_FLAG) 501 1001 [63])]
      (fun a t₀ hist _ => decide ((∀ m ∈ arrivals connectingPeer hist, m.segment.psh = true ∧
        m.segment.ack = true ∧ m.segment.sentSeq = t₀.rcvNxt ∧ m.payload = [63]) ∧
        received hist a = [63, 63])) = true := by
    decide +kernel
  obtain ⟨hist₀, s₀, a, t₀, hist, s, hrun₀, hconn, hst, hrun, hQ⟩ := exists_of_receives hrun
  obtain ⟨hsegs, hreceived⟩ := of_decide_eq_true hQ
  refine ⟨hist₀, hist, s₀, s, a, t₀, hrun₀, hconn, hst, hrun, hsegs, hreceived, ?_⟩
  rw [hreceived]
  decide

/-! ## Ways of cutting the stream -/

/-- The peer's segments from the handshake on carry `bytes`: the first is its
    bare acknowledgement, all that carry data have PSH, and a FIN comes last
    if it comes. -/
def CleanCut (bytes : List Byte) (fin : Bool) : List Mbuf → Prop
  | [] => False
  | first :: rest =>
      (first.segment.ack = true ∧ first.payload = [] ∧ first.segment.fin = false) ∧
      (∀ m ∈ rest, m.payload ≠ [] → m.segment.psh = true) ∧
      (∀ m ∈ rest.dropLast, m.segment.fin = false) ∧
      rest.flatMap Mbuf.payload = bytes ∧ finSent rest = fin

instance (bytes : List Byte) (fin : Bool) : (ms : List Mbuf) → Decidable (CleanCut bytes fin ms)
  | [] => .isFalse not_false
  | _ :: _ => inferInstanceAs (Decidable ((_ ∧ _ ∧ _) ∧ _ ∧ _ ∧ _ ∧ _))

theorem untilFin_eq_self {ms : List Mbuf} (h : ∀ m ∈ ms.dropLast, m.segment.fin = false) :
    untilFin ms = ms := by
  induction ms with
  | nil => rfl
  | cons m ms ih =>
      cases ms with
      | nil => simp [untilFin]
      | cons x ms =>
          rw [List.dropLast_cons_cons, List.forall_mem_cons] at h
          rw [untilFin, h.1, if_neg Bool.false_ne_true, ih h.2]

theorem delivered_of_cleanCut {bytes : List Byte} {fin : Bool} {ms : List Mbuf}
    (h : CleanCut bytes fin ms) :
    delivered (afterAck ms) = bytes ∧ finSent (afterAck ms) = fin := by
  cases ms with
  | nil => exact h.elim
  | cons first rest =>
      obtain ⟨⟨hack, -, -⟩, hpsh, hlast, hbytes, hfin⟩ := h
      rw [afterAck, if_pos hack, delivered_of_pushed hpsh, untilFin_eq_self hlast]
      exact ⟨hbytes, hfin⟩

/-- In every run that serves a connection from SYN_RCVD on, what is put on
    `rcvbuf` is the payloads of the segments with PSH that come behind the
    first ACK, up to the first FIN, and `rcv_nxt` counts these bytes and the
    FIN.  Clean cuts of the same bytes are therefore received alike. -/
theorem reception_of_segments (hconn : s₀.connection k = some (a, t₀))
    (hst : t₀.status = .synRcvd) (hrun : GuardedRun (Serves k a) s₀ hist s) :
    ∃ t, s.connection k = some (a, t) ∧
      received hist a = delivered (afterAck (arrivals k hist)) ∧
      t.rcvNxt = t₀.rcvNxt + BitVec.ofNat 32 (received hist a).length +
        (if finSent (afterAck (arrivals k hist)) then 1 else 0) ∧
      ∀ bytes fin, CleanCut bytes fin (arrivals k hist) → received hist a = bytes ∧
        t.rcvNxt = t₀.rcvNxt + BitVec.ofNat 32 bytes.length + if fin then 1 else 0 := by
  obtain ⟨t, hconn', hmirrors, -⟩ := mirrors_of_run hconn (by rw [hst]; rfl) hrun
  obtain ⟨status, hfold⟩ := foldl_accept_synRcvd (arrivals k hist) [] t₀.rcvNxt
  rw [hst, hfold] at hmirrors
  have hbytes : received hist a = delivered (afterAck (arrivals k hist)) := hmirrors.bytes
  refine ⟨t, hconn', hbytes, ?_, fun bytes fin hcut => ?_⟩
  · rw [hmirrors.next, hbytes]
  · obtain ⟨rfl, rfl⟩ := delivered_of_cleanCut hcut
    exact ⟨hbytes, hmirrors.next⟩

/-- Three bytes and a FIN behind a bare acknowledgement. -/
theorem reception_of_segments_cut : ∃ (hist₀ hist : History) (s₀ s : State) (a : Addr)
    (t₀ t : NgTcpStream), SystemRun (State.init []) hist₀ s₀ ∧
    s₀.connection connectingPeer = some (a, t₀) ∧ t₀.status = .synRcvd ∧
    GuardedRun (Serves connectingPeer a) s₀ hist s ∧
    s.connection connectingPeer = some (a, t) ∧
    CleanCut [1, 2, 3] true (arrivals connectingPeer hist) ∧ received hist a = [1, 2, 3] ∧
    t.rcvNxt = 505 := by
  have hrun : receives .synRcvd
      (openServer ++ [.packet .plain (peerSegment RTE_TCP_SYN_FLAG 500 0 [])])
      [.packet .plain (peerSegment RTE_TCP_ACK_FLAG 501 1001 []),
       .packet .plain (peerSegment (RTE_TCP_PSH_FLAG ||| RTE_TCP_ACK_FLAG) 501 1001 [1, 2]),
       .packet .plain (peerSegment
        (RTE_TCP_PSH_FLAG ||| RTE_TCP_FIN_FLAG ||| RTE_TCP_ACK_FLAG) 503 1001 [3])]
      (fun _ t₀ hist _ => decide (t₀.rcvNxt = 501 ∧
        CleanCut [1, 2, 3] true (arrivals connectingPeer hist))) = true := by
    decide +kernel
  obtain ⟨hist₀, s₀, a, t₀, hist, s, hrun₀, hconn, hst, hrun, hQ⟩ := exists_of_receives hrun
  obtain ⟨hnext, hcut⟩ := of_decide_eq_true hQ
  obtain ⟨t, hconn', -, -, hall⟩ := reception_of_segments hconn hst hrun
  obtain ⟨hreceived, hrcv⟩ := hall _ _ hcut
  refine ⟨hist₀, hist, s₀, s, a, t₀, t, hrun₀, hconn, hst, hrun, hconn', hcut, hreceived, ?_⟩
  rw [hrcv, hnext]
  decide

/-- Of three bytes sent in order, the one on the third segment of the
    handshake and the one sent without PSH are lost. -/
theorem reception_depends_on_cut : ∃ (hist₀ hist : History) (s₀ s : State) (a : Addr)
    (t₀ : NgTcpStream), SystemRun (State.init []) hist₀ s₀ ∧
    s₀.connection connectingPeer = some (a, t₀) ∧ t₀.status = .synRcvd ∧
    GuardedRun (Serves connectingPeer a) s₀ hist s ∧
    InOrder [1, 2, 3] t₀.rcvNxt 0 (arrivals connectingPeer hist) ∧
    (arrivals connectingPeer hist).flatMap Mbuf.payload = [1, 2, 3] ∧
    received hist a = [3] ∧
    (s.connection connectingPeer).map (·.2.rcvNxt) = some (t₀.rcvNxt + 1) := by
  have hrun : receives .synRcvd
      (openServer ++ [.packet .plain (peerSegment RTE_TCP_SYN_FLAG 500 0 [])])
      [.packet .plain (peerSegment RTE_TCP_ACK_FLAG 501 1001 [1]),
       .packet .plain (peerSegment RTE_TCP_ACK_FLAG 502 1001 [2]),
       .packet .plain (peerSegment (RTE_TCP_PSH_FLAG ||| RTE_TCP_ACK_FLAG) 503 1001 [3])]
      (fun a t₀ hist s => decide (InOrder [1, 2, 3] t₀.rcvNxt 0 (arrivals connectingPeer hist) ∧
        (arrivals connectingPeer hist).flatMap Mbuf.payload = [1, 2, 3] ∧
        received hist a = [3] ∧
        (s.connection connectingPeer).map (·.2.rcvNxt) = some (t₀.rcvNxt + 1))) = true := by
    decide +kernel
  obtain ⟨hist₀, s₀, a, t₀, hist, s, hrun₀, hconn, hst, hrun, hQ⟩ := exists_of_receives hrun
  obtain ⟨horder, hall, hreceived, hnext⟩ := of_decide_eq_true hQ
  exact ⟨hist₀, hist, s₀, s, a, t₀, hrun₀, hconn, hst, hrun, horder, hall, hreceived, hnext⟩

end Runs

end LinuxLearning.Ustack
