/-
  LinuxLearning.Ustack.EndToEnd

  Datagrams from application to application, over a network of these stacks
  and of machines of other kinds.

  Every message that `nrecvfrom` answers was given to `nsendto`, at a stack
  that had the source address, for the address of the socket, or was sent by
  a stranger; and it is answered at most as often as it was sent.  This is
  about the payloads: `nrecvfrom` returns eight bytes more behind each, which
  nobody sent.  It holds for datagrams that fit into a buffer, for sockets
  that are bound before anything arrives, and for reads that take the oldest
  datagram whole.
-/

import LinuxLearning.Lib.TableTotal
import LinuxLearning.Ustack.FrameSize
import LinuxLearning.Ustack.Network

namespace LinuxLearning.Ustack

open Lib

variable {env : Env} {s s' : State} {e : Event} {m : Mbuf} {o : Out} {a : Addr}
  {host host' : Localhost}

/-! ## Messages -/

/-- A datagram as applications see it. -/
structure Message where
  sip : BitVec 32
  dip : BitVec 32
  sport : BitVec 16
  dport : BitVec 16
  bytes : List Byte
deriving DecidableEq, Repr

/-- The message in an offload. -/
def Offload.message (ol : Offload) : Message where
  sip := ol.sip
  dip := ol.dip
  sport := ol.sport
  dport := ol.dport
  bytes := ol.data

/-- The message in a frame, if it is one of UDP. -/
def Mbuf.messages (m : Mbuf) : Multiset Message := if m.IsUdp then {m.offload.message} else 0

/-- The message a frame is built from. -/
def Frame.messages : Frame → Multiset Message
  | .udp _ _ ol => {ol.message}
  | .arpRequest _ _ | .tcp _ _ _ _ _ => 0

/-- The messages in a list of offloads. -/
def messagesOf (ols : List Offload) : Multiset Message := ols.map Offload.message

/-- The messages on the two rings of a socket. -/
def Localhost.messages (host : Localhost) : Multiset Message :=
  messagesOf host.sndItems + messagesOf host.rcvItems

/-- The messages a stack holds. -/
def State.messages (s : State) : Multiset Message := s.lhost.total Localhost.messages

/-- The UDP socket that a descriptor names. -/
def State.udpHost (s : State) (fd : Int) : Option Localhost :=
  match getHostinfoFromfd s fd with
  | some (.localhost _ host) => some host
  | _ => none

/-- The message of a call of `nsendto` that was accepted. -/
def givenBy (s : State) (e : Event) (o : Out) : Multiset Message :=
  match e with
  | .nsendto _ fd buf ip port =>
      match s.udpHost fd with
      | some host =>
          if o.ret = buf.length then {⟨host.localip, ip, host.localport, port, buf⟩} else 0
      | none => 0
  | _ => 0

/-- The message a call of `nrecvfrom` answered, at the address of its socket;
    the eight bytes behind the payload are taken off. -/
def answeredBy (s : State) (e : Event) (o : Out) : Multiset Message :=
  match e with
  | .nrecvfrom _ fd _ =>
      match s.udpHost fd, o.peer with
      | some host, some (sip, sport) =>
          {⟨sip, host.localip, sport, host.localport, o.buf.take (o.ret.toNat - sizeofUdpHdr)⟩}
      | _, _ => 0
  | _ => 0

theorem udpHost_of_hostinfo {fd : Int} (h : getHostinfoFromfd s fd = some (.localhost a host)) :
    s.udpHost fd = some host := by
  simp only [State.udpHost, h]

@[simp] theorem messagesOf_nil : messagesOf [] = 0 := rfl

@[simp] theorem messagesOf_cons (ol : Offload) (ols : List Offload) :
    messagesOf (ol :: ols) = {ol.message} + messagesOf ols := by
  simp [messagesOf]

@[simp] theorem messagesOf_append (ols more : List Offload) :
    messagesOf (ols ++ more) = messagesOf ols + messagesOf more := by
  simp [messagesOf]

/-- A ring holds no more than it did, and what was put on it. -/
theorem messagesOf_mpEnqueue_le (r : RteRing Offload) (ol : Offload) :
    messagesOf (r.mpEnqueue ol).1.items ≤ messagesOf r.items + {ol.message} := by
  rw [RteRing.items_mpEnqueue, messagesOf_append]
  apply add_le_add_right
  split
  · simp
  · simp

/-! ## Orderly applications -/

/-- The longest datagram that `ng_encode_udp_apppkt` copies into the data room
    of a buffer behind the headers, with the eight bytes it copies too many. -/
def maxDatagram : Nat := RTE_MBUF_DEFAULT_DATAROOM - (42 + sizeofUdpHdr)

theorem maxDatagram_eq : maxDatagram = 1998 := rfl

/-- The longest data for which the frame of `ng_tcp_pkt` fits. -/
def maxSegment : Nat := RTE_MBUF_DEFAULT_DATAROOM - 54

/-- What applications have to mind: the size of what they send, binding a
    socket before anything arrives, and buffers that take the oldest datagram
    whole. -/
def Orderly (s : State) : Event → Prop
  | .nsendto _ _ buf _ _ => buf.length ≤ maxDatagram
  | .nsend _ _ buf => buf.length ≤ maxSegment
  | .nbind fd _ _ => ∀ host ∈ s.udpHost fd, host.rcvItems = []
  | .nrecvfrom _ fd len =>
      ∀ host ∈ s.udpHost fd, ∀ ol ∈ host.rcvItems.head?, ol.length.toNat ≤ len
  | _ => True

instance (s : State) : (e : Event) → Decidable (Orderly s e)
  | .nsendto _ _ buf _ _ => inferInstanceAs (Decidable (buf.length ≤ maxDatagram))
  | .nsend _ _ buf => inferInstanceAs (Decidable (buf.length ≤ maxSegment))
  | .nbind fd _ _ => inferInstanceAs (Decidable (∀ host ∈ s.udpHost fd, host.rcvItems = []))
  | .nrecvfrom _ fd len =>
      inferInstanceAs (Decidable (∀ host ∈ s.udpHost fd, ∀ ol ∈ host.rcvItems.head?,
        ol.length.toNat ≤ len))
  | .packet _ _ | .udpOut _ | .tcpOut _ | .nsocket _ _ | .nlisten _ | .naccept _ | .nrecv _ _
  | .nclose _ _ => .isTrue trivial

/-- An offload whose frame will be right. -/
def Offload.Sendable (ol : Offload) : Prop :=
  ol.data.length = ol.length.toNat ∧ ol.length.toNat ≤ maxDatagram

/-- An offload that came for a socket: its length counts the UDP header in. -/
def Offload.CameFor (ol : Offload) (host : Localhost) : Prop :=
  ol.dip = host.localip ∧ ol.dport = host.localport ∧
    ol.length.toNat = ol.data.length + sizeofUdpHdr

/-- The rings of a socket hold only such offloads. -/
structure OrderlyHost (host : Localhost) : Prop where
  snd : ∀ ol ∈ host.sndItems, ol.Sendable
  rcv : ∀ ol ∈ host.rcvItems, ol.CameFor host

def OrderlyHosts (s : State) : Prop := ∀ a host, s.localhost a = some host → OrderlyHost host

/-! ## One turn of `udp_out` -/

/-- What a turn of `udp_out` does to a socket, with the frames it builds. -/
inductive OutTurn (host : Localhost) : Localhost → List Frame → Prop where
  | idle : OutTurn host host []
  | asked {r r' : RteRing Offload} {ol : Offload} :
      host.sndbuf = some r → r.mcDequeue = some (ol, r') →
      OutTurn host { host with sndbuf := some (r'.mpEnqueue ol).1 } [.arpRequest ol.sip ol.dip]
  | framed {r r' : RteRing Offload} {ol : Offload} {dstmac : List Byte} :
      host.sndbuf = some r → r.mcDequeue = some (ol, r') →
      OutTurn host { host with sndbuf := some r' } [.udp host.localmac dstmac ol]

theorem outTurn_udpOutHost (arpt : ArpTable) (host : Localhost) :
    OutTurn host (udpOutHost arpt host).1 (udpOutHost arpt host).2 := by
  unfold udpOutHost
  split
  · exact .idle
  · rename_i r hr
    split
    · exact .idle
    · rename_i ol r' hpop
      split
      · exact .asked hr hpop
      · exact .framed hr hpop

variable {frames : List Frame}

/-- The datagrams are kept, or go into frames. -/
theorem OutTurn.messages (h : OutTurn host host' frames) :
    host'.messages + (frames.map Frame.messages).sum = host.messages := by
  cases h with
  | idle => simp
  | @asked r r' ol hr hpop =>
      obtain ⟨hitems, hroom⟩ := RteRing.mcDequeue_eq_some hpop
      have hput := (RteRing.mpEnqueue_of_hasRoom (x := ol) hroom).1
      simp only [Localhost.messages, Localhost.sndItems, hr, offloadItems_some, hput, hitems,
        messagesOf_append, messagesOf_cons, messagesOf_nil, List.map_cons, List.map_nil,
        List.sum_cons, List.sum_nil, Frame.messages, Localhost.rcvItems]
      abel
  | @framed r r' ol dstmac hr hpop =>
      obtain ⟨hitems, hroom⟩ := RteRing.mcDequeue_eq_some hpop
      simp only [Localhost.messages, Localhost.sndItems, hr, offloadItems_some, hitems,
        messagesOf_cons, List.map_cons, List.map_nil, List.sum_cons, List.sum_nil, Frame.messages,
        Localhost.rcvItems]
      abel

theorem OutTurn.sndItems_subset (h : OutTurn host host' frames) :
    ∀ ol ∈ host'.sndItems, ol ∈ host.sndItems := by
  cases h with
  | idle => exact fun _ hol => hol
  | @asked r r' ol hr hpop =>
      obtain ⟨hitems, hroom⟩ := RteRing.mcDequeue_eq_some hpop
      have hput := (RteRing.mpEnqueue_of_hasRoom (x := ol) hroom).1
      simp only [Localhost.sndItems, hr, offloadItems_some, hput, hitems]
      intro ol' hol
      rcases List.mem_append.mp hol with hrest | hlast
      · exact List.mem_cons_of_mem _ hrest
      · rw [List.mem_singleton.mp hlast]
        exact List.mem_cons_self
  | @framed r r' ol dstmac hr hpop =>
      obtain ⟨hitems, hroom⟩ := RteRing.mcDequeue_eq_some hpop
      simp only [Localhost.sndItems, hr, offloadItems_some, hitems]
      exact fun _ hol => List.mem_cons_of_mem _ hol

theorem OutTurn.mem_sndItems (h : OutTurn host host' frames) {srcmac dstmac : List Byte}
    {ol : Offload} (hf : .udp srcmac dstmac ol ∈ frames) : ol ∈ host.sndItems := by
  cases h with
  | idle => cases hf
  | asked => simp at hf
  | @framed r r' ol' dstmac' hr hpop =>
      obtain ⟨hitems, hroom⟩ := RteRing.mcDequeue_eq_some hpop
      obtain ⟨-, -, rfl⟩ := Frame.udp.inj (List.mem_singleton.mp hf)
      simp [Localhost.sndItems, hr, hitems]

theorem OutTurn.kept (h : OutTurn host host' frames) : host'.rcvbuf = host.rcvbuf ∧
    host'.localip = host.localip ∧ host'.localport = host.localport := by
  cases h <;> exact ⟨rfl, rfl, rfl⟩

/-! ## Orderly stacks stay orderly -/

/-- A datagram that `udp_process` queues came for the socket. -/
theorem cameFor_offload (hrcv : s.receiver m = some (a, host))
    (hlen : sizeofUdpHdr < m.offload.length.toNat) : m.offload.CameFor host := by
  unfold State.receiver getHostinfoFromipPort at hrcv
  have hprop := Table.prop_of_find? hrcv
  simp only [Bool.and_eq_true, beq_iff_eq] at hprop
  obtain ⟨⟨hip, hport⟩, -⟩ := hprop
  refine ⟨hip, hport, ?_⟩
  simp only [Mbuf.offload, Ptr.length_bytes, sizeofUdpHdr] at hlen ⊢
  omega

theorem sendable_sendtoOffload {buf : List Byte} {ip : BitVec 32} {port : BitVec 16}
    (h : buf.length ≤ maxDatagram) : (sendtoOffload host buf ip port).Sendable := by
  rw [maxDatagram_eq] at h
  have hlen : (sendtoOffload host buf ip port).length.toNat = buf.length := by
    simp only [sendtoOffload, BitVec.toNat_ofNat]
    omega
  exact ⟨hlen.symm, by rw [hlen, maxDatagram_eq]; exact h⟩

theorem mem_items_mpEnqueue {r : RteRing Offload} {x ol : Offload}
    (h : ol ∈ (r.mpEnqueue x).1.items) : ol ∈ r.items ∨ ol = x := by
  rw [RteRing.items_mpEnqueue, List.mem_append] at h
  rcases h with h | h
  · exact .inl h
  · split at h
    · exact .inr (List.mem_singleton.mp h)
    · cases h

theorem OrderlyHost.hostChange {before after : Option Localhost}
    (h : HostChange s e a before after) (he : Orderly s e)
    (hbefore : ∀ host, before = some host → OrderlyHost host) :
    ∀ host, after = some host → OrderlyHost host := by
  cases h with
  | idle => exact hbefore
  | @opened env host he' ha hfd hip hport hsnd hrcv =>
      rintro host' ⟨⟩
      exact ⟨by simp [hsnd], by simp [hrcv]⟩
  | @bound fd ip port host he' hinfo =>
      rintro host' ⟨⟩
      subst he'
      have hempty : host.rcvItems = [] := he host (udpHost_of_hostinfo hinfo)
      refine ⟨(hbefore host rfl).snd, ?_⟩
      show ∀ ol ∈ host.rcvItems, _
      simp [hempty]
  | @arrived env m host r he' hrcv hlen hr =>
      rintro host' ⟨⟩
      refine ⟨(hbefore host rfl).snd, ?_⟩
      intro ol hol
      rcases mem_items_mpEnqueue hol with hold | rfl
      · exact (hbefore host rfl).rcv ol (by rwa [Localhost.rcvItems, hr])
      · show m.offload.CameFor host
        exact cameFor_offload hrcv hlen
  | @output env host he' =>
      rintro host' ⟨⟩
      have hturn := outTurn_udpOutHost s.arpt host
      obtain ⟨hrcv, hip, hport⟩ := hturn.kept
      refine ⟨fun ol hol => (hbefore host rfl).snd ol (hturn.sndItems_subset ol hol), ?_⟩
      intro ol hol
      rw [Localhost.rcvItems, hrcv] at hol
      unfold Offload.CameFor
      rw [hip, hport]
      exact (hbefore host rfl).rcv ol hol
  | @reading env fd len host host' o he' hinfo hread =>
      rintro host'' ⟨⟩
      subst he'
      cases hread with
      | @part r r' ol hr hpop hlen =>
          -- an orderly buffer is not too small
          obtain ⟨hitems, -⟩ := RteRing.mcDequeue_eq_some hpop
          have hfits : ol.length.toNat ≤ len := by
            refine he host (udpHost_of_hostinfo hinfo) ol ?_
            rw [Localhost.rcvItems, hr, offloadItems_some, hitems]
            rfl
          omega
      | @whole r r' ol hr hpop hlen =>
          obtain ⟨hitems, -⟩ := RteRing.mcDequeue_eq_some hpop
          refine ⟨(hbefore host rfl).snd, fun ol' hol => (hbefore host rfl).rcv ol' ?_⟩
          rw [Localhost.rcvItems, hr, offloadItems_some, hitems]
          exact List.mem_cons_of_mem _ hol
  | @sending env fd buf ip port host r he' hinfo hr =>
      rintro host' ⟨⟩
      subst he'
      refine ⟨?_, (hbefore host rfl).rcv⟩
      intro ol hol
      rcases mem_items_mpEnqueue hol with hold | rfl
      · exact (hbefore host rfl).snd ol (by rwa [Localhost.sndItems, hr])
      · exact sendable_sendtoOffload he
  | closed => rintro host ⟨⟩

theorem OrderlyHosts.step (hs : OrderlyHosts s) (he : Orderly s e) (h : step s e = .ok (s', o)) :
    OrderlyHosts s' := fun a =>
  OrderlyHost.hostChange (hostChange_of_step h a) he (hs a)

/-! ## What the frames carry -/

theorem messages_ngUdpPkt (msg heap : Ptr) (srcmac dstmac : List Byte) {ol : Offload}
    (hol : ol.Sendable) : (ngUdpPkt msg heap srcmac dstmac ol).messages = {ol.message} := by
  obtain ⟨hdata, hlen⟩ := hol
  rw [maxDatagram_eq] at hlen
  rw [Mbuf.messages, if_pos (isUdp_ngUdpPkt ..), offload_ngUdpPkt _ _ _ _ _ hdata (by omega)]
  rfl

/-- A frame carries the message it was built from. -/
theorem messages_mbuf (gSrcMac : List Byte) (msg heap : Ptr) {f : Frame}
    (hf : ∀ srcmac dstmac ol, f = .udp srcmac dstmac ol → ol.Sendable) :
    (f.mbuf gSrcMac msg heap).messages = f.messages := by
  cases f with
  | arpRequest sip dip =>
      exact if_neg fun hudp => not_isIpv4_ngSendArp _ _ _ _ sip dip hudp.1
  | tcp sip dip srcmac dstmac fragment =>
      exact if_neg (not_isUdp_ngTcpPkt msg sip dip srcmac dstmac fragment)
  | udp srcmac dstmac ol => exact messages_ngUdpPkt _ _ _ _ (hf srcmac dstmac ol rfl)

theorem messages_frameMbufs {mem : FrameMemory} {gSrcMac : List Byte}
    (hframes : ∀ srcmac dstmac ol, .udp srcmac dstmac ol ∈ frames → ol.Sendable) :
    ((frameMbufs mem gSrcMac frames).map Mbuf.messages).sum =
      (frames.map Frame.messages).sum := by
  have heach : (frameMbufs mem gSrcMac frames).map Mbuf.messages =
      frames.map Frame.messages := by
    apply List.ext_getElem
    · simp [frameMbufs]
    · intro k hk hk'
      simp only [frameMbufs, List.getElem_map, List.getElem_mapIdx]
      rw [List.length_map] at hk'
      exact messages_mbuf _ _ _ fun srcmac dstmac ol heq =>
        hframes srcmac dstmac ol (heq ▸ List.getElem_mem hk')
  rw [heach]

/-! ## The ledger of one stack -/

/-- A call that writes one socket. -/
theorem messages_setHost_le {out got : Multiset Message} (ha : s.localhost a = some host)
    (hle : host'.messages + out ≤ host.messages + got) :
    (s.setHost a host').messages + out ≤ s.messages + got :=
  Table.total_modify_le ha hle

/-- A copy of more than the data ends with what is on the heap. -/
theorem read_add (ol : Offload) (heap : Ptr) (n : Nat) :
    ol.read heap 0 (ol.data.length + n) = ol.data ++ heap.bytes 0 n := by
  apply List.ext_getElem
  · simp [Offload.read]
  · intro i hi hi'
    simp only [Offload.read, List.getElem_map, List.getElem_range, Nat.zero_add]
    by_cases hlt : i < ol.data.length
    · rw [List.getElem_append_left hlt, List.getD_eq_getElem _ _ hlt]
    · rw [List.getElem_append_right (Nat.le_of_not_lt hlt),
        List.getD_eq_default _ _ (Nat.le_of_not_lt hlt)]
      simp [Ptr.bytes]

/-- A call of `nsendto` holds the message it was given, or drops it. -/
theorem nsendto_ledger {fd : Int} {buf : List Byte} {ip : BitVec 32} {port : BitVec 16}
    (h : nsendto env s fd buf ip port = .ok (s', o)) :
    s'.messages ≤ s.messages + givenBy s (.nsendto env fd buf ip port) o := by
  rcases nsendto_cases h with ⟨rfl, -⟩ | ⟨a, host, r, hinfo, hr, -, rfl, rfl⟩
  · exact le_self_add
  · have hgiven : givenBy s (.nsendto env fd buf ip port) (.ofRet buf.length) =
        {(sendtoOffload host buf ip port).message} := by
      simp only [givenBy, udpHost_of_hostinfo hinfo]
      exact if_pos rfl
    have hput := messagesOf_mpEnqueue_le r (sendtoOffload host buf ip port)
    have hledger : (s.setHost a { host with
        sndbuf := some (r.mpEnqueue (sendtoOffload host buf ip port)).1 }).messages + 0 ≤
        s.messages + {(sendtoOffload host buf ip port).message} := by
      apply messages_setHost_le (localhost_of_hostinfo hinfo)
      simp only [Localhost.messages, Localhost.sndItems, hr, offloadItems_some, add_zero]
      calc _ ≤ messagesOf r.items + {(sendtoOffload host buf ip port).message} +
            messagesOf host.rcvItems := add_le_add_left hput _
        _ = _ := by abel
    rw [hgiven]
    simpa using hledger

/-- A call of `nrecvfrom` answers a message that the stack held. -/
theorem nrecvfrom_ledger {fd : Int} {len : Nat} (hs : OrderlyHosts s)
    (he : Orderly s (.nrecvfrom env fd len)) (h : nrecvfrom env s fd len = .ok (s', o)) :
    s'.messages + answeredBy s (.nrecvfrom env fd len) o ≤ s.messages := by
  rcases nrecvfrom_cases h with ⟨hnone, rfl, rfl⟩ | ⟨a, host, host', hinfo, hread, rfl⟩
  · have hhost : s'.udpHost fd = none := by simp only [State.udpHost, hnone]
    simp [answeredBy, hhost]
  · have ha := localhost_of_hostinfo hinfo
    cases hread with
    | @part r r' ol hr hpop hlen =>
        obtain ⟨hitems, -⟩ := RteRing.mcDequeue_eq_some hpop
        have hfits : ol.length.toNat ≤ len := by
          refine he host (udpHost_of_hostinfo hinfo) ol ?_
          rw [Localhost.rcvItems, hr, offloadItems_some, hitems]
          rfl
        omega
    | @whole r r' ol hr hpop hlen =>
        obtain ⟨hitems, -⟩ := RteRing.mcDequeue_eq_some hpop
        have hmem : ol ∈ host.rcvItems := by
          rw [Localhost.rcvItems, hr, offloadItems_some, hitems]
          exact List.mem_cons_self
        obtain ⟨hdip, hdport, hlength⟩ := (hs a host ha).rcv ol hmem
        have hbytes : (ol.read env.staleHeap 0 ol.length.toNat).take
            (ol.length.toNat - sizeofUdpHdr) = ol.data := by
          rw [hlength, Nat.add_sub_cancel, read_add, List.take_left]
        have hanswered : answeredBy s (.nrecvfrom env fd len)
            { Out.ofRet ol.length.toNat with
              buf := ol.read env.staleHeap 0 ol.length.toNat
              peer := some (ol.sip, ol.sport) } = {ol.message} := by
          simp only [answeredBy, udpHost_of_hostinfo hinfo, Out.ofRet, Int.toNat_natCast, hbytes,
            Offload.message, hdip, hdport]
        have hledger : (s.setHost a { host with rcvbuf := some r' }).messages + {ol.message} ≤
            s.messages + 0 := by
          apply messages_setHost_le ha
          simp only [Localhost.messages, Localhost.rcvItems, hr, offloadItems_some, hitems,
            messagesOf_cons, Localhost.sndItems]
          apply le_of_eq
          abel
        rw [hanswered]
        simpa using hledger

/-- A packet brings its message at most. -/
theorem packet_ledger (h : pktProcess env s m = .ok (s', o)) :
    s'.messages ≤ s.messages + m.messages := by
  rcases pktProcess_cases h with ⟨hudp, h⟩ | ⟨-, h⟩ | ⟨-, -, -, rfl⟩
  · rcases udpProcess_cases h with ⟨rfl, -⟩ | ⟨a, host, r, hrcv, -, -, -, hr, -, rfl⟩
    · exact le_self_add
    · have hput := messagesOf_mpEnqueue_le r m.offload
      have hledger : ((s.learnFrom env m).setHost a { host with
          rcvbuf := some (r.mpEnqueue m.offload).1 }).messages + 0 ≤
          (s.learnFrom env m).messages + {m.offload.message} := by
        apply messages_setHost_le (localhost_of_receiver hrcv)
        simp only [Localhost.messages, Localhost.rcvItems, hr, offloadItems_some, add_zero]
        calc _ ≤ messagesOf host.sndItems + (messagesOf r.items + {m.offload.message}) :=
              add_le_add_right hput _
          _ = _ := by abel
      rw [Mbuf.messages, if_pos hudp]
      rw [add_zero] at hledger
      exact hledger
  · obtain ⟨tcbs, live, rfl, -⟩ := ngTcpProcess_frame h
    exact le_self_add
  · split
    · exact le_self_add
    · exact le_self_add

theorem sum_map_flatMap {α β M : Type*} [AddMonoid M] (l : List α) (f : α → List β) (g : β → M) :
    ((l.flatMap f).map g).sum = (l.map fun x => ((f x).map g).sum).sum := by
  induction l with
  | nil => rfl
  | cons x l ih =>
      rw [List.flatMap_cons, List.map_append, List.sum_append, ih, List.map_cons, List.sum_cons]

/-- A pass of `udp_out` puts the messages it takes into frames. -/
theorem udpOut_ledger (h : udpOut env s = .ok (s', o)) :
    s'.messages + (o.frames.map Frame.messages).sum ≤ s.messages := by
  simp only [udpOut] at h
  repeat' split at h
  all_goals simp only [Except.ok.injEq, Prod.mk.injEq, reduceCtorEq] at h
  obtain ⟨rfl, rfl⟩ := h
  have hframes : ((s.lhost.nodes.flatMap fun n => (udpOutHost s.arpt n.2).2).map
      Frame.messages).sum =
      s.lhost.total fun host => ((udpOutHost s.arpt host).2.map Frame.messages).sum := by
    exact sum_map_flatMap ..
  show (s.lhost.mapNodes fun _ host => (udpOutHost s.arpt host).1).total Localhost.messages +
    ((s.lhost.nodes.flatMap fun n => (udpOutHost s.arpt n.2).2).map Frame.messages).sum ≤ _
  rw [hframes]
  exact Table.total_mapNodes_le fun n _ => (outTurn_udpOutHost s.arpt n.2).messages.le

theorem frames_tcpOut_ledger (arpt : ArpTable) (stream : NgTcpStream) :
    ((tcpOutStream arpt stream).2.2.map Frame.messages).sum = 0 := by
  unfold tcpOutStream
  repeat' split
  all_goals rfl

/-- The frames of an orderly stack's datagrams are right. -/
theorem sendable_of_frames (hs : OrderlyHosts s) (h : step s e = .ok (s', o))
    {srcmac dstmac : List Byte} {ol : Offload} (hf : .udp srcmac dstmac ol ∈ o.frames) :
    ol.Sendable := by
  rcases frames_of_step h with ⟨env, rfl⟩ | ⟨env, rfl⟩ | hnil
  · simp only [step, Ustack.udpOut] at h
    repeat' split at h
    all_goals simp only [Except.ok.injEq, Prod.mk.injEq, reduceCtorEq] at h
    obtain ⟨-, rfl⟩ := h
    obtain ⟨n, hn, hf⟩ := List.mem_flatMap.mp hf
    have hhost : s.localhost n.1 = some n.2 := Table.mem_nodes_iff.mp hn
    exact (hs n.1 n.2 hhost).snd ol ((outTurn_udpOutHost s.arpt n.2).mem_sndItems hf)
  · simp only [step, ngTcpOut] at h
    split at h
    · cases h
    · simp only [Except.ok.injEq, Prod.mk.injEq] at h
      obtain ⟨-, rfl⟩ := h
      obtain ⟨n, -, hf⟩ := List.mem_flatMap.mp hf
      unfold tcpOutStream at hf
      repeat' split at hf
      all_goals simp at hf
  · rw [hnil] at hf
    cases hf

theorem messages_of_lhost (h : s'.lhost = s.lhost) : s'.messages = s.messages :=
  congrArg (Table.total · Localhost.messages) h

/-- A new socket has no messages. -/
theorem nsocket_ledger (env : Env) (s : State) (type : Int) :
    (nsocket env s type).1.messages = s.messages := by
  rcases nsocket_cases env s type with ⟨hhosts, -⟩ |
    ⟨-, -, -, snd, rcv, hsnd, hrcv, hhosts⟩ | ⟨-, hhosts, -⟩
  · exact messages_of_lhost hhosts
  · rw [State.messages, hhosts, Table.total_add]
    simp only [Localhost.messages, Localhost.sndItems, Localhost.rcvItems, offloadItems_some, hsnd,
      hrcv, messagesOf_nil, zero_add]
    rfl
  · exact messages_of_lhost hhosts

/-- A socket keeps its messages when it is bound. -/
theorem nbind_ledger (s : State) (fd : Int) (ip : BitVec 32) (port : BitVec 16) :
    (nbind s fd ip port).1.messages ≤ s.messages := by
  unfold nbind
  split
  · exact le_rfl
  · rename_i a host hinfo
    have hbound : (s.setHost a { host with
        localport := port, localip := ip, localmac := s.gSrcMac }).messages + 0 ≤
        s.messages + 0 :=
      messages_setHost_le (localhost_of_hostinfo hinfo) le_rfl
    rwa [add_zero, add_zero] at hbound
  · exact le_rfl

/-- A socket that is closed takes its messages along. -/
theorem nclose_ledger {fd : Int} (h : nclose env s fd = .ok (s', o)) :
    s'.messages ≤ s.messages := by
  simp only [nclose] at h
  split at h
  · obtain ⟨rfl, -⟩ := Prod.mk.inj (Except.ok.inj h)
    exact le_rfl
  · obtain ⟨rfl, -⟩ := Prod.mk.inj (Except.ok.inj h)
    exact Table.total_remove_le (fun _ => Multiset.zero_le _) ..
  · repeat' split at h
    all_goals simp only [Except.ok.injEq, Prod.mk.injEq, reduceCtorEq] at h
    all_goals obtain ⟨rfl, -⟩ := h
    all_goals exact le_rfl

/-- The other calls are for TCP. -/
theorem tcpCall_ledger (he : (∃ env, e = .tcpOut env) ∨ (∃ fd, e = .nlisten fd) ∨
      (∃ fd, e = .naccept fd) ∨ (∃ env fd buf, e = .nsend env fd buf) ∨
      ∃ fd len, e = .nrecv fd len) (h : step s e = .ok (s', o)) : s'.messages = s.messages := by
  apply messages_of_lhost
  rcases he with ⟨env, rfl⟩ | ⟨fd, rfl⟩ | ⟨fd, rfl⟩ | ⟨env, fd, buf, rfl⟩ | ⟨fd, len, rfl⟩
  all_goals simp only [step, ngTcpOut, Ustack.nlisten, Ustack.naccept, Ustack.nsend,
    Ustack.nrecv] at h
  all_goals repeat' split at h
  all_goals simp only [Except.ok.injEq, Prod.mk.injEq, reduceCtorEq] at h
  all_goals obtain ⟨rfl, -⟩ := h
  all_goals rfl

/-- A pass of `ng_tcp_out` builds no frame of UDP. -/
theorem messages_tcpOut (h : ngTcpOut env s = .ok (s', o)) :
    (o.frames.map Frame.messages).sum = 0 := by
  simp only [ngTcpOut] at h
  split at h
  · cases h
  · simp only [Except.ok.injEq, Prod.mk.injEq] at h
    obtain ⟨-, rfl⟩ := h
    rw [sum_map_flatMap]
    simp only [frames_tcpOut_ledger]
    exact List.sum_eq_zero fun x hx => (List.mem_map.mp hx).elim fun _ hn => hn.2.symm

/-- What a step hands out, in frames and answers, it held or was given. -/
theorem step_ledger (hs : OrderlyHosts s) (he : Orderly s e) (hpacket : e.isPacket = false)
    (h : step s e = .ok (s', o)) :
    s'.messages + ((o.frames.map Frame.messages).sum + answeredBy s e o) ≤
      s.messages + givenBy s e o := by
  have hquiet : (∀ env, e ≠ .udpOut env) → (∀ env, e ≠ .tcpOut env) →
      (o.frames.map Frame.messages).sum = 0 := by
    intro hudp htcp
    rcases frames_of_step h with ⟨env, rfl⟩ | ⟨env, rfl⟩ | hnil
    · exact absurd rfl (hudp env)
    · exact absurd rfl (htcp env)
    · rw [hnil]
      rfl
  cases e with
  | packet => cases hpacket
  | nsendto env fd buf ip port =>
      have hanswered : answeredBy s (.nsendto env fd buf ip port) o = 0 := rfl
      rw [hquiet nofun nofun, hanswered, add_zero, add_zero]
      exact nsendto_ledger h
  | nrecvfrom env fd len =>
      have hgiven : givenBy s (.nrecvfrom env fd len) o = 0 := rfl
      rw [hquiet nofun nofun, hgiven, zero_add, add_zero]
      exact nrecvfrom_ledger hs he h
  | udpOut env =>
      have hanswered : answeredBy s (.udpOut env) o = 0 := rfl
      have hgiven : givenBy s (.udpOut env) o = 0 := rfl
      rw [hanswered, hgiven, add_zero, add_zero]
      exact udpOut_ledger h
  | tcpOut env =>
      rw [messages_tcpOut h, tcpCall_ledger (.inl ⟨env, rfl⟩) h]
      exact le_rfl
  | nsocket env type =>
      have hs' : (nsocket env s type).1 = s' := congrArg Prod.fst (Except.ok.inj h)
      rw [hquiet nofun nofun, ← hs', nsocket_ledger]
      exact le_rfl
  | nbind fd ip port =>
      have hs' : (nbind s fd ip port).1 = s' := congrArg Prod.fst (Except.ok.inj h)
      have hanswered : answeredBy s (.nbind fd ip port) o = 0 := rfl
      have hgiven : givenBy s (.nbind fd ip port) o = 0 := rfl
      rw [hquiet nofun nofun, hanswered, hgiven, add_zero, add_zero, add_zero, ← hs']
      exact nbind_ledger s fd ip port
  | nclose env fd =>
      have hanswered : answeredBy s (.nclose env fd) o = 0 := rfl
      have hgiven : givenBy s (.nclose env fd) o = 0 := rfl
      rw [hquiet nofun nofun, hanswered, hgiven, add_zero, add_zero, add_zero]
      exact nclose_ledger h
  | nlisten fd =>
      rw [hquiet nofun nofun, tcpCall_ledger (.inr (.inl ⟨fd, rfl⟩)) h]
      exact le_rfl
  | naccept fd =>
      rw [hquiet nofun nofun, tcpCall_ledger (.inr (.inr (.inl ⟨fd, rfl⟩))) h]
      exact le_rfl
  | nsend env fd buf =>
      rw [hquiet nofun nofun, tcpCall_ledger (.inr (.inr (.inr (.inl ⟨env, fd, buf, rfl⟩)))) h]
      exact le_rfl
  | nrecv fd len =>
      rw [hquiet nofun nofun, tcpCall_ledger (.inr (.inr (.inr (.inr ⟨fd, len, rfl⟩)))) h]
      exact le_rfl

/-! ## The ledger of the network -/

variable {ι : Type*} [DecidableEq ι]

/-- All applications are orderly. -/
def OrderlyCalls (n : StackNetwork ι) : StackNetEvent ι → Prop
  | .act i a => Orderly (n.machine i) a.1
  | _ => True

/-- The message that a step was given. -/
def StackReport.given (r : StackReport) : Multiset Message := givenBy r.before r.event r.out

/-- The message that a step answered. -/
def StackReport.answered (r : StackReport) : Multiset Message := answeredBy r.before r.event r.out

/-- The messages on the sockets of all stacks, and in flight. -/
def StackNetwork.messages [Fintype ι] (n : StackNetwork ι) : Multiset Message :=
  n.total State.messages Mbuf.messages

/-- All messages that were given, to `nsendto` or to the wire. -/
def StackHistory.given (hist : StackHistory ι) : Multiset Message :=
  tally (netMade Mbuf.messages StackReport.given) hist

/-- All messages that were answered. -/
def StackHistory.answered (hist : StackHistory ι) : Multiset Message :=
  tally (netGone StackReport.answered) hist

theorem OrderlyHosts.init (mac : List Byte) : OrderlyHosts (State.init mac) := nofun

omit [DecidableEq ι] in
theorem messages_init [Fintype ι] (mac : ι → List Byte) :
    (StackNetwork.init mac).messages = 0 := by
  rw [StackNetwork.messages, Network.total]
  exact add_eq_zero.mpr ⟨Finset.sum_eq_zero fun _ _ => rfl, rfl⟩

/-- The messages of the frames that an orderly stack sends. -/
theorem messages_sent {mem : FrameMemory} {r : StackReport} (hs : OrderlyHosts s)
    (h : step s e = .ok (s', r.out)) (hsent : r.sent = frameMbufs mem s.gSrcMac r.out.frames) :
    (r.sent.map Mbuf.messages).sum = (r.out.frames.map Frame.messages).sum := by
  rw [hsent]
  exact messages_frameMbufs fun _ _ _ hf => sendable_of_frames hs h hf

/-- On a network of any number of these stacks and of strangers, which loses
    and reorders frames: the payloads of `nrecvfrom`'s answers, at any stack
    and over the whole run, and those still on their way were given to
    `nsendto` at some stack or sent by a stranger, and are there at most as
    often as they were given. -/
theorem udp_end_to_end [Fintype ι] (mac : ι → List Byte) (hist : StackHistory ι)
    (n : StackNetwork ι)
    (hrun : NetRun stackMachine OrderlyCalls (StackNetwork.init mac) hist n) :
    n.messages + hist.answered ≤ hist.given := by
  have hinit : ∀ i, OrderlyHosts ((StackNetwork.init mac).machine i) := fun i => .init (mac i)
  have hledger : n.messages + hist.answered ≤ (StackNetwork.init mac).messages + hist.given := by
    refine Network.conserved (fun _ => Multiset.zero_le _) hinit ?_ ?_ hrun
    · intro n i a s' r hs hC hact
      obtain ⟨hpacket, hact⟩ := stackMachine_act_ok hact
      obtain ⟨hstep, hbefore, hevent, hsent⟩ := reportedStep_ok hact
      refine ⟨(hs i).step hC hstep, ?_⟩
      show s'.messages + ((r.sent.map Mbuf.messages).sum + answeredBy r.before r.event r.out) ≤
        (n.machine i).messages + givenBy r.before r.event r.out
      rw [messages_sent (hs i) hstep hsent, hbefore, hevent]
      exact step_ledger (hs i) hC hpacket hstep
    · intro s x m s' r hs hreceive
      obtain ⟨hstep, hbefore, hevent, hsent⟩ := reportedStep_ok hreceive
      have horderly : Orderly s (.packet x.1 m) := trivial
      refine ⟨hs.step horderly hstep, ?_⟩
      have hnothing : answeredBy s (.packet x.1 m) r.out = 0 := rfl
      have hnone : givenBy s (.packet x.1 m) r.out = 0 := rfl
      show s'.messages + ((r.sent.map Mbuf.messages).sum + answeredBy r.before r.event r.out) ≤
        s.messages + (m.messages + givenBy r.before r.event r.out)
      rw [messages_sent hs hstep hsent, hbefore, hevent, hnothing, hnone,
        frames_of_packet hstep, List.map_nil, List.sum_nil, add_zero, add_zero, add_zero]
      exact packet_ledger hstep
  rwa [messages_init, zero_add] at hledger

instance (n : StackNetwork ι) : (e : StackNetEvent ι) → Decidable (OrderlyCalls n e)
  | .act i a => inferInstanceAs (Decidable (Orderly (n.machine i) a.1))
  | .deliver _ _ _ | .lose _ | .inject _ => .isTrue trivial

/-- A frame from a stranger tells one stack the address of another, and is
    lost at that stack; then three bytes go from the one to the other. -/
theorem udp_end_to_end_pair : ∃ (hist : StackHistory Bool) (n : StackNetwork Bool),
    NetRun stackMachine OrderlyCalls (StackNetwork.init fun _ => [2, 0, 0, 0, 0, 1]) hist n ∧
    hist.answered = {⟨0x0100000A, 0x0200000A, htons 8888, htons 8889, [97, 98, 99]⟩} ∧
    n.messages + hist.answered ≤ hist.given := by
  have hruns : execsTo (guardStep OrderlyCalls none (netStep stackMachine))
      (StackNetwork.init fun _ : Bool => [2, 0, 0, 0, 0, 1])
      [.inject (peerDatagram 0 []), .deliver false 0 (.plain, .clear),
       stackCall false (.nsocket .plain SOCK_DGRAM),
       stackCall false (.nbind 3 0x0100000A (htons 8888)),
       stackCall true (.nsocket .plain SOCK_DGRAM),
       stackCall true (.nbind 3 0x0200000A (htons 8889)),
       stackCall false (.nsendto .plain 3 [97, 98, 99] 0x0200000A (htons 8889)),
       stackCall false (.udpOut .plain), .deliver true 0 (.plain, .clear),
       stackCall true (.nrecvfrom .plain 3 128)]
      (fun hist _ => decide (StackHistory.answered hist =
        {⟨0x0100000A, 0x0200000A, htons 8888, htons 8889, [97, 98, 99]⟩})) = true := by
    decide +kernel
  obtain ⟨hist, n, hexec, hP⟩ := exec_of_execsTo hruns
  have hrun := guarded_of_exec hexec
  exact ⟨hist, n, hrun, of_decide_eq_true hP, udp_end_to_end _ hist n hrun⟩

end LinuxLearning.Ustack
