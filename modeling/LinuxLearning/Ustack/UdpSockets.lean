/-
  LinuxLearning.Ustack.UdpSockets

  What one step of the system can do to one UDP socket.

  `HostChange s e a before after` lists the cases, each with its guard: event
  `e`, taken in state `s`, turns the socket at `a` from `before` into `after`
  (`none` when it is not linked).  `hostChange_of_step` is the only place
  where the step function is taken apart for them.
-/

import LinuxLearning.Ustack.Lifetime

namespace LinuxLearning.Ustack

open Lib

variable {env : Env} {s s' : State} {e : Event} {m : Mbuf} {o : Out} {a : Addr}
  {host host' : Localhost}

/-! ## Sockets and datagrams -/

/-- The UDP socket at an address, if it is linked in `lhost`. -/
def State.localhost (s : State) (a : Addr) : Option Localhost := s.lhost.get? a

@[simp] theorem localhost_setHost (s : State) (a : Addr) (host : Localhost) (b : Addr) :
    (s.setHost a host).localhost b =
      if b = a then (s.localhost b).map fun _ => host else s.localhost b :=
  Table.get?_modify ..

@[simp] theorem localhost_setTcb (s : State) (a : Addr) (t : NgTcpStream) (b : Addr) :
    (s.setTcb a t).localhost b = s.localhost b := rfl

/-- The objects on a ring that may be missing. -/
def offloadItems (ring : Option (RteRing Offload)) : List Offload :=
  (ring.map RteRing.items).getD []

/-- The datagrams on a socket's `rcvbuf`, oldest first. -/
def Localhost.rcvItems (host : Localhost) : List Offload := offloadItems host.rcvbuf

/-- The datagrams on a socket's `sndbuf`, oldest first. -/
def Localhost.sndItems (host : Localhost) : List Offload := offloadItems host.sndbuf

@[simp] theorem offloadItems_some (r : RteRing Offload) : offloadItems (some r) = r.items := rfl

/-- The offload `udp_process` makes of a datagram: `length` is that of the
    datagram, `data` that of its payload. -/
def Mbuf.offload (m : Mbuf) : Offload where
  sip := Ipv4Hdr.srcAddr m.iphdr
  dip := Ipv4Hdr.dstAddr m.iphdr
  sport := UdpHdr.srcPort m.l4hdr
  dport := UdpHdr.dstPort m.l4hdr
  data := m.l4hdr.bytes sizeofUdpHdr ((ntohs (UdpHdr.dgramLen m.l4hdr)).toNat - sizeofUdpHdr)
  length := ntohs (UdpHdr.dgramLen m.l4hdr)

/-- The socket `udp_process` finds for the datagram in `m`. -/
def State.receiver (s : State) (m : Mbuf) : Option (Addr × Localhost) :=
  getHostinfoFromipPort s (Ipv4Hdr.dstAddr m.iphdr) (UdpHdr.dstPort m.l4hdr)
    (Ipv4Hdr.nextProtoId m.iphdr)

/-- The offload `nrecvfrom` puts back when its buffer of `len` bytes was too
    small. -/
def Offload.rest (ol : Offload) (heap : Ptr) (len : Nat) : Offload :=
  { ol with
    data := ol.read heap len (ol.length.toNat - len)
    length := ol.length - BitVec.ofNat 16 len }

/-- The offload `nsendto` queues. -/
def sendtoOffload (host : Localhost) (buf : List Byte) (ip : BitVec 32) (port : BitVec 16) :
    Offload where
  sip := host.localip
  dip := ip
  sport := host.localport
  dport := port
  data := buf
  length := BitVec.ofNat 16 buf.length

theorem localhost_of_hostinfo {fd : Int} (h : getHostinfoFromfd s fd = some (.localhost a host)) :
    s.localhost a = some host := by
  unfold getHostinfoFromfd at h
  split at h
  · rename_i hfind
    obtain ⟨rfl, rfl⟩ := HostInfo.localhost.inj (Option.some.inj h)
    exact Table.get?_of_find? hfind
  · split at h <;> cases h

theorem localhost_of_receiver (h : s.receiver m = some (a, host)) :
    s.localhost a = some host := by
  unfold State.receiver getHostinfoFromipPort at h
  exact Table.get?_of_find? h

/-! ## What the UDP functions do -/

/-- A datagram for a socket, with the memory to be had, is queued if it is
    longer than its header; if it claims less, the copy runs off. -/
theorem udpExit_of_memory (hrcv : s.receiver m = some (a, host))
    (hoffload : env.malloc .udpOffload = true) (hdata : env.malloc .udpData = true) :
    udpExit env s m =
      if m.offload.length.toNat = sizeofUdpHdr then .noData
      else if m.offload.length.toNat < sizeofUdpHdr then .overrun
      else .queued a host := by
  rw [State.receiver] at hrcv
  simp only [udpExit_eq, hrcv, hoffload, hdata, Bool.true_eq_false, or_false, if_false]
  rfl

/-- Without a socket or memory there is nothing but a drop. -/
theorem memory_of_udpExit {x : UdpExit} (h : udpExit env s m = x)
    (hx : x ≠ .noHost ∧ x ≠ .noOffload ∧ x ≠ .noData) :
    ∃ a host, s.receiver m = some (a, host) ∧ env.malloc .udpOffload = true ∧
      env.malloc .udpData = true := by
  subst h
  rw [udpExit_eq, ← State.receiver] at hx
  obtain ⟨hhost, hoffload, hdata⟩ := hx
  cases hrcv : s.receiver m with
  | none =>
      rw [hrcv] at hhost
      exact absurd rfl hhost
  | some found =>
      simp only [hrcv] at hoffload hdata
      by_cases hmem : env.malloc .udpOffload = false
      · exact absurd (if_pos hmem) hoffload
      · rw [if_neg hmem] at hdata
        by_cases hmem' : env.malloc .udpData = false
        · exact absurd (if_pos (.inr hmem')) hdata
        · exact ⟨found.1, found.2, rfl, by simpa using hmem, by simpa using hmem'⟩

theorem udpExit_eq_queued_iff : udpExit env s m = .queued a host ↔
    s.receiver m = some (a, host) ∧ env.malloc .udpOffload = true ∧ env.malloc .udpData = true ∧
      sizeofUdpHdr < m.offload.length.toNat := by
  constructor
  · intro h
    obtain ⟨b, found, hrcv, hoffload, hdata⟩ := memory_of_udpExit h (by simp)
    rw [udpExit_of_memory hrcv hoffload hdata] at h
    split at h
    · cases h
    · split at h
      · cases h
      · obtain ⟨rfl, rfl⟩ := UdpExit.queued.inj h
        exact ⟨hrcv, hoffload, hdata, by omega⟩
  · rintro ⟨hrcv, hoffload, hdata, hlen⟩
    rw [udpExit_of_memory hrcv hoffload hdata, if_neg (by omega), if_neg (by omega)]

theorem udpExit_eq_overrun_iff : udpExit env s m = .overrun ↔
    (∃ n, s.receiver m = some n) ∧ env.malloc .udpOffload = true ∧
      env.malloc .udpData = true ∧ m.offload.length.toNat < sizeofUdpHdr := by
  constructor
  · intro h
    obtain ⟨b, found, hrcv, hoffload, hdata⟩ := memory_of_udpExit h (by simp)
    rw [udpExit_of_memory hrcv hoffload hdata] at h
    split at h
    · cases h
    · split at h
      · rename_i hlen
        exact ⟨⟨_, hrcv⟩, hoffload, hdata, hlen⟩
      · cases h
  · rintro ⟨⟨n, hrcv⟩, hoffload, hdata, hlen⟩
    rw [udpExit_of_memory hrcv hoffload hdata, if_neg (by omega), if_pos hlen]

/-- `udp_process` drops the datagram, or queues it on the socket found. -/
theorem udpProcess_cases (h : udpProcess env s m = .ok (s', o)) :
    (s' = s ∧ ∃ ret, ret ≠ 0 ∧ o = .ofRet ret) ∨
    ∃ a host r, s.receiver m = some (a, host) ∧ env.malloc .udpOffload = true ∧
      env.malloc .udpData = true ∧ sizeofUdpHdr < m.offload.length.toNat ∧
      host.rcvbuf = some r ∧ o = .ofRet 0 ∧
      s' = s.setHost a { host with rcvbuf := some (r.mpEnqueue m.offload).1 } := by
  simp only [udpProcess] at h
  cases hexit : udpExit env s m with
  | noHost =>
      rw [hexit] at h
      obtain ⟨rfl, rfl⟩ := Prod.mk.inj (Except.ok.inj h)
      exact .inl ⟨rfl, -3, by decide, rfl⟩
  | noOffload =>
      rw [hexit] at h
      obtain ⟨rfl, rfl⟩ := Prod.mk.inj (Except.ok.inj h)
      exact .inl ⟨rfl, -1, by decide, rfl⟩
  | noData =>
      rw [hexit] at h
      obtain ⟨rfl, rfl⟩ := Prod.mk.inj (Except.ok.inj h)
      exact .inl ⟨rfl, -2, by decide, rfl⟩
  | overrun =>
      rw [hexit] at h
      cases h
  | queued a host =>
      rw [hexit] at h
      obtain ⟨hrcv, hoffload, hdata, hlen⟩ := udpExit_eq_queued_iff.mp hexit
      simp only at h
      split at h
      · cases h
      · rename_i r hr
        obtain ⟨rfl, rfl⟩ := Prod.mk.inj (Except.ok.inj h)
        exact .inr ⟨a, host, r, hrcv, hoffload, hdata, hlen, hr, rfl, rfl⟩

/-- What `nrecvfrom` with a buffer of `len` bytes takes from a socket: all of
    the oldest datagram, or what fits, and the rest goes to the tail. -/
inductive RecvCases (env : Env) (len : Nat) (host : Localhost) : Localhost → Out → Prop where
  | part {r r' : RteRing Offload} {ol : Offload} :
      host.rcvbuf = some r → r.mcDequeue = some (ol, r') → len < ol.length.toNat →
      RecvCases env len host
        { host with rcvbuf := some (r'.mpEnqueue (ol.rest env.staleHeap len)).1 }
        { Out.ofRet len with
          buf := ol.read env.staleHeap 0 len
          peer := some (ol.sip, ol.sport) }
  | whole {r r' : RteRing Offload} {ol : Offload} :
      host.rcvbuf = some r → r.mcDequeue = some (ol, r') → ol.length.toNat ≤ len →
      RecvCases env len host { host with rcvbuf := some r' }
        { Out.ofRet ol.length.toNat with
          buf := ol.read env.staleHeap 0 ol.length.toNat
          peer := some (ol.sip, ol.sport) }

theorem nrecvfrom_cases {fd : Int} {len : Nat} (h : nrecvfrom env s fd len = .ok (s', o)) :
    (getHostinfoFromfd s fd = none ∧ s' = s ∧ o = .ofRet (-1)) ∨
    ∃ a host host', getHostinfoFromfd s fd = some (.localhost a host) ∧
      RecvCases env len host host' o ∧ s' = s.setHost a host' := by
  simp only [nrecvfrom] at h
  split at h
  · rename_i hinfo
    obtain ⟨rfl, rfl⟩ := Prod.mk.inj (Except.ok.inj h)
    exact .inl ⟨hinfo, rfl, rfl⟩
  · cases h
  · rename_i a host hinfo
    split at h
    · cases h
    · rename_i r hr
      split at h
      · cases h
      · rename_i ol r' hpop
        split at h
        · rename_i hlen
          split at h
          · cases h
          · obtain ⟨rfl, rfl⟩ := Prod.mk.inj (Except.ok.inj h)
            exact .inr ⟨a, host, _, hinfo, .part hr hpop hlen, rfl⟩
        · rename_i hlen
          obtain ⟨rfl, rfl⟩ := Prod.mk.inj (Except.ok.inj h)
          exact .inr ⟨a, host, _, hinfo, .whole hr hpop (Nat.le_of_not_lt hlen), rfl⟩

theorem nsendto_cases {fd : Int} {buf : List Byte} {ip : BitVec 32} {port : BitVec 16}
    (h : nsendto env s fd buf ip port = .ok (s', o)) :
    (s' = s ∧ o = .ofRet (-1)) ∨
    ∃ a host r, getHostinfoFromfd s fd = some (.localhost a host) ∧ host.sndbuf = some r ∧
      0 < buf.length ∧ o = .ofRet buf.length ∧
      s' = s.setHost a
        { host with sndbuf := some (r.mpEnqueue (sendtoOffload host buf ip port)).1 } := by
  simp only [nsendto] at h
  split at h
  · obtain ⟨rfl, rfl⟩ := Prod.mk.inj (Except.ok.inj h)
    exact .inl ⟨rfl, rfl⟩
  · rename_i info hinfo
    split at h
    · obtain ⟨rfl, rfl⟩ := Prod.mk.inj (Except.ok.inj h)
      exact .inl ⟨rfl, rfl⟩
    · split at h
      · obtain ⟨rfl, rfl⟩ := Prod.mk.inj (Except.ok.inj h)
        exact .inl ⟨rfl, rfl⟩
      · rename_i hdata
        rw [not_or] at hdata
        split at h
        · cases h
        · rename_i a host
          split at h
          · cases h
          · rename_i r hr
            obtain ⟨rfl, rfl⟩ := Prod.mk.inj (Except.ok.inj h)
            exact .inr ⟨a, host, r, hinfo, hr, Nat.pos_of_ne_zero hdata.2, rfl, rfl⟩

/-- `nsendto` fails just without a socket, without memory, or with nothing to
    send. -/
theorem nsendto_ret_iff {fd : Int} {buf : List Byte} {ip : BitVec 32} {port : BitVec 16}
    (h : nsendto env s fd buf ip port = .ok (s', o)) :
    o.ret ≠ -1 ↔ getHostinfoFromfd s fd ≠ none ∧ env.malloc .sendtoOffload = true ∧
      env.malloc .sendtoData = true ∧ buf ≠ [] := by
  simp only [nsendto] at h
  split at h
  · rename_i hnone
    obtain ⟨rfl, rfl⟩ := Prod.mk.inj (Except.ok.inj h)
    exact iff_of_false (fun hret => hret rfl) fun hgot => hgot.1 hnone
  · rename_i info hinfo
    rw [hinfo]
    split at h
    · rename_i hoffload
      obtain ⟨rfl, rfl⟩ := Prod.mk.inj (Except.ok.inj h)
      exact iff_of_false (fun hret => hret rfl) fun hgot => by simp [hoffload] at hgot
    · rename_i hoffload
      split at h
      · rename_i hdata
        obtain ⟨rfl, rfl⟩ := Prod.mk.inj (Except.ok.inj h)
        refine iff_of_false (fun hret => hret rfl) ?_
        rintro ⟨-, -, hgot, hbuf⟩
        rcases hdata with hfail | hzero
        · simp [hgot] at hfail
        · exact hbuf (List.length_eq_zero_iff.mp hzero)
      · rename_i hdata
        rw [not_or, Bool.not_eq_false, List.length_eq_zero_iff] at hdata
        rw [Bool.not_eq_false] at hoffload
        have hret : o.ret = (buf.length : Int) := by
          repeat' split at h
          all_goals simp only [Except.ok.injEq, Prod.mk.injEq, reduceCtorEq] at h
          obtain ⟨-, rfl⟩ := h
          rfl
        refine iff_of_true ?_ ⟨by simp, hoffload, hdata⟩
        rw [hret]
        omega

/-! ## The cases of a step -/

/-- What the step on event `e` in state `s` can do to the socket at `a`. -/
inductive HostChange (s : State) (e : Event) (a : Addr) :
    Option Localhost → Option Localhost → Prop where
  /-- Nothing. -/
  | idle (cell : Option Localhost) : HostChange s e a cell cell
  /-- `nsocket` opened the socket. -/
  | opened {env : Env} {host : Localhost} :
      e = .nsocket env SOCK_DGRAM → a = s.lhost.next →
      host.fd = (getFdFrombitmap s.fdTable).2 → host.localip = 0 → host.localport = 0 →
      host.sndItems = [] → host.rcvItems = [] → HostChange s e a none (some host)
  | bound {fd : Int} {ip : BitVec 32} {port : BitVec 16} {host : Localhost} :
      e = .nbind fd ip port → getHostinfoFromfd s fd = some (.localhost a host) →
      HostChange s e a (some host)
        (some { host with localport := port, localip := ip, localmac := s.gSrcMac })
  /-- A datagram was queued for the socket. -/
  | arrived {env : Env} {m : Mbuf} {host : Localhost} {r : RteRing Offload} :
      e = .packet env m → s.receiver m = some (a, host) →
      sizeofUdpHdr < m.offload.length.toNat → host.rcvbuf = some r →
      HostChange s e a (some host)
        (some { host with rcvbuf := some (r.mpEnqueue m.offload).1 })
  | output {env : Env} {host : Localhost} :
      e = .udpOut env → HostChange s e a (some host) (some (udpOutHost s.arpt host).1)
  | reading {env : Env} {fd : Int} {len : Nat} {host host' : Localhost} {o : Out} :
      e = .nrecvfrom env fd len → getHostinfoFromfd s fd = some (.localhost a host) →
      RecvCases env len host host' o → HostChange s e a (some host) (some host')
  | sending {env : Env} {fd : Int} {buf : List Byte} {ip : BitVec 32} {port : BitVec 16}
      {host : Localhost} {r : RteRing Offload} :
      e = .nsendto env fd buf ip port → getHostinfoFromfd s fd = some (.localhost a host) →
      host.sndbuf = some r →
      HostChange s e a (some host)
        (some { host with sndbuf := some (r.mpEnqueue (sendtoOffload host buf ip port)).1 })
  | closed {env : Env} {fd : Int} {host : Localhost} :
      e = .nclose env fd → getHostinfoFromfd s fd = some (.localhost a host) →
      HostChange s e a (some host) none

/-! ## Every step is one of the cases -/

theorem HostChange.of_lhost (h : s'.lhost = s.lhost) :
    HostChange s e a (s.localhost a) (s'.localhost a) := by
  simp only [State.localhost, h]
  exact .idle _

/-- A step that writes one socket. -/
theorem hostChange_of_setHost {host host' : Localhost} (ha : s.localhost a = some host)
    (hs : s' = s.setHost a host') (hchange : HostChange s e a (some host) (some host'))
    (b : Addr) : HostChange s e b (s.localhost b) (s'.localhost b) := by
  rw [hs, localhost_setHost]
  by_cases hb : b = a
  · subst hb
    rw [if_pos rfl, ha]
    exact hchange
  · rw [if_neg hb]
    exact .idle _

/-- The ARP table matters to no case of a packet. -/
theorem HostChange.of_arpt {arpt : ArpTable} {before after : Option Localhost}
    (h : HostChange { s with arpt := arpt } (.packet env m) a before after) :
    HostChange s (.packet env m) a before after := by
  cases h with
  | idle => exact .idle _
  | arrived he hrcv hlen hr => exact .arrived he hrcv hlen hr
  | opened he | bound he | output he | reading he | sending he | closed he => cases he

theorem hostChange_of_udpProcess (h : udpProcess env s m = .ok (s', o)) (b : Addr) :
    HostChange s (.packet env m) b (s.localhost b) (s'.localhost b) := by
  rcases udpProcess_cases h with ⟨rfl, -⟩ | ⟨a, host, r, hrcv, -, -, hlen, hr, -, rfl⟩
  · exact .idle _
  · exact hostChange_of_setHost (localhost_of_receiver hrcv) rfl (.arrived rfl hrcv hlen hr) b

theorem hostChange_of_packet (h : pktProcess env s m = .ok (s', o)) (b : Addr) :
    HostChange s (.packet env m) b (s.localhost b) (s'.localhost b) := by
  rcases pktProcess_cases h with ⟨-, h⟩ | ⟨-, h⟩ | ⟨-, -, -, rfl⟩
  · exact (hostChange_of_udpProcess h b).of_arpt
  · obtain ⟨tcbs, live, rfl, -⟩ := ngTcpProcess_frame h
    exact .of_lhost rfl
  · exact .of_lhost (by split <;> rfl)

theorem hostChange_of_udpOut (h : udpOut env s = .ok (s', o)) (b : Addr) :
    HostChange s (.udpOut env) b (s.localhost b) (s'.localhost b) := by
  simp only [udpOut] at h
  repeat' split at h
  all_goals simp only [Except.ok.injEq, Prod.mk.injEq, reduceCtorEq] at h
  obtain ⟨rfl, -⟩ := h
  simp only [State.localhost, Table.get?_mapNodes]
  -- the loop goes over all sockets
  cases s.lhost.get? b with
  | none => exact .idle _
  | some host => exact .output rfl

theorem hostChange_of_nsocket {type : Int} (b : Addr) :
    HostChange s (.nsocket env type) b (s.localhost b) ((nsocket env s type).1.localhost b) := by
  rcases nsocket_cases env s type with ⟨hhosts, -⟩ |
    ⟨htype, -, -, snd, rcv, hsnd, hrcv, hhosts⟩ | ⟨-, hhosts, -⟩
  · exact .of_lhost hhosts
  · simp only [State.localhost, hhosts, Table.get?_add]
    by_cases hb : b = s.lhost.next
    · subst hb
      -- the new socket's address was free
      rw [if_pos rfl, Table.get?_next]
      exact .opened (by rw [htype]) rfl rfl rfl rfl hsnd hrcv
    · rw [if_neg hb]
      exact .idle _
  · exact .of_lhost hhosts

theorem hostChange_of_nbind {fd : Int} {ip : BitVec 32} {port : BitVec 16} (b : Addr) :
    HostChange s (.nbind fd ip port) b (s.localhost b) ((nbind s fd ip port).1.localhost b) := by
  unfold nbind
  split
  · exact .idle _
  · rename_i a host hinfo
    exact hostChange_of_setHost (localhost_of_hostinfo hinfo) rfl (.bound rfl hinfo) b
  · exact .idle _

theorem hostChange_of_nrecvfrom {fd : Int} {len : Nat} (h : nrecvfrom env s fd len = .ok (s', o))
    (b : Addr) : HostChange s (.nrecvfrom env fd len) b (s.localhost b) (s'.localhost b) := by
  rcases nrecvfrom_cases h with ⟨-, rfl, -⟩ | ⟨a, host, host', hinfo, hrecv, rfl⟩
  · exact .idle _
  · exact hostChange_of_setHost (localhost_of_hostinfo hinfo) rfl (.reading rfl hinfo hrecv) b

theorem hostChange_of_nsendto {fd : Int} {buf : List Byte} {ip : BitVec 32} {port : BitVec 16}
    (h : nsendto env s fd buf ip port = .ok (s', o)) (b : Addr) :
    HostChange s (.nsendto env fd buf ip port) b (s.localhost b) (s'.localhost b) := by
  rcases nsendto_cases h with ⟨rfl, -⟩ | ⟨a, host, r, hinfo, hr, -, -, rfl⟩
  · exact .idle _
  · exact hostChange_of_setHost (localhost_of_hostinfo hinfo) rfl (.sending rfl hinfo hr) b

theorem hostChange_of_nclose {fd : Int} (h : nclose env s fd = .ok (s', o)) (b : Addr) :
    HostChange s (.nclose env fd) b (s.localhost b) (s'.localhost b) := by
  simp only [nclose] at h
  split at h
  · obtain ⟨rfl, -⟩ := Prod.mk.inj (Except.ok.inj h)
    exact .idle _
  · rename_i a host hinfo
    obtain ⟨rfl, -⟩ := Prod.mk.inj (Except.ok.inj h)
    simp only [State.localhost, Table.get?_remove]
    by_cases hb : b = a
    · subst hb
      rw [if_pos rfl, ← State.localhost, localhost_of_hostinfo hinfo]
      exact .closed rfl hinfo
    · rw [if_neg hb]
      exact .idle _
  · repeat' split at h
    all_goals simp only [Except.ok.injEq, Prod.mk.injEq, reduceCtorEq] at h
    all_goals obtain ⟨rfl, -⟩ := h
    all_goals exact .of_lhost rfl

/-- What a step does to a UDP socket is one of the cases of `HostChange`. -/
theorem hostChange_of_step (h : step s e = .ok (s', o)) (a : Addr) :
    HostChange s e a (s.localhost a) (s'.localhost a) := by
  cases e with
  | packet env m => exact hostChange_of_packet h a
  | udpOut env => exact hostChange_of_udpOut h a
  | nsocket env type =>
      obtain ⟨rfl, -⟩ := Prod.mk.inj (Except.ok.inj h)
      exact hostChange_of_nsocket a
  | nbind fd ip port =>
      obtain ⟨rfl, -⟩ := Prod.mk.inj (Except.ok.inj h)
      exact hostChange_of_nbind a
  | nrecvfrom env fd len => exact hostChange_of_nrecvfrom h a
  | nsendto env fd buf ip port => exact hostChange_of_nsendto h a
  | nclose env fd => exact hostChange_of_nclose h a
  | tcpOut | nlisten | naccept | nsend | nrecv =>
      -- these calls leave the UDP sockets alone
      simp only [step, ngTcpOut, Ustack.nlisten, Ustack.naccept, Ustack.nsend,
        Ustack.nrecv] at h
      repeat' split at h
      all_goals simp only [Except.ok.injEq, Prod.mk.injEq, reduceCtorEq] at h
      all_goals obtain ⟨rfl, -⟩ := h
      all_goals exact .of_lhost rfl

end LinuxLearning.Ustack
