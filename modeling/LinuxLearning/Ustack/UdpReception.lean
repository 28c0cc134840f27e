/-
  LinuxLearning.Ustack.UdpReception

  What `nrecvfrom` returns of the datagrams a socket received.

  The law to compare with: a call takes from the oldest datagram that was not
  read to its end, as many bytes as fit, with the address of its sender, and
  touches no byte behind the payload.  `udp_process` allocates and copies
  `dgram_len` minus 8 bytes but stores `dgram_len` as the length, so every
  call that takes a datagram copies 8 bytes from behind the allocation: to
  the caller, or into the rest it puts back.
-/

import LinuxLearning.Ustack.UdpOutput

namespace LinuxLearning.Ustack

open Lib

variable {env env' : Env} {s s' : State} {e : Event} {o : Out} {a : Addr}
  {host host' : Localhost} {len : Nat}

/-! ## The law of reception -/

/-- A datagram as its sender meant it: where it comes from, and what was not
    read of its payload. -/
structure Datagram where
  sip : BitVec 32
  sport : BitVec 16
  bytes : List Byte
deriving DecidableEq, Repr

/-- The datagram in a packet. -/
def Mbuf.datagram (m : Mbuf) : Datagram where
  sip := Ipv4Hdr.srcAddr m.iphdr
  sport := UdpHdr.srcPort m.l4hdr
  bytes := m.l4hdr.bytes sizeofUdpHdr ((ntohs (UdpHdr.dgramLen m.l4hdr)).toNat - sizeofUdpHdr)

/-- What is left when `len` bytes were read from the oldest datagram. -/
def readOldest (len : Nat) : List Datagram → List Datagram
  | [] => []
  | d :: rest => if len < d.bytes.length then { d with bytes := d.bytes.drop len } :: rest else rest

/-- The datagrams each socket accepted and that were not read to their end,
    oldest first. -/
abbrev Pending := Addr → List Datagram

/-- `udp_process` accepts the packet: memory for it can be had, and there is
    room on the ring. -/
def Accepts (env : Env) (m : Mbuf) (host : Localhost) : Prop :=
  m.IsUdp ∧ env.malloc .udpOffload = true ∧ env.malloc .udpData = true ∧
    sizeofUdpHdr < m.offload.length.toNat ∧ ∃ r ∈ host.rcvbuf, r.HasRoom

instance (env : Env) (m : Mbuf) (host : Localhost) : Decidable (Accepts env m host) :=
  inferInstanceAs (Decidable (_ ∧ _ ∧ _ ∧ _ ∧ _))

/-- How the datagrams change in a step, if the law holds. -/
def Pending.track (q : Pending) (s : State) (e : Event) (_ : Out) : Pending :=
  match e with
  | .packet env m =>
      match s.receiver m with
      | none => q
      | some (a, host) =>
          if Accepts env m host then Function.update q a (q a ++ [m.datagram]) else q
  | .nrecvfrom _ fd len =>
      match getHostinfoFromfd s fd with
      | some (.localhost a _) => Function.update q a (readOldest len (q a))
      | _ => q
  | _ => q

/-- The call returned what there was of `d` as far as it fits, and the state
    and the answer are the same whatever lies behind the payload. -/
structure ReadsFrom (env : Env) (s : State) (fd : Int) (len : Nat) (s' : State) (o : Out)
    (d : Datagram) : Prop where
  ret : o.ret = min len d.bytes.length
  buf : o.buf = d.bytes.take len
  peer : o.peer = some (d.sip, d.sport)
  inside : ∀ heap, nrecvfrom { env with staleHeap := heap } s fd len = .ok (s', o)

/-- The law: a call on a UDP socket that returns has read from its oldest
    datagram. -/
def Delivers (p : State × Pending) : Event → Prop
  | .nrecvfrom env fd len =>
      ∀ a host, getHostinfoFromfd p.1 fd = some (.localhost a host) →
        ∀ s' o, nrecvfrom env p.1 fd len = .ok (s', o) →
          ∃ d rest, p.2 a = d :: rest ∧ ReadsFrom env p.1 fd len s' o d
  | _ => True

/-- The event is no call of `nrecvfrom` on a socket that is open. -/
def NoReads (s : State) : Event → Prop
  | .nrecvfrom _ fd _ => getHostinfoFromfd s fd = none
  | _ => True

instance (s : State) : (e : Event) → Decidable (NoReads s e)
  | .nrecvfrom _ fd _ => inferInstanceAs (Decidable (getHostinfoFromfd s fd = none))
  | .packet _ _ | .udpOut _ | .tcpOut _ | .nsocket _ _ | .nbind _ _ _ | .nlisten _ | .naccept _
  | .nsend _ _ _ | .nrecv _ _ | .nsendto _ _ _ _ _ | .nclose _ _ => .isTrue trivial

/-- The runs that obey the law, with what is pending at their end. -/
abbrev LawfulRun (mac : List Byte) (hist : History) (s : State) (q : Pending) : Prop :=
  Run (Guarded Delivers (StepsOf (withGhost step Pending.track))) (State.init mac, fun _ => []) hist
    (s, q)

/-! ## Reads behind the payload -/

/-- The last byte of a copy that ends behind the data comes from the heap. -/
theorem heap_of_read_eq {ol : Offload} {heap heap' : Ptr} {off n : Nat} (hn : 0 < n)
    (hend : ol.data.length < off + n) (h : ol.read heap off n = ol.read heap' off n) :
    heap (off + n - 1 - ol.data.length) = heap' (off + n - 1 - ol.data.length) := by
  have hlast : off + (n - 1) = off + n - 1 := by omega
  have hbehind : ol.data[off + n - 1]? = none := List.getElem?_eq_none (by omega)
  have hbyte := congrArg (fun bs => bs[n - 1]?) h
  rw [Offload.read, Offload.read] at hbyte
  simpa only [List.getElem?_map, List.getElem?_range (Nat.sub_one_lt_of_lt hn), Option.map_some,
    Option.some.injEq, List.getD_eq_getElem?_getD, hlast, hbehind, Option.getD_none] using hbyte

/-- The copy that reaches to the end of the oldest offload: into the rest
    that is put back, or to the caller. -/
theorem RecvCases.copies (h : RecvCases env len host host' o) :
    ∃ ol rest, host.rcvItems = ol :: rest ∧
      (len < ol.length.toNat ∧ host'.rcvItems = rest ++ [ol.rest env.staleHeap len] ∨
        ol.length.toNat ≤ len ∧ o.buf = ol.read env.staleHeap 0 ol.length.toNat) := by
  cases h with
  | @part r r' ol hr hpop hlen =>
      obtain ⟨hitems, hroom⟩ := RteRing.mcDequeue_eq_some hpop
      have hput := (RteRing.mpEnqueue_of_hasRoom (x := ol.rest env.staleHeap len) hroom).1
      exact ⟨ol, r'.items, by rw [Localhost.rcvItems, hr, offloadItems_some, hitems],
        .inl ⟨hlen, hput⟩⟩
  | @whole r r' ol hr hpop hlen =>
      obtain ⟨hitems, -⟩ := RteRing.mcDequeue_eq_some hpop
      exact ⟨ol, r'.items, by rw [Localhost.rcvItems, hr, offloadItems_some, hitems],
        .inr ⟨hlen, rfl⟩⟩

/-- Two calls that differ only in what lies behind the data, and give the
    same result, found the same byte there. -/
theorem RecvCases.heap_eq (h : RecvCases env len host host' o)
    (h' : RecvCases env' len host host' o)
    (hshort : ∀ ol ∈ host.rcvItems, ol.data.length < ol.length.toNat) :
    ∃ i, env.staleHeap i = env'.staleHeap i := by
  obtain ⟨ol, rest, hitems, hcopy⟩ := h.copies
  obtain ⟨ol', rest', hitems', hcopy'⟩ := h'.copies
  -- both calls took the same offload, so both copied the same bytes
  obtain ⟨rfl, rfl⟩ := List.cons.inj (hitems.symm.trans hitems')
  have hol : ol.data.length < ol.length.toNat := hshort ol (by simp [hitems])
  rcases hcopy with ⟨hlen, hput⟩ | ⟨hlen, hbuf⟩
  · rcases hcopy' with ⟨-, hput'⟩ | ⟨hlen', -⟩
    · have hrest := congrArg (fun items => items.map (·.data)) (hput.symm.trans hput')
      simp only [List.map_append, List.append_cancel_left_eq, List.map_cons, List.map_nil,
        List.cons.injEq, and_true] at hrest
      exact ⟨_, heap_of_read_eq (by omega) (by omega) hrest⟩
    · omega
  · rcases hcopy' with ⟨hlen', -⟩ | ⟨-, hbuf'⟩
    · omega
    · exact ⟨_, heap_of_read_eq (by omega) (by omega) (hbuf.symm.trans hbuf')⟩

/-- The length of every datagram on a `rcvbuf` counts more than its data. -/
def ShortData (s : State) : Prop :=
  ∀ a host, s.localhost a = some host → ∀ ol ∈ host.rcvItems, ol.data.length < ol.length.toNat

/-- A call that takes a datagram that nobody read from breaks the law. -/
theorem not_delivers {q : Pending} {fd : Int} (hshort : ShortData s)
    (hstep : nrecvfrom env s fd len = .ok (s', o))
    (hinfo : getHostinfoFromfd s fd = some (.localhost a host)) :
    ¬ Delivers (s, q) (.nrecvfrom env fd len) := by
  intro hdelivers
  obtain ⟨d, rest, -, hreads⟩ := hdelivers a host hinfo s' o hstep
  have hhost := localhost_of_hostinfo hinfo
  -- the call is made over two heaps that agree nowhere
  have hcall : ∀ heap : Ptr, ∃ host', RecvCases { env with staleHeap := heap } len host host' o ∧
      s'.localhost a = some host' := by
    intro heap
    rcases nrecvfrom_cases (hreads.inside heap) with ⟨hnone, -⟩ | ⟨b, h₁, h₂, hinfo₁, hrecv, rfl⟩
    · exact absurd (hnone.symm.trans hinfo) nofun
    · obtain ⟨rfl, rfl⟩ := HostInfo.localhost.inj (Option.some.inj (hinfo.symm.trans hinfo₁))
      exact ⟨h₂, hrecv, by rw [localhost_setHost, if_pos rfl, hhost, Option.map_some]⟩
  obtain ⟨h₀, hrecv₀, hafter₀⟩ := hcall fun _ => 0
  obtain ⟨h₁, hrecv₁, hafter₁⟩ := hcall fun _ => 1
  obtain rfl : h₀ = h₁ := Option.some.inj (hafter₀.symm.trans hafter₁)
  -- but `copies` needs a byte on which they agree
  obtain ⟨i, hi⟩ := hrecv₀.heap_eq hrecv₁ (hshort a host hhost)
  exact absurd hi (show (0 : Byte) ≠ 1 by decide)

/-! ## Runs -/

theorem shortData_step (hreads : NoReads s e) (hshort : ShortData s)
    (h : step s e = .ok (s', o)) : ShortData s' := by
  intro a host' hhost'
  have hchange := hostChange_of_step h a
  rw [hhost'] at hchange
  generalize hbefore : s.localhost a = before at hchange
  cases hchange with
  | idle => exact hshort a host' hbefore
  | opened he ha hfd hip hport hsnd hrcv => simp [hrcv]
  | @bound fd ip port host he hinfo => exact hshort a host hbefore
  | @arrived env m host r he hrcv hlen hr =>
      intro ol hol
      rw [Localhost.rcvItems, offloadItems_some, RteRing.items_mpEnqueue] at hol
      rcases List.mem_append.mp hol with hold | hnew
      · exact hshort a _ hbefore ol (by rwa [Localhost.rcvItems, hr])
      -- the length counts the eight bytes of the header, the data does not
      · split at hnew
        · obtain rfl := List.mem_singleton.mp hnew
          rw [Mbuf.offload] at hlen ⊢
          simp only [Ptr.length_bytes, sizeofUdpHdr] at hlen ⊢
          omega
        · cases hnew
  | @output env host he =>
      have hrcv : (udpOutHost s.arpt host).1.rcvbuf = host.rcvbuf := by
        unfold udpOutHost
        repeat' split
        all_goals rfl
      rw [Localhost.rcvItems, hrcv]
      exact hshort a _ hbefore
  | reading he hinfo =>
      subst he
      exact absurd (hinfo.symm.trans hreads) (by simp)
  | @sending env fd buf ip port host r he hinfo hr => exact hshort a host hbefore

/-- A lawful run reads nothing. -/
theorem LawfulRun.noReads {mac : List Byte} {hist : History} {q : Pending}
    (hrun : LawfulRun mac hist s q) :
    ShortData s ∧ GuardedRun NoReads (State.init mac) hist s := by
  unfold LawfulRun at hrun
  generalize hp : (s, q) = p at hrun
  induction hrun generalizing s q with
  | start =>
      obtain ⟨rfl, rfl⟩ := Prod.mk.inj hp
      exact ⟨nofun, .start⟩
  | @step hist p e o p' hpre hR ih =>
      obtain ⟨s₀, q₀⟩ := p
      obtain ⟨rfl, rfl⟩ := hp
      obtain ⟨hshort, hguarded⟩ := ih rfl
      obtain ⟨hdelivers, hstep⟩ := hR
      have hstep₀ := (withGhost_ok.mp hstep).1
      have hreads : NoReads s₀ e := by
        cases e with
        | nrecvfrom env fd len =>
            rcases nrecvfrom_cases hstep₀ with ⟨hnone, -⟩ | ⟨a, host, -, hinfo, -⟩
            · exact hnone
            -- the first read of a datagram breaks the law
            · exact absurd hdelivers (not_delivers hshort hstep₀ hinfo)
        | packet | udpOut | tcpOut | nsocket | nbind | nlisten | naccept | nsend | nrecv
        | nsendto | nclose => trivial
      exact ⟨shortData_step hreads hshort hstep₀, hguarded.step ⟨hreads, hstep₀⟩⟩

theorem delivers_of_noReads {p : State × Pending} (h : NoReads p.1 e) : Delivers p e := by
  cases e with
  | nrecvfrom env fd len =>
      intro a host hinfo
      exact absurd (hinfo.symm.trans h) nofun
  | packet | udpOut | tcpOut | nsocket | nbind | nlisten | naccept | nsend | nrecv
  | nsendto | nclose => trivial

/-- A run obeys the law exactly if it makes no call of `nrecvfrom` on an open
    socket: each such call that returns breaks it. -/
theorem udp_reception (mac : List Byte) (hist : History) (s : State) :
    (∃ q, LawfulRun mac hist s q) ↔ GuardedRun NoReads (State.init mac) hist s := by
  constructor
  · rintro ⟨q, hlawful⟩
    exact hlawful.noReads.2
  · intro hguarded
    obtain ⟨q, hghost⟩ := exists_ghost Pending.track (fun _ => []) hguarded
    exact ⟨q, hghost.mono fun p e o p' h => ⟨delivers_of_noReads h.1, h.2⟩⟩

/-- A datagram of three bytes was received, and `nrecvfrom` returns eleven,
    the last eight from the heap. -/
theorem udp_reception_overread : ∃ (hist : History) (s s' : State) (q : Pending) (o : Out),
    LawfulRun [] hist s q ∧ q 0 = [⟨0x0200000A, htons 40000, [97, 98, 99]⟩] ∧
    step s (.nrecvfrom { Env.plain with staleHeap := fun _ => 0xAA } 3 64) = .ok (s', o) ∧
    o.ret = 11 ∧ o.buf = [97, 98, 99] ++ List.replicate 8 0xAA ∧
    ¬ Delivers (s, q) (.nrecvfrom { Env.plain with staleHeap := fun _ => 0xAA } 3 64) := by
  have hrun : execsTo (guardStep (fun p e => NoReads p.1 e) .blocked (withGhost step Pending.track))
      (State.init [], fun _ => [])
      [.nsocket .plain SOCK_DGRAM, .nbind 3 0x0100000A (htons 8889),
       .packet .plain (peerDatagram 0x0100000A [97, 98, 99])]
      (fun _ p => decide (p.2 0 = [⟨0x0200000A, htons 40000, [97, 98, 99]⟩]) &&
        decide ((getHostinfoFromfd p.1 3).map (·.sock) = some (.udp 0)) &&
        stepOk p.1 (.nrecvfrom { Env.plain with staleHeap := fun _ => 0xAA } 3 64) fun _ o =>
          decide (o.ret = 11) &&
          decide (o.buf = [97, 98, 99] ++ List.replicate 8 0xAA)) = true := by
    decide +kernel
  obtain ⟨hist, ⟨s, q⟩, hexec, hP⟩ := exec_of_execsTo hrun
  simp only [Bool.and_eq_true, decide_eq_true_eq] at hP
  obtain ⟨⟨hpending, hsock⟩, hP⟩ := hP
  obtain ⟨s', o, hstep, hP⟩ := step_of_stepOk hP
  rw [Bool.and_eq_true, decide_eq_true_eq, decide_eq_true_eq] at hP
  obtain ⟨hret, hbuf⟩ := hP
  refine ⟨hist, s, s', q, o,
    (guarded_of_exec hexec).mono fun p e o p' h => ⟨delivers_of_noReads h.1, h.2⟩, hpending, hstep,
    hret, hbuf, fun hdelivers => ?_⟩
  cases hinfo : getHostinfoFromfd s 3 with
  | none => simp [hinfo] at hsock
  | some info =>
      cases info with
      | stream a t => simp [hinfo, HostInfo.sock] at hsock
      | localhost a host =>
          obtain rfl : a = 0 := by simpa [hinfo, HostInfo.sock] using hsock
          obtain ⟨d, rest, hd, hreads⟩ := hdelivers 0 host hinfo s' o hstep
          obtain ⟨rfl, -⟩ := List.cons.inj (hpending.symm.trans hd)
          have hshort := hreads.ret
          rw [hret] at hshort
          exact absurd hshort (by decide)

end LinuxLearning.Ustack
