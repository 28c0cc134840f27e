/-
  LinuxLearning.Ustack.Atomicity

  Socket calls that run out of something: memory, ring names, room on a ring,
  descriptors.  A call is atomic if a negative result leaves the stack as it
  was, a positive one of `nsend` or `nsendto` means that the data is on
  `sndbuf`, and no block is left in LISTEN that was not there before.  Of the
  calls below only `nclose` is so always; for each of the others the states
  in which it is are found.
-/

import LinuxLearning.Ustack.Descriptors
import LinuxLearning.Ustack.RingNames

namespace LinuxLearning.Ustack

open Lib

variable {env : Env} {s s' : State} {ret : Int}

/-! ## The calls and their results -/

/-- The calls: four of the application's, and the processing of a segment for
    a block that `ng_tcp_stream_search` found. -/
inductive ApiCall where
  | nsocket (type : Int)
  | nsend (sockfd : Int) (buf : List Byte)
  | nsendto (sockfd : Int) (buf : List Byte) (ip : BitVec 32) (port : BitVec 16)
  | nclose (fd : Int)
  | handleListen (stream : NgTcpStream) (seg : Segment)

/-- What `ng_tcp_handle_listen` returns, if it does: −1 when there is no
    memory for the SYN-ACK. -/
def handleListenRet (env : Env) (stream : NgTcpStream) (seg : Segment) : Int :=
  if seg.syn = true ∧ stream.status = .listen ∧ env.malloc .synFragment = false then -1 else 0

/-- The state and the value a call returns. -/
def runCall (env : Env) (s : State) : ApiCall → Except Halt (State × Int)
  | .nsocket type => .ok ((nsocket env s type).1, (nsocket env s type).2.ret)
  | .nsend sockfd buf => (nsend env s sockfd buf).map fun r => (r.1, r.2.ret)
  | .nsendto sockfd buf ip port => (nsendto env s sockfd buf ip port).map fun r => (r.1, r.2.ret)
  | .nclose fd => (nclose env s fd).map fun r => (r.1, r.2.ret)
  | .handleListen stream seg =>
      (ngTcpHandleListen env s stream seg).map fun r => (r.1, handleListenRet env stream seg)

/-- The first `ret` bytes that the call was given are the newest data on the
    socket's `sndbuf`. -/
def ApiCall.Stored (s s' : State) (ret : Int) : ApiCall → Prop
  | .nsend sockfd buf => ∃ a t t' f,
      getHostinfoFromfd s sockfd = some (.stream a t) ∧ s'.tcb a = some t' ∧
      t'.sndItems = t.sndItems ++ [f] ∧ f.payload = buf.take ret.toNat
  | .nsendto sockfd buf _ _ => ∃ a host host' ol,
      getHostinfoFromfd s sockfd = some (.localhost a host) ∧ s'.localhost a = some host' ∧
      host'.sndItems = host.sndItems ++ [ol] ∧
      ol.data.take ol.length.toNat = buf.take ret.toNat
  | _ => True

/-- What a call that returned `ret` is to have done. -/
structure AtomicResult (s : State) (c : ApiCall) (s' : State) (ret : Int) : Prop where
  rolled_back : ret < 0 → s' = s
  stored : 0 < ret → c.Stored s s' ret
  listeners : ∀ a t', s'.tcb a = some t' → t'.status = .listen →
    ∃ t, s.tcb a = some t ∧ t.status = .listen

/-- The call is atomic, if it returns. -/
def Atomic (env : Env) (s : State) (c : ApiCall) : Prop :=
  ∀ s' ret, runCall env s c = .ok (s', ret) → AtomicResult s c s' ret

/-! ## What the calls need -/

/-- `get_fd_frombitmap` has a number to give. -/
def FdTable.HasFree (t : FdTable) : Prop :=
  ∃ n, DEFAULT_FD_NUM ≤ n ∧ n < MAX_FD_COUNT ∧ t.taken n = false

/-- Both rings of a socket can be created. -/
def RingsToBeHad (env : Env) (s : State) (rcvName sndName : RingName) : Prop :=
  (env.malloc .rcvRing = true ∧ env.malloc .sndRing = true) ∧
    rcvName ∉ s.ringNames ∧ sndName ∉ s.ringNames

/-- The call does not run out of anything at a point where it goes wrong. -/
def Meets (env : Env) (s : State) : ApiCall → Prop
  -- descriptor and socket are to be had, or neither is
  | .nsocket type =>
      (type = SOCK_DGRAM → (s.fdTable.HasFree ↔
        env.malloc .localhost = true ∧ RingsToBeHad env s udpRcvName udpSndName)) ∧
      (type = SOCK_STREAM → (s.fdTable.HasFree ↔
        env.malloc .tcpStream = true ∧ RingsToBeHad env s tcpRcvName tcpSndName))
  | .nsend sockfd buf => ∀ a t r, getHostinfoFromfd s sockfd = some (.stream a t) →
      env.malloc .sendFragment = true → env.malloc .sendData = true → t.sndbuf = some r →
      buf.length % 2 ^ 32 = 0 ∨ r.HasRoom
  -- the length of an offload has 16 bits
  | .nsendto sockfd buf _ _ => ∀ a host r, getHostinfoFromfd s sockfd = some (.localhost a host) →
      env.malloc .sendtoOffload = true → env.malloc .sendtoData = true → 0 < buf.length →
      host.sndbuf = some r → r.HasRoom ∧ buf.length < 2 ^ 16
  | .nclose _ => True
  | .handleListen stream seg => seg.syn = true → stream.status = .listen →
      env.malloc .synStream = true → env.malloc .synFragment = true

/-! ## Descriptors -/

theorem FdTable.search_of_all_taken {t : FdTable} {k fd : Nat}
    (h : ∀ n, fd ≤ n → n < fd + k → n < MAX_FD_COUNT → t.taken n = true) :
    t.search k fd = (t, -1) := by
  induction k generalizing fd with
  | zero => rfl
  | succ k ih =>
      rw [FdTable.search]
      split
      · rename_i hfd
        have htaken := h fd (Nat.le_refl _) (by omega) hfd
        rw [FdTable.taken, dif_pos hfd] at htaken
        rw [if_neg (by rw [FdTable.and_mask_eq_zero_iff, htaken]; simp)]
        exact ih fun n hn hnk => h n (by omega) (by omega)
      · rfl

theorem FdTable.search_eq_none_iff {t : FdTable} {k fd : Nat} :
    (t.search k fd).2 = -1 ↔ ∀ n, fd ≤ n → n < fd + k → n < MAX_FD_COUNT → t.taken n = true := by
  refine ⟨fun h n hn hnk hmax => ?_, fun h => by rw [search_of_all_taken h]⟩
  induction k generalizing fd with
  | zero => omega
  | succ k ih =>
      rw [FdTable.search] at h
      split at h
      · rename_i hfd
        split at h
        · omega
        · rename_i hbit
          rcases Nat.eq_or_lt_of_le hn with rfl | hlt
          · rw [FdTable.taken, dif_pos hfd]
            rwa [FdTable.and_mask_eq_zero_iff, Bool.not_eq_false] at hbit
          · exact ih h hlt (by omega)
      · omega

/-- Without a free number the bitmap stays as it is; else a number is taken. -/
theorem getFdFrombitmap_of_full {t : FdTable} (h : ¬ t.HasFree) : getFdFrombitmap t = (t, -1) := by
  refine FdTable.search_of_all_taken fun n hn _ hmax => ?_
  by_contra hfree
  exact h ⟨n, hn, hmax, by simpa using hfree⟩

theorem getFdFrombitmap_of_free {t : FdTable} (h : t.HasFree) :
    0 ≤ (getFdFrombitmap t).2 ∧ (getFdFrombitmap t).1 ≠ t := by
  rcases getFdFrombitmap_cases t with hfull | ⟨n, hfree, hfd, hgrow⟩
  · obtain ⟨n, hn, hmax, hfree⟩ := h
    have htaken := FdTable.search_eq_none_iff.mp (congrArg Prod.snd hfull) n hn
      (by rw [DEFAULT_FD_NUM, MAX_FD_COUNT] at *; omega) hmax
    simp [hfree] at htaken
  · refine ⟨by omega, fun hsame => ?_⟩
    have hn := hgrow n
    rw [hsame, hfree] at hn
    simp at hn

/-! ## `nsocket` -/

/-- Rings that cannot both be had leave no name taken. -/
theorem socketRings_of_not {α : Type} {rcvName sndName : RingName}
    (h : ¬ RingsToBeHad env s rcvName sndName) :
    socketRings α env rcvName sndName s.ringNames = (none, s.ringNames) := by
  by_cases hrcv : rcvName ∈ s.ringNames ∨ env.malloc .rcvRing = false
  · simp only [socketRings, rteRingCreate, if_pos hrcv]
  · have hsnd : sndName ∈ rcvName :: s.ringNames ∨ env.malloc .sndRing = false := by
      by_contra hno
      obtain ⟨hfresh, hmem⟩ := not_or.mp hrcv
      obtain ⟨hfresh', hmem'⟩ := not_or.mp hno
      exact h ⟨⟨by simpa using hmem, by simpa using hmem'⟩, hfresh,
        fun hmem => hfresh' (List.mem_cons_of_mem _ hmem)⟩
    simp only [socketRings, rteRingCreate, if_neg hrcv, if_pos hsnd, rteRingFree, RteRing.init,
      List.erase_cons_head]

theorem atomic_nsocket_iff {type : Int} : Atomic env s (.nsocket type) ↔
    AtomicResult s (.nsocket type) (nsocket env s type).1 (nsocket env s type).2.ret := by
  constructor
  · intro h
    exact h _ _ rfl
  · intro h s' ret hrun
    obtain ⟨rfl, rfl⟩ := Prod.mk.inj (Except.ok.inj hrun)
    exact h

/-- A call that made no socket has to have found no descriptor. -/
theorem atomic_of_no_socket {type : Int}
    (h : nsocket env s type = ({ s with fdTable := (getFdFrombitmap s.fdTable).1 }, .ofRet (-1))) :
    Atomic env s (.nsocket type) ↔ ¬ s.fdTable.HasFree := by
  rw [atomic_nsocket_iff, h]
  constructor
  · intro hatomic hfree
    have hsame := hatomic.rolled_back (Int.negSucc_lt_zero 0)
    exact (getFdFrombitmap_of_free hfree).2 (congrArg State.fdTable hsame)
  · intro hfull
    rw [getFdFrombitmap_of_full hfull]
    exact ⟨fun _ => rfl, fun _ => trivial, fun a t ht hst => ⟨t, ht, hst⟩⟩

/-- One that made a socket has to have found one. -/
theorem atomic_of_socket {type : Int}
    (hret : (nsocket env s type).2.ret = (getFdFrombitmap s.fdTable).2)
    (hmade : (nsocket env s type).1 ≠ s)
    (hlisteners : ∀ a t', (nsocket env s type).1.tcb a = some t' → t'.status = .listen →
      ∃ t, s.tcb a = some t ∧ t.status = .listen) :
    Atomic env s (.nsocket type) ↔ s.fdTable.HasFree := by
  rw [atomic_nsocket_iff, hret]
  constructor
  · intro hatomic
    by_contra hfull
    refine hmade (hatomic.rolled_back ?_)
    rw [getFdFrombitmap_of_full hfull]
    exact Int.negSucc_lt_zero 0
  · intro hfree
    have hfd := (getFdFrombitmap_of_free hfree).1
    exact ⟨fun hneg => absurd hneg (Int.not_lt.mpr hfd), fun _ => trivial, hlisteners⟩

/-- `socket(SOCK_DGRAM)` with and without its block and rings. -/
theorem nsocket_dgram_made (hmem : env.malloc .localhost = true)
    (hrings : RingsToBeHad env s udpRcvName udpSndName) :
    ∃ host, nsocket env s SOCK_DGRAM =
      ({ s with fdTable := (getFdFrombitmap s.fdTable).1
                lhost := s.lhost.add host
                ringNames := udpSndName :: udpRcvName :: s.ringNames },
        .ofRet (getFdFrombitmap s.fdTable).2) := by
  have hne : udpSndName ≠ udpRcvName := by decide
  have hsocket : socketRings Offload env "recv buffer".toList "send buffer".toList s.ringNames =
      (some (.init udpRcvName, .init udpSndName), udpSndName :: udpRcvName :: s.ringNames) :=
    socketRings_fresh hrings.1 hne hrings.2.1 hrings.2.2
  exact ⟨_, by simp only [nsocket, if_true, if_pos hmem, hsocket]; rfl⟩

theorem nsocket_dgram_failed
    (h : ¬ (env.malloc .localhost = true ∧ RingsToBeHad env s udpRcvName udpSndName)) :
    nsocket env s SOCK_DGRAM =
      ({ s with fdTable := (getFdFrombitmap s.fdTable).1 }, .ofRet (-1)) := by
  by_cases hmem : env.malloc .localhost = true
  · have hsocket : socketRings Offload env "recv buffer".toList "send buffer".toList s.ringNames =
        (none, s.ringNames) := socketRings_of_not fun hrings => h ⟨hmem, hrings⟩
    simp only [nsocket, if_true, if_pos hmem, hsocket]
  · simp only [nsocket, if_true, if_neg hmem]

/-- `socket(SOCK_STREAM)` with and without its block and rings. -/
theorem nsocket_stream_made (hmem : env.malloc .tcpStream = true)
    (hrings : RingsToBeHad env s tcpRcvName tcpSndName) :
    ∃ stream ops, stream.status = .closed ∧ nsocket env s SOCK_STREAM =
      ({ s with fdTable := (getFdFrombitmap s.fdTable).1
                tcbSet := s.tcbSet.add stream
                ringNames := tcpSndName :: tcpRcvName :: s.ringNames },
        { Out.ofRet (getFdFrombitmap s.fdTable).2 with ops := ops }) := by
  have hne : tcpSndName ≠ tcpRcvName := by decide
  have htype : SOCK_STREAM ≠ SOCK_DGRAM := by decide
  have hsocket : socketRings NgTcpFragment env "tcp recv buffer".toList
      "tcp send buffer".toList s.ringNames =
      (some (.init tcpRcvName, .init tcpSndName), tcpSndName :: tcpRcvName :: s.ringNames) :=
    socketRings_fresh hrings.1 hne hrings.2.1 hrings.2.2
  exact ⟨_, _, rfl, by simp only [nsocket, if_neg htype, if_true, if_pos hmem, hsocket]; rfl⟩

theorem nsocket_stream_failed
    (h : ¬ (env.malloc .tcpStream = true ∧ RingsToBeHad env s tcpRcvName tcpSndName)) :
    nsocket env s SOCK_STREAM =
      ({ s with fdTable := (getFdFrombitmap s.fdTable).1 }, .ofRet (-1)) := by
  have htype : SOCK_STREAM ≠ SOCK_DGRAM := by decide
  by_cases hmem : env.malloc .tcpStream = true
  · have hsocket : socketRings NgTcpFragment env "tcp recv buffer".toList
        "tcp send buffer".toList s.ringNames = (none, s.ringNames) :=
      socketRings_of_not fun hrings => h ⟨hmem, hrings⟩
    simp only [nsocket, if_neg htype, if_true, if_pos hmem, hsocket]
  · simp only [nsocket, if_neg htype, if_true, if_neg hmem]

theorem atomic_dgram_iff : Atomic env s (.nsocket SOCK_DGRAM) ↔
    (s.fdTable.HasFree ↔
      env.malloc .localhost = true ∧ RingsToBeHad env s udpRcvName udpSndName) := by
  by_cases hmade : env.malloc .localhost = true ∧ RingsToBeHad env s udpRcvName udpSndName
  · obtain ⟨host, hsocket⟩ := nsocket_dgram_made hmade.1 hmade.2
    rw [iff_true_right hmade, atomic_of_socket (by rw [hsocket]; rfl)]
    · intro hsame
      rw [hsocket] at hsame
      exact Nat.succ_ne_self _ (congrArg (·.lhost.next) hsame)
    · rw [hsocket]
      exact fun a t ht hst => ⟨t, ht, hst⟩
  · rw [iff_false_right hmade, atomic_of_no_socket (nsocket_dgram_failed hmade)]

theorem atomic_stream_iff : Atomic env s (.nsocket SOCK_STREAM) ↔
    (s.fdTable.HasFree ↔
      env.malloc .tcpStream = true ∧ RingsToBeHad env s tcpRcvName tcpSndName) := by
  by_cases hmade : env.malloc .tcpStream = true ∧ RingsToBeHad env s tcpRcvName tcpSndName
  · obtain ⟨stream, ops, hclosed, hsocket⟩ := nsocket_stream_made hmade.1 hmade.2
    rw [iff_true_right hmade, atomic_of_socket (by rw [hsocket]; rfl)]
    · intro hsame
      rw [hsocket] at hsame
      exact Nat.succ_ne_self _ (congrArg (·.tcbSet.next) hsame)
    · intro a t' ht' hst
      rw [hsocket, State.tcb, Table.get?_add] at ht'
      split at ht'
      · obtain rfl := Option.some.inj ht'
        rw [hclosed] at hst
        cases hst
      · exact ⟨t', ht', hst⟩
  · rw [iff_false_right hmade, atomic_of_no_socket (nsocket_stream_failed hmade)]

/-- A type without sockets takes the descriptor that it returns. -/
theorem atomic_other {type : Int} (hdgram : type ≠ SOCK_DGRAM) (hstream : type ≠ SOCK_STREAM) :
    Atomic env s (.nsocket type) := by
  have hsocket : nsocket env s type = ({ s with fdTable := (getFdFrombitmap s.fdTable).1 },
      .ofRet (getFdFrombitmap s.fdTable).2) := by
    simp only [nsocket, if_neg hdgram, if_neg hstream]
  rw [atomic_nsocket_iff, hsocket]
  refine ⟨fun hneg => ?_, fun _ => trivial, fun a t ht hst => ⟨t, ht, hst⟩⟩
  have hfull : ¬ s.fdTable.HasFree := fun hfree =>
    absurd hneg (Int.not_lt.mpr (getFdFrombitmap_of_free hfree).1)
  rw [getFdFrombitmap_of_full hfull]

/-! ## `nsend` and `nsendto` -/

/-- Writing a block back in the status it had makes no listener. -/
theorem listeners_setTcb {a : Addr} {t t' : NgTcpStream} (ht : s.tcb a = some t)
    (hst : t'.status = .listen → t.status = .listen) :
    ∀ b u, (s.setTcb a t').tcb b = some u → u.status = .listen →
      ∃ v, s.tcb b = some v ∧ v.status = .listen := by
  intro b u hu hlisten
  rw [tcb_setTcb] at hu
  split at hu
  · rename_i hb
    subst hb
    rw [ht] at hu
    obtain rfl := Option.some.inj hu
    exact ⟨t, ht, hst hlisten⟩
  · exact ⟨u, hu, hlisten⟩

/-- A call that returned without a change is atomic, if it does not claim
    that it stored anything. -/
theorem atomicResult_refl {c : ApiCall} (hret : ret ≤ 0) : AtomicResult s c s ret :=
  ⟨fun _ => rfl, fun hpos => absurd hpos (Int.not_lt.mpr hret), fun _ t ht hst => ⟨t, ht, hst⟩⟩

/-- A call that returned early, and stored nothing. -/
theorem unchanged_of_ofRet {n : Int} (hn : n ≤ 0)
    (h : (Except.ok (s, Out.ofRet n) : Except Halt (State × Out)).map (fun r => (r.1, r.2.ret)) =
      .ok (s', ret)) : s' = s ∧ ret ≤ 0 := by
  obtain ⟨rfl, rfl⟩ := Prod.mk.inj (Except.ok.inj h)
  exact ⟨rfl, hn⟩

/-- `nsend` on a control block, past its allocations. -/
theorem nsend_stream {sockfd : Int} {buf : List Byte} {a : Addr} {t : NgTcpStream}
    {r : RteRing NgTcpFragment} (hinfo : getHostinfoFromfd s sockfd = some (.stream a t))
    (hmem : env.malloc .sendFragment = true) (hdata : env.malloc .sendData = true)
    (hr : t.sndbuf = some r) :
    (nsend env s sockfd buf).map (fun r => (r.1, r.2.ret)) =
      .ok (s.setTcb a { t with sndbuf := some (r.mpEnqueue (sendFragment t buf)).1 },
        ((buf.length % 2 ^ 32 : Nat) : Int)) := by
  simp only [nsend, hinfo, hmem, hdata, NgTcpStream.enqueueSnd, hr, Bool.true_eq_false, if_false]
  rfl

/-- `nsend` gets that far, or leaves the state alone, or crashes. -/
theorem nsend_cases {sockfd : Int} {buf : List Byte}
    (h : (nsend env s sockfd buf).map (fun r => (r.1, r.2.ret)) = .ok (s', ret)) :
    (s' = s ∧ ret ≤ 0) ∨
    ∃ a t r, getHostinfoFromfd s sockfd = some (.stream a t) ∧
      env.malloc .sendFragment = true ∧ env.malloc .sendData = true ∧ t.sndbuf = some r := by
  cases hinfo : getHostinfoFromfd s sockfd with
  | none =>
      simp only [nsend, hinfo] at h
      exact .inl (unchanged_of_ofRet (by decide) h)
  | some info =>
      cases info with
      | localhost a host =>
          simp only [nsend, hinfo] at h
          exact .inl (unchanged_of_ofRet (by decide) h)
      | stream a t =>
          cases hmem : env.malloc .sendFragment with
          | false =>
              simp only [nsend, hinfo, hmem, if_true] at h
              exact .inl (unchanged_of_ofRet (by decide) h)
          | true =>
              cases hdata : env.malloc .sendData with
              | false =>
                  simp only [nsend, hinfo, hmem, hdata, Bool.true_eq_false, if_false, if_true] at h
                  exact .inl (unchanged_of_ofRet (by decide) h)
              | true =>
                  cases hr : t.sndbuf with
                  | none =>
                      simp [nsend, hinfo, hmem, hdata, NgTcpStream.enqueueSnd, hr, Except.map] at h
                  | some r => exact .inr ⟨a, t, r, rfl, rfl, rfl, hr⟩

theorem payload_sendFragment (t : NgTcpStream) (buf : List Byte) :
    (sendFragment t buf).payload = buf.take (buf.length % 2 ^ 32) := by
  have hle : buf.length % 2 ^ 32 ≤ buf.length := Nat.mod_le _ _
  simp only [NgTcpFragment.payload, sendFragment, Option.getD_some]
  exact List.take_append_of_le_length hle

theorem atomic_nsend_iff {sockfd : Int} {buf : List Byte} :
    Atomic env s (.nsend sockfd buf) ↔ Meets env s (.nsend sockfd buf) := by
  constructor
  · intro hatomic a t r hinfo hmem hdata hr
    by_contra hnot
    obtain ⟨hlen, hfull⟩ := not_or.mp hnot
    have hrun := hatomic _ _ (nsend_stream hinfo hmem hdata hr)
    obtain ⟨b, u, t', f, hinfo', ht', hitems, -⟩ :=
      hrun.stored (Int.natCast_pos.mpr (Nat.pos_of_ne_zero hlen))
    obtain ⟨rfl, rfl⟩ : a = b ∧ t = u := by simpa [hinfo] using hinfo'
    -- a full ring is left as it was
    rw [tcb_setTcb_at (tcb_of_hostinfo hinfo).1, RteRing.mpEnqueue_of_full hfull] at ht'
    obtain rfl := Option.some.inj ht'
    simp [NgTcpStream.sndItems, hr] at hitems
  · intro hmeets s' ret hrun
    rcases nsend_cases hrun with ⟨rfl, hret⟩ | ⟨a, t, r, hinfo, hmem, hdata, hr⟩
    · exact atomicResult_refl hret
    · rw [runCall, nsend_stream hinfo hmem hdata hr] at hrun
      obtain ⟨rfl, rfl⟩ := Prod.mk.inj (Except.ok.inj hrun)
      have htcb := (tcb_of_hostinfo hinfo).1
      refine ⟨fun hneg => by omega, fun hpos => ?_, listeners_setTcb htcb id⟩
      have hroom : r.HasRoom := (hmeets a t r hinfo hmem hdata hr).resolve_left (by omega)
      refine ⟨a, t, _, sendFragment t buf, hinfo, tcb_setTcb_at htcb _, ?_, ?_⟩
      · simp [NgTcpStream.sndItems, hr, (RteRing.mpEnqueue_of_hasRoom hroom).1]
      · rw [payload_sendFragment, Int.toNat_natCast]

/-- `nsendto` on a UDP socket, past its allocations. -/
theorem nsendto_localhost {sockfd : Int} {buf : List Byte} {ip : BitVec 32} {port : BitVec 16}
    {a : Addr} {host : Localhost} {r : RteRing Offload}
    (hinfo : getHostinfoFromfd s sockfd = some (.localhost a host))
    (hmem : env.malloc .sendtoOffload = true) (hdata : env.malloc .sendtoData = true)
    (hlen : 0 < buf.length) (hr : host.sndbuf = some r) :
    (nsendto env s sockfd buf ip port).map (fun r => (r.1, r.2.ret)) =
      .ok (s.setHost a
          { host with sndbuf := some (r.mpEnqueue (sendtoOffload host buf ip port)).1 },
        (buf.length : Int)) := by
  have hpast : ¬ (env.malloc .sendtoData = false ∨ buf.length = 0) := by
    simpa [hdata] using Nat.ne_of_gt hlen
  simp only [nsendto, hinfo, hmem, Bool.true_eq_false, if_false, if_neg hpast, hr]
  rfl

/-- `nsendto` gets that far, or leaves the state alone, or crashes. -/
theorem nsendto_past {sockfd : Int} {buf : List Byte} {ip : BitVec 32} {port : BitVec 16}
    (h : (nsendto env s sockfd buf ip port).map (fun r => (r.1, r.2.ret)) = .ok (s', ret)) :
    (s' = s ∧ ret ≤ 0) ∨
    ∃ a host r, getHostinfoFromfd s sockfd = some (.localhost a host) ∧
      env.malloc .sendtoOffload = true ∧ env.malloc .sendtoData = true ∧ 0 < buf.length ∧
      host.sndbuf = some r := by
  cases hcall : nsendto env s sockfd buf ip port with
  | error x =>
      rw [hcall] at h
      cases h
  | ok r =>
      obtain ⟨s₁, o⟩ := r
      rw [hcall] at h
      obtain ⟨rfl, rfl⟩ := Prod.mk.inj (Except.ok.inj h)
      rcases nsendto_cases hcall with ⟨rfl, rfl⟩ | ⟨a, host, r, hinfo, hr, hlen, rfl, -⟩
      · exact .inl ⟨rfl, by simp [Out.ofRet]⟩
      · have hmem : env.malloc .sendtoOffload = true := by
          by_contra hmem
          rw [Bool.not_eq_true] at hmem
          simp [nsendto, hinfo, hmem, Out.ofRet] at hcall
        have hdata : env.malloc .sendtoData = true := by
          by_contra hdata
          rw [Bool.not_eq_true] at hdata
          simp [nsendto, hinfo, hmem, hdata, Out.ofRet] at hcall
        exact .inr ⟨a, host, r, hinfo, hmem, hdata, hlen, hr⟩

theorem atomic_nsendto_iff {sockfd : Int} {buf : List Byte} {ip : BitVec 32} {port : BitVec 16} :
    Atomic env s (.nsendto sockfd buf ip port) ↔ Meets env s (.nsendto sockfd buf ip port) := by
  constructor
  · intro hatomic a host r hinfo hmem hdata hlen hr
    have hrun := hatomic _ _ (nsendto_localhost hinfo hmem hdata hlen hr)
    obtain ⟨b, host₂, host', ol, hinfo', hhost', hitems, hol⟩ :=
      hrun.stored (Int.natCast_pos.mpr hlen)
    obtain ⟨rfl, rfl⟩ : a = b ∧ host = host₂ := by simpa [hinfo] using hinfo'
    rw [localhost_setHost, if_pos rfl, localhost_of_hostinfo hinfo] at hhost'
    obtain rfl := Option.some.inj hhost'
    by_cases hroom : r.HasRoom
    · refine ⟨hroom, ?_⟩
      rw [Localhost.sndItems, Localhost.sndItems, offloadItems_some,
        (RteRing.mpEnqueue_of_hasRoom hroom).1, hr, offloadItems_some] at hitems
      obtain rfl : sendtoOffload host buf ip port = ol := by simpa using hitems
      -- the data of the offload ends where its length says
      have hlen' := congrArg List.length hol
      simp only [sendtoOffload, List.length_take, BitVec.toNat_ofNat, Int.toNat_natCast] at hlen'
      omega
    · rw [RteRing.mpEnqueue_of_full hroom] at hitems
      simp [Localhost.sndItems, hr] at hitems
  · intro hmeets s' ret hrun
    rcases nsendto_past hrun with ⟨rfl, hret⟩ | ⟨a, host, r, hinfo, hmem, hdata, hlen, hr⟩
    · exact atomicResult_refl hret
    · rw [runCall, nsendto_localhost hinfo hmem hdata hlen hr] at hrun
      obtain ⟨rfl, rfl⟩ := Prod.mk.inj (Except.ok.inj hrun)
      obtain ⟨hroom, hshort⟩ := hmeets a host r hinfo hmem hdata hlen hr
      refine ⟨fun hneg => by omega, fun _ => ?_, fun _ t ht hst => ⟨t, ht, hst⟩⟩
      refine ⟨a, host, _, sendtoOffload host buf ip port, hinfo,
        by rw [localhost_setHost, if_pos rfl, localhost_of_hostinfo hinfo]; rfl, ?_, ?_⟩
      · simp [Localhost.sndItems, hr, (RteRing.mpEnqueue_of_hasRoom hroom).1]
      · rw [Int.toNat_natCast, sendtoOffload, BitVec.toNat_ofNat, Nat.mod_eq_of_lt hshort]

/-! ## `nclose` and `ng_tcp_handle_listen` -/

theorem atomic_nclose {fd : Int} : Atomic env s (.nclose fd) := by
  intro s' ret hrun
  rw [runCall] at hrun
  cases hinfo : getHostinfoFromfd s fd with
  | none =>
      simp only [nclose, hinfo] at hrun
      obtain ⟨rfl, rfl⟩ := Prod.mk.inj (Except.ok.inj hrun)
      exact atomicResult_refl (by simp [Out.ofRet])
  | some info =>
      cases info with
      | localhost a host =>
          simp only [nclose, hinfo] at hrun
          obtain ⟨rfl, rfl⟩ := Prod.mk.inj (Except.ok.inj hrun)
          exact ⟨fun hneg => absurd hneg (Int.lt_irrefl 0), fun _ => trivial,
            fun _ t ht hst => ⟨t, ht, hst⟩⟩
      | stream a t =>
          have htcb := (tcb_of_hostinfo hinfo).1
          simp only [nclose, hinfo] at hrun
          split at hrun
          · split at hrun
            · obtain ⟨rfl, rfl⟩ := Prod.mk.inj (Except.ok.inj hrun)
              exact atomicResult_refl (by simp [Out.ofRet])
            · cases hr : t.sndbuf with
              | none => simp [NgTcpStream.enqueueSnd, hr, Except.map] at hrun
              | some r =>
                  simp only [NgTcpStream.enqueueSnd, hr] at hrun
                  obtain ⟨rfl, rfl⟩ := Prod.mk.inj (Except.ok.inj hrun)
                  refine ⟨fun hneg => absurd hneg (Int.lt_irrefl 0), fun _ => trivial,
                    fun b u hu hst => ?_⟩
                  exact listeners_setTcb htcb (fun h => by cases h) b u hu hst
          · obtain ⟨rfl, rfl⟩ := Prod.mk.inj (Except.ok.inj hrun)
            refine ⟨fun hneg => absurd hneg (Int.lt_irrefl 0), fun _ => trivial,
              fun b u hu hst => ?_⟩
            rw [State.tcb, Table.get?_remove] at hu
            split at hu
            · cases hu
            · exact ⟨u, hu, hst⟩

theorem atomic_handleListen_iff {stream : NgTcpStream} {seg : Segment} :
    Atomic env s (.handleListen stream seg) ↔ Meets env s (.handleListen stream seg) := by
  constructor
  · intro hatomic hsyn hst hmem
    by_contra hfrag
    rw [Bool.not_eq_true] at hfrag
    obtain ⟨syn, live, hcreate⟩ : ∃ syn live,
        ngTcpStreamCreate env s seg.sip seg.dip seg.sport seg.dport = some (syn, live) :=
      ⟨_, _, by simp only [ngTcpStreamCreate, if_pos hmem]; rfl⟩
    have hrun : runCall env s (.handleListen stream seg) =
        .ok ({ s with tcbSet := s.tcbSet.add syn, ringNames := live }, -1) := by
      simp only [runCall, ngTcpHandleListen, handleListenRet, hsyn, hst, hcreate, hfrag,
        and_self, if_true, Bool.false_eq_true, if_false]
      rfl
    have hsame := (hatomic _ _ hrun).rolled_back (Int.negSucc_lt_zero 0)
    exact Nat.succ_ne_self _ (congrArg (·.tcbSet.next) hsame)
  · intro hmeets s' ret hrun
    rw [runCall] at hrun
    cases hcall : ngTcpHandleListen env s stream seg with
    | error x =>
        rw [hcall] at hrun
        cases hrun
    | ok r =>
        obtain ⟨s₁, ops⟩ := r
        rw [hcall] at hrun
        obtain ⟨rfl, rfl⟩ := Prod.mk.inj (Except.ok.inj hrun)
        cases ngTcpHandleListen_ok hcall with
        | ignored hnot =>
            have hret : handleListenRet env stream seg = 0 := if_neg fun h => hnot ⟨h.1, h.2.1⟩
            exact atomicResult_refl (Int.le_of_eq hret)
        | @answered syn live r hsyn hst hcreate hfrag hr =>
            have hret : handleListenRet env stream seg = 0 :=
              if_neg fun h => Bool.false_ne_true (h.2.2.symm.trans hfrag)
            rw [hret]
            refine ⟨fun hneg => absurd hneg (Int.lt_irrefl 0), fun _ => trivial,
              fun b u hu hlisten => ?_⟩
            rw [tcb_setTcb_add] at hu
            split at hu
            · obtain rfl := Option.some.inj hu
              cases hlisten
            · exact ⟨u, hu, hlisten⟩
        | unanswered hsyn hst hcreate hfrag =>
            rw [hmeets hsyn hst (malloc_of_create hcreate)] at hfrag
            cases hfrag

/-! ## All calls -/

/-- A call is atomic exactly in the states and environments in which it does
    not run out of what it needs at one of the wrong points. -/
theorem atomic_iff (env : Env) (s : State) (c : ApiCall) : Atomic env s c ↔ Meets env s c := by
  cases c with
  | nsocket type =>
      by_cases hdgram : type = SOCK_DGRAM
      · subst hdgram
        rw [atomic_dgram_iff, Meets]
        exact ⟨fun h => ⟨fun _ => h, fun hno => absurd hno (by decide)⟩, fun h => h.1 rfl⟩
      · by_cases hstream : type = SOCK_STREAM
        · subst hstream
          rw [atomic_stream_iff, Meets]
          exact ⟨fun h => ⟨fun hno => absurd hno (by decide), fun _ => h⟩, fun h => h.2 rfl⟩
        · exact iff_of_true (atomic_other hdgram hstream)
            ⟨fun h => absurd h hdgram, fun h => absurd h hstream⟩
  | nsend sockfd buf => exact atomic_nsend_iff
  | nsendto sockfd buf ip port => exact atomic_nsendto_iff
  | nclose fd => exact iff_of_true atomic_nclose trivial
  | handleListen stream seg => exact atomic_handleListen_iff

/-- No allocation succeeds. -/
def Env.noMemory : Env := { Env.plain with malloc := fun _ => false }

/-- There is no memory for the SYN-ACK. -/
def Env.noSynFragment : Env := { Env.plain with malloc := fun site => site != .synFragment }

/-- `ng_tcp_handle_listen` returned −1 for the block at address 0 and left a
    new block in LISTEN, without a descriptor, at address 1. -/
def leavesListener (s : State) : Bool :=
  match s.tcb 0 with
  | none => false
  | some listener =>
      match runCall .noSynFragment s
        (.handleListen listener (peerSegment RTE_TCP_SYN_FLAG 500 0 []).segment) with
      | .error _ => false
      | .ok (s', ret) => decide (ret = -1 ∧ (s.tcb 1).isNone ∧
          (s'.tcb 1).map (fun t => (t.status, t.fd)) = some (.listen, -1))

/-- A fresh stack without memory: `nsocket` fails and keeps descriptor 3.  And
    a listener that gets a SYN without memory for the fragment. -/
theorem failed_calls_leave_traces :
    (SystemRun (State.init []) [] (State.init []) ∧
      (nsocket .noMemory (State.init []) SOCK_DGRAM).2.ret = -1 ∧
      (nsocket .noMemory (State.init []) SOCK_DGRAM).1.fdTable.taken 3 = true ∧
      ¬ Atomic .noMemory (State.init []) (.nsocket SOCK_DGRAM)) ∧
    ∃ hist s, SystemRun (State.init []) hist s ∧ leavesListener s = true := by
  constructor
  · refine ⟨.start, rfl, by decide, fun hatomic => ?_⟩
    have hsame := (atomic_nsocket_iff.mp hatomic).rolled_back (Int.negSucc_lt_zero 0)
    have htaken := congrArg (fun s : State => s.fdTable.taken 3) hsame
    exact absurd htaken (by decide)
  · have hrun : runsTo (State.init []) openServer (fun _ s => leavesListener s) = true := by
      decide +kernel
    exact run_of_runsTo hrun

end LinuxLearning.Ustack
