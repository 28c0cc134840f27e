/-
  LinuxLearning.Ustack.UdpServer

  The thread of `udp_server_entry` on the stack, with the other threads.

  The server takes a datagram into its buffer and sends back what `strlen`
  finds there.  `nrecvfrom` writes eight bytes more than the datagram has, and
  nobody clears the buffer, so the answer is the datagram only by luck:
  exactly if it fits with those eight bytes, has no NUL byte, and the first
  of the eight is one.  Nor does the server look at what `nsendto` returns: an
  answer without memory or without room on the send ring is lost.
-/

import Mathlib.Data.List.TakeWhile
import LinuxLearning.Ustack.Descriptors
import LinuxLearning.Ustack.EndToEnd

namespace LinuxLearning.Ustack

open Lib

variable {env : Env} {st st' : State} {m : Mbuf} {o : Out} {a b : Addr} {host host' : Localhost}

/-! ## The server -/

def UDP_APP_RECV_BUFFER_SIZE : Nat := 128

/-- The call the thread of `udp_server_entry` makes next. -/
inductive UdpServerPc where
  | nsocket
  | nbind
  | nrecvfrom
  | nsendto
  | returned
deriving DecidableEq, Repr

/-- The stack, and the thread with its local variables. -/
structure UdpServer where
  stack : State
  pc : UdpServerPc
  connfd : Int
  buffer : List Byte
  clientaddr : BitVec 32 × BitVec 16

/-- A step of the other threads, or the thread's next call. -/
inductive ServerEvent where
  | stack (e : Event)
  | call (env : Env)

/-- Why the thread does not go on. -/
inductive ServerHalt where
  | stack (h : Halt)
  /-- `strlen` reads past the end of `buffer`. -/
  | overrun
  | returned
deriving DecidableEq, Repr

/-- The string at the start of the buffer, if it ends there. -/
def bufferString (buffer : List Byte) : Option (List Byte) :=
  if 0 ∈ buffer then some (buffer.takeWhile (· ≠ 0)) else none

/-- `inet_addr("192.168.0.119")`. -/
def serverIp : BitVec 32 := 0x7700A8C0

/-- One call of `udp_server_entry`. -/
def serverCall (env : Env) (s : UdpServer) : Except ServerHalt (UdpServer × Out) :=
  match s.pc with
  | .nsocket =>
      let (stack, o) := Ustack.nsocket env s.stack SOCK_DGRAM
      let pc := if o.ret = -1 then .returned else .nbind
      .ok ({ s with stack := stack, pc := pc, connfd := o.ret }, o)
  | .nbind =>
      let (stack, o) := Ustack.nbind s.stack s.connfd serverIp (htons 8889)
      .ok ({ s with stack := stack, pc := .nrecvfrom }, o)
  | .nrecvfrom =>
      match Ustack.nrecvfrom env s.stack s.connfd UDP_APP_RECV_BUFFER_SIZE with
      | .error h => .error (.stack h)
      | .ok (stack, o) =>
          if o.ret < 0 then .ok ({ s with stack := stack }, o)
          else
            .ok ({ s with
                    stack := stack
                    pc := .nsendto
                    buffer := o.buf ++ s.buffer.drop o.buf.length
                    clientaddr := o.peer.getD s.clientaddr }, o)
  | .nsendto =>
      match bufferString s.buffer with
      | none => .error .overrun
      | some str =>
          match Ustack.nsendto env s.stack s.connfd str s.clientaddr.1 s.clientaddr.2 with
          | .error h => .error (.stack h)
          | .ok (stack, o) => .ok ({ s with stack := stack, pc := .nrecvfrom }, o)
  | .returned => .error .returned

/-- What a step found, and what the stack reported. -/
structure ServerReport where
  before : UdpServer
  out : Out

/-- One step of the server's thread or of the others. -/
def serverStep (s : UdpServer) : ServerEvent → Except ServerHalt (UdpServer × ServerReport)
  | .stack e =>
      match step s.stack e with
      | .error h => .error (.stack h)
      | .ok (stack, o) => .ok ({ s with stack := stack }, ⟨s, o⟩)
  | .call env =>
      match serverCall env s with
      | .error h => .error h
      | .ok (s', o) => .ok (s', ⟨s, o⟩)

/-- The thread as it starts, with a cleared buffer. -/
def UdpServer.start (mac : List Byte) : UdpServer where
  stack := .init mac
  pc := .nsocket
  connfd := -1
  buffer := List.replicate UDP_APP_RECV_BUFFER_SIZE 0
  clientaddr := (0, 0)

/-- The other threads open no UDP socket, and make no calls on this one. -/
def LeavesServer (s : UdpServer) : ServerEvent → Prop
  | .stack (.nsocket _ type) => type ≠ SOCK_DGRAM
  | .stack (.nbind fd _ _) | .stack (.nrecvfrom _ fd _) | .stack (.nsendto _ fd _ _ _)
  | .stack (.nclose _ fd) => fd ≠ s.connfd
  | _ => True

instance (s : UdpServer) : (e : ServerEvent) → Decidable (LeavesServer s e)
  | .stack (.nsocket _ type) => inferInstanceAs (Decidable (type ≠ SOCK_DGRAM))
  | .stack (.nbind fd _ _) | .stack (.nrecvfrom _ fd _) | .stack (.nsendto _ fd _ _ _)
  | .stack (.nclose _ fd) => inferInstanceAs (Decidable (fd ≠ s.connfd))
  | .stack (.packet _ _) | .stack (.udpOut _) | .stack (.tcpOut _) | .stack (.nlisten _)
  | .stack (.naccept _) | .stack (.nsend _ _ _) | .stack (.nrecv _ _) | .call _ => .isTrue trivial

abbrev ServerHistory := List (ServerEvent × ServerReport)

/-- The runs of the server with the other threads. -/
abbrev ServerRun (mac : List Byte) (hist : ServerHistory) (s : UdpServer) : Prop :=
  Run (Guarded LeavesServer (StepsOf serverStep)) (.start mac) hist s

/-! ## Datagrams -/

/-- The datagram in an offload that came. -/
def Offload.datagram (ol : Offload) : Datagram := ⟨ol.sip, ol.sport, ol.data⟩

/-- The datagram in an offload that goes, with where it goes. -/
def Offload.addressed (ol : Offload) : Datagram := ⟨ol.dip, ol.dport, ol.data⟩

/-- The datagram that a step queued on a socket. -/
def arrival : ServerEvent × ServerReport → Option Datagram
  | (.stack (.packet env m), r) =>
      match r.before.stack.receiver m with
      | some (_, host) => if Accepts env m host then some m.datagram else none
      | none => none
  | _ => none

/-- What is on the send ring of the server's socket. -/
def UdpServer.outgoing (s : UdpServer) : List Offload :=
  match s.stack.udpHost s.connfd with
  | some host => host.sndItems
  | none => []

/-- What a call of `nsendto` puts on the send ring, and for whom. -/
def answer : ServerEvent × ServerReport → Option Datagram
  | (.call env, r) =>
      if r.before.pc = .nsendto then
        match serverCall env r.before with
        | .ok (s', _) => (s'.outgoing.drop r.before.outgoing.length).head?.map Offload.addressed
        | .error _ => none
      else none
  | _ => none

/-- The datagrams queued on the server's socket, oldest first. -/
def arrived (hist : ServerHistory) : List Datagram := hist.filterMap arrival

/-- The datagrams the server put on its send ring, oldest first. -/
def answered (hist : ServerHistory) : List Datagram := hist.filterMap answer

/-- What is on the ring of the server's socket. -/
def UdpServer.queue (s : UdpServer) : List Offload :=
  match s.stack.udpHost s.connfd with
  | some host => host.rcvItems
  | none => []

/-- The datagrams on the server's socket. -/
def UdpServer.waiting (s : UdpServer) : List Datagram := s.queue.map Offload.datagram

/-- What the server is about to send: nothing yet, or the string in its
    buffer, if there is one. -/
def UdpServer.inHand (s : UdpServer) : Option (List Datagram) :=
  if s.pc = .nsendto then
    (bufferString s.buffer).map fun str => [⟨s.clientaddr.1, s.clientaddr.2, str⟩]
  else some []

/-- What arrived was put on the send ring, or is about to be, or waits. -/
def Faithful (hist : ServerHistory) (s : UdpServer) : Prop :=
  ∃ hand ∈ s.inHand, arrived hist = answered hist ++ hand ++ s.waiting

/-- `nsendto` gets memory, and the send ring has room. -/
def CanAnswer (env : Env) (s : UdpServer) : Prop :=
  env.malloc .sendtoOffload = true ∧ env.malloc .sendtoData = true ∧
    ∃ host ∈ s.stack.udpHost s.connfd, ∃ r ∈ host.sndbuf, r.HasRoom

instance (env : Env) (s : UdpServer) : Decidable (CanAnswer env s) :=
  inferInstanceAs (Decidable (_ ∧ _ ∧ _))

/-- The server takes no datagram but one that leaves room for eight bytes more
    in the buffer, has no NUL byte, and has one behind it on the heap; and
    when it answers it can. -/
def TakesAndAnswers (s : UdpServer) : ServerEvent → Prop
  | .call env =>
      (s.pc = .nrecvfrom → ∀ d ∈ s.waiting.head?,
        d.bytes.length + sizeofUdpHdr ≤ UDP_APP_RECV_BUFFER_SIZE ∧ 0 ∉ d.bytes ∧
          env.staleHeap 0 = 0) ∧
      (s.pc = .nsendto → CanAnswer env s)
  | .stack _ => True

/-! ## The string in the buffer -/

/-- Bytes are a string of their own just if they have no NUL, and one is
    behind them. -/
theorem bufferString_append_cons {str : List Byte} {c : Byte} {rest : List Byte} :
    bufferString (str ++ c :: rest) = some str ↔ 0 ∉ str ∧ c = 0 := by
  constructor
  · intro h
    unfold bufferString at h
    split at h
    · have htake := Option.some.inj h
      have hstr : 0 ∉ str := by
        intro hmem
        rw [← htake] at hmem
        simpa using List.mem_takeWhile_imp hmem
      have hpass : ∀ x ∈ str, decide (x ≠ 0) = true := fun x hx =>
        decide_eq_true fun hzero => hstr (hzero ▸ hx)
      rw [List.takeWhile_append_of_pos hpass, List.takeWhile_cons] at htake
      refine ⟨hstr, ?_⟩
      by_contra hc
      rw [if_pos (decide_eq_true hc)] at htake
      simp at htake
    · cases h
  · rintro ⟨hstr, rfl⟩
    have hpass : ∀ x ∈ str, decide (x ≠ 0) = true := fun x hx =>
      decide_eq_true fun hzero => hstr (hzero ▸ hx)
    have hmem : (0 : Byte) ∈ str ++ 0 :: rest := List.mem_append_right _ List.mem_cons_self
    rw [bufferString, if_pos hmem, List.takeWhile_append_of_pos hpass]
    simp

/-! ## The server's socket -/

variable {s s' : UdpServer} {e : ServerEvent} {r : ServerReport} {hist : ServerHistory}

/-- There is no UDP socket but the server's. -/
structure ServerInv (s : UdpServer) : Prop where
  fd : ∀ a host, s.stack.localhost a = some host → host.fd = s.connfd
  one : ∀ a b host host', s.stack.localhost a = some host →
    s.stack.localhost b = some host' → a = b
  unopened : s.pc = .nsocket → ∀ a, s.stack.localhost a = none

theorem fd_of_hostinfo {fd : Int} (h : getHostinfoFromfd st fd = some (.localhost a host)) :
    host.fd = fd := by
  have hfd := fdOf_of_hostinfo h
  rw [HostInfo.sock, State.fdOf] at hfd
  have ha : st.lhost.get? a = some host := localhost_of_hostinfo h
  rw [ha] at hfd
  exact Option.some.inj hfd

theorem ServerInv.hostinfo (h : ServerInv s) (ha : s.stack.localhost a = some host) :
    getHostinfoFromfd s.stack s.connfd = some (.localhost a host) := by
  unfold getHostinfoFromfd
  cases hfind : s.stack.lhost.find? fun host => s.connfd == host.fd with
  | none =>
      have hno := Table.find?_eq_none_iff.mp hfind a host ha
      rw [h.fd a host ha, beq_self_eq_true] at hno
      cases hno
  | some found =>
      obtain ⟨b, other⟩ := found
      have hb : s.stack.localhost b = some other := Table.get?_of_find? hfind
      obtain rfl := h.one b a other host hb ha
      obtain rfl := Option.some.inj (hb.symm.trans ha)
      rfl

theorem ServerInv.queue_eq (h : ServerInv s) (ha : s.stack.localhost a = some host) :
    s.queue = host.rcvItems := by
  rw [UdpServer.queue, udpHost_of_hostinfo (h.hostinfo ha)]

/-- Without a socket nothing waits. -/
theorem queue_of_none (hnone : ∀ a, s.stack.localhost a = none) : s.queue = [] := by
  rw [UdpServer.queue, State.udpHost]
  split
  · rename_i hhost
    split at hhost
    · rename_i a host hinfo
      have hsome := localhost_of_hostinfo hinfo
      rw [hnone] at hsome
      cases hsome
    · cases hhost
  · rfl

/-- What of a socket matters to the server. -/
def Localhost.key (host : Localhost) : Int × List Offload := (host.fd, host.rcvItems)

/-- A step that keeps the descriptors and the queues of all sockets. -/
theorem ServerInv.keep (h : ServerInv s) (s' : UdpServer)
    (hkey : ∀ b, (s'.stack.localhost b).map Localhost.key = (s.stack.localhost b).map Localhost.key)
    (hfd : s'.connfd = s.connfd) (hpc : s'.pc = .nsocket → s.pc = .nsocket) :
    ServerInv s' ∧ s'.queue = s.queue := by
  have hback : ∀ b host', s'.stack.localhost b = some host' →
      ∃ host, s.stack.localhost b = some host ∧ host'.key = host.key := by
    intro b host' hb
    have heq := hkey b
    rw [hb, Option.map_some] at heq
    obtain ⟨host, hhost, hkey⟩ := Option.map_eq_some_iff.mp heq.symm
    exact ⟨host, hhost, hkey.symm⟩
  have hinv : ServerInv s' := by
    refine ⟨?_, ?_, ?_⟩
    · intro a host' ha
      obtain ⟨host, ha, heq⟩ := hback a host' ha
      rw [hfd, ← h.fd a host ha]
      exact congrArg Prod.fst heq
    · intro a b host₁ host₂ ha hb
      obtain ⟨_, ha, -⟩ := hback a host₁ ha
      obtain ⟨_, hb, -⟩ := hback b host₂ hb
      exact h.one a b _ _ ha hb
    · intro hstart a
      have heq := hkey a
      rw [h.unopened (hpc hstart) a] at heq
      exact Option.map_eq_none_iff.mp heq
  refine ⟨hinv, ?_⟩
  by_cases hsome : ∃ a host', s'.stack.localhost a = some host'
  · obtain ⟨a, host', ha⟩ := hsome
    obtain ⟨host, hhost, heq⟩ := hback a host' ha
    rw [hinv.queue_eq ha, h.queue_eq hhost]
    exact congrArg Prod.snd heq
  · have hnone' : ∀ a, s'.stack.localhost a = none := fun a =>
      Option.eq_none_iff_forall_not_mem.mpr fun host' ha => hsome ⟨a, host', ha⟩
    have hnone : ∀ a, s.stack.localhost a = none := fun a => by
      have heq := hkey a
      rw [hnone' a] at heq
      exact Option.map_eq_none_iff.mp heq.symm
    rw [queue_of_none hnone', queue_of_none hnone]

/-- A step that writes the socket, and keeps its descriptor. -/
theorem ServerInv.write (h : ServerInv s) (s' : UdpServer)
    (ha : s.stack.localhost a = some host)
    (hlocal : ∀ b, s'.stack.localhost b = if b = a then some host' else s.stack.localhost b)
    (hhost : host'.fd = host.fd) (hfd : s'.connfd = s.connfd)
    (hpc : s'.pc = .nsocket → s.pc = .nsocket) :
    ServerInv s' ∧ s'.queue = host'.rcvItems := by
  have hself : s'.stack.localhost a = some host' := by rw [hlocal, if_pos rfl]
  have honly : ∀ b other, s'.stack.localhost b = some other → b = a := by
    intro b other hb
    by_contra hne
    rw [hlocal, if_neg hne] at hb
    exact hne (h.one b a _ _ hb ha)
  have hinv : ServerInv s' := by
    refine ⟨?_, ?_, ?_⟩
    · intro b other hb
      obtain rfl := honly b other hb
      obtain rfl := Option.some.inj (hself.symm.trans hb)
      rw [hhost, hfd, h.fd b host ha]
    · intro b c other₁ other₂ hb hc
      rw [honly b other₁ hb, honly c other₂ hc]
    · intro hstart
      exact absurd ha (by rw [h.unopened (hpc hstart)]; nofun)
  exact ⟨hinv, hinv.queue_eq hself⟩

/-! ## What one step does -/

/-- A step of the server or of the others, with what it does to the datagrams
    on the ring and to the one in hand. -/
inductive ServerMove (s : UdpServer) (e : ServerEvent) (r : ServerReport) (s' : UdpServer) :
    Prop where
  | quiet : arrival (e, r) = none → answer (e, r) = none → s'.queue = s.queue →
      s'.inHand = s.inHand → TakesAndAnswers s e → ServerMove s e r s'
  | arrived {m : Mbuf} : arrival (e, r) = some m.datagram → answer (e, r) = none →
      sizeofUdpHdr < m.offload.length.toNat → s'.queue = s.queue ++ [m.offload] →
      s'.inHand = s.inHand → TakesAndAnswers s e → ServerMove s e r s'
  | part {env : Env} {ol : Offload} {rest : List Offload} : e = .call env →
      answer (e, r) = none → s.pc = .nrecvfrom → s.queue = ol :: rest →
      UDP_APP_RECV_BUFFER_SIZE < ol.length.toNat →
      s'.queue = rest ++ [ol.rest env.staleHeap UDP_APP_RECV_BUFFER_SIZE] → s'.pc = .nsendto →
      ServerMove s e r s'
  | whole {env : Env} {ol : Offload} {rest : List Offload} : e = .call env →
      answer (e, r) = none → s.pc = .nrecvfrom → s.queue = ol :: rest →
      ol.length.toNat ≤ UDP_APP_RECV_BUFFER_SIZE → s'.queue = rest → s'.pc = .nsendto →
      s'.clientaddr = (ol.sip, ol.sport) →
      s'.buffer = ol.read env.staleHeap 0 ol.length.toNat ++ s.buffer.drop ol.length.toNat →
      ServerMove s e r s'
  | answered {d : Datagram} : arrival (e, r) = none → answer (e, r) = some d →
      s.inHand = some [d] → s'.inHand = some [] → s'.queue = s.queue → TakesAndAnswers s e →
      ServerMove s e r s'
  | lost {d : Datagram} : arrival (e, r) = none → answer (e, r) = none →
      s.inHand = some [d] → s'.inHand = some [] → s'.queue = s.queue →
      (d.bytes ≠ [] → ¬ TakesAndAnswers s e) → ServerMove s e r s'

/-- The others' steps but packets keep the descriptors and the queues. -/
theorem key_of_other {e : Event} (h : ServerInv s) (hC : LeavesServer s (.stack e))
    (he : e.isPacket = false) (hstep : step s.stack e = .ok (st', o)) (b : Addr) :
    (st'.localhost b).map Localhost.key = (s.stack.localhost b).map Localhost.key := by
  -- a call on a socket is on another than the server's
  have hown : ∀ {fd host}, getHostinfoFromfd s.stack fd = some (.localhost b host) →
      fd = s.connfd := fun hinfo =>
    (fd_of_hostinfo hinfo).symm.trans (h.fd b _ (localhost_of_hostinfo hinfo))
  have hchange := hostChange_of_step hstep b
  generalize s.stack.localhost b = before at hchange ⊢
  generalize st'.localhost b = after at hchange ⊢
  cases hchange with
  | idle => rfl
  | opened he' =>
      subst he'
      exact absurd rfl hC
  | arrived he' =>
      subst he'
      cases he
  | output =>
      simp only [Option.map_some, Option.some.injEq, Localhost.key, Prod.mk.injEq]
      obtain ⟨hrcv, -⟩ := (outTurn_udpOutHost s.stack.arpt _).kept
      exact ⟨udpOutHost_fd .., by rw [Localhost.rcvItems, hrcv]; rfl⟩
  | bound he' hinfo | reading he' hinfo | sending he' hinfo | closed he' hinfo =>
      subst he'
      exact absurd (hown hinfo) hC

/-- A datagram that `udp_process` does not queue was not to be queued. -/
theorem udpProcess_moves (h : udpProcess env st m = .ok (st', o)) (hudp : m.IsUdp) :
    (st' = st ∧ ∀ a host, st.receiver m = some (a, host) → ¬ Accepts env m host) ∨
    ∃ a host r, st.receiver m = some (a, host) ∧ host.rcvbuf = some r ∧
      sizeofUdpHdr < m.offload.length.toNat ∧ (Accepts env m host ↔ r.HasRoom) ∧
      st' = st.setHost a { host with rcvbuf := some (r.mpEnqueue m.offload).1 } := by
  rcases udpProcess_cases h with
    ⟨rfl, ret, hret, rfl⟩ | ⟨a, host, r, hrcv, hm, hd, hlen, hr, -, rfl⟩
  · refine .inl ⟨rfl, fun a host hrcv hacc => hret ?_⟩
    obtain ⟨-, hm, hd, hlen, r, hr, -⟩ := hacc
    rw [Option.mem_def] at hr
    rw [udpProcess, udpExit_eq_queued_iff.mpr ⟨hrcv, hm, hd, hlen⟩] at h
    simp only [hr] at h
    exact congrArg Out.ret (Prod.mk.inj (Except.ok.inj h)).2.symm
  · refine .inr ⟨a, host, r, hrcv, hr, hlen, ⟨?_, ?_⟩, rfl⟩
    · rintro ⟨-, -, -, -, r', hr', hroom⟩
      obtain rfl := Option.some.inj (hr.symm.trans hr')
      exact hroom
    · exact fun hroom => ⟨hudp, hm, hd, hlen, r, hr, hroom⟩

theorem localhost_of_setHost {st₀ : State} (ha : st₀.localhost a = some host)
    (hst' : st' = st₀.setHost a host') (b : Addr) :
    st'.localhost b = if b = a then some host' else st₀.localhost b := by
  rw [hst', localhost_setHost]
  by_cases hb : b = a
  · subst hb
    rw [if_pos rfl, if_pos rfl, ha, Option.map_some]
  · rw [if_neg hb, if_neg hb]

theorem arrival_of_not_udp (hudp : ¬ m.IsUdp) : arrival (.stack (.packet env m), r) = none := by
  simp only [arrival]
  split
  · exact if_neg fun hacc => hudp hacc.1
  · rfl

theorem serverMove_of_stack {e : Event} (h : ServerInv s) (hC : LeavesServer s (.stack e))
    (hstep : step s.stack e = .ok (st', o)) :
    ServerInv { s with stack := st' } ∧
      ServerMove s (.stack e) ⟨s, o⟩ { s with stack := st' } := by
  have hquiet : arrival (.stack e, ⟨s, o⟩) = none →
      (∀ b, (st'.localhost b).map Localhost.key = (s.stack.localhost b).map Localhost.key) →
      ServerInv { s with stack := st' } ∧
        ServerMove s (.stack e) ⟨s, o⟩ { s with stack := st' } := by
    intro harr hkey
    obtain ⟨hinv, hqueue⟩ := h.keep { s with stack := st' } hkey rfl fun hpc => hpc
    exact ⟨hinv, .quiet harr rfl hqueue rfl trivial⟩
  cases e with
  | packet env m =>
      rcases pktProcess_cases hstep with ⟨hudp, hstep⟩ | ⟨htcp, hstep⟩ | ⟨hudp, -, -, rfl⟩
      · rcases udpProcess_moves hstep hudp with
          ⟨rfl, hno⟩ | ⟨a, host, ring, hrcv, hr, hlen, hacc, hst'⟩
        · refine hquiet ?_ fun _ => rfl
          simp only [arrival]
          split
          · rename_i a host hrcv
            exact if_neg (hno a host hrcv)
          · rfl
        · have ha : s.stack.localhost a = some host := localhost_of_receiver hrcv
          have hrcv' : s.stack.receiver m = some (a, host) := hrcv
          have ha' : (s.stack.learnFrom env m).localhost a = some host := ha
          have hlocal := localhost_of_setHost ha' hst'
          obtain ⟨hinv, hqueue⟩ :=
            h.write { s with stack := st' } ha hlocal rfl rfl fun hpc => hpc
          rw [Localhost.rcvItems, offloadItems_some] at hqueue
          have hitems : s.queue = ring.items := by
            rw [h.queue_eq ha, Localhost.rcvItems, hr, offloadItems_some]
          refine ⟨hinv, ?_⟩
          by_cases hroom : ring.HasRoom
          · refine .arrived (m := m) ?_ rfl hlen ?_ rfl trivial
            · simp only [arrival, hrcv', if_pos (hacc.mpr hroom)]
            · rw [hqueue, hitems]
              exact (RteRing.mpEnqueue_of_hasRoom hroom).1
          · refine .quiet ?_ rfl ?_ rfl trivial
            · simp only [arrival, hrcv', if_neg fun h => hroom (hacc.mp h)]
            · rw [hqueue, hitems, RteRing.mpEnqueue_of_full hroom]
      · have hudp : ¬ m.IsUdp := fun hudp => absurd (hudp.2.symm.trans htcp.2) (by decide)
        obtain ⟨tcbs, live, rfl, -⟩ := ngTcpProcess_frame hstep
        exact hquiet (arrival_of_not_udp hudp) fun _ => rfl
      · refine hquiet (arrival_of_not_udp hudp) fun _ => ?_
        split <;> rfl
  | udpOut | tcpOut | nsocket | nbind | nlisten | naccept | nsend | nrecv | nrecvfrom | nsendto
  | nclose => exact hquiet rfl (key_of_other h hC rfl hstep)

/-- With no socket at all there is nothing to keep. -/
theorem ServerInv.of_none (hnone : ∀ a, s.stack.localhost a = none) : ServerInv s where
  fd a host ha := absurd ha (by rw [hnone]; nofun)
  one a b host host' ha := absurd ha (by rw [hnone]; nofun)
  unopened _ := hnone

/-- Where the socket is opened, an empty ring is all there is. -/
theorem serverMove_of_nsocket (h : ServerInv s) (hpc : s.pc = .nsocket)
    (hs' : s' = { s with
      stack := (nsocket env s.stack SOCK_DGRAM).1
      pc := if (nsocket env s.stack SOCK_DGRAM).2.ret = -1 then .returned else .nbind
      connfd := (nsocket env s.stack SOCK_DGRAM).2.ret }) (o : Out) :
    ServerInv s' ∧ ServerMove s (.call env) ⟨s, o⟩ s' := by
  have hnone := h.unopened hpc
  have hpc' : s'.pc ≠ .nsocket ∧ s'.pc ≠ .nsendto := by
    rw [hs']
    dsimp only
    split <;> decide
  have hhand : s'.inHand = s.inHand := by
    rw [UdpServer.inHand, UdpServer.inHand, if_neg hpc'.2, if_neg (by rw [hpc]; decide)]
  have hanswer : answer (.call env, ⟨s, o⟩) = none := if_neg (by rw [hpc]; decide)
  have htakes : TakesAndAnswers s (.call env) :=
    ⟨fun hrcv => absurd (hpc.symm.trans hrcv) (by decide),
      fun hsend => absurd (hpc.symm.trans hsend) (by decide)⟩
  have hmove : ServerInv s' ∧ s'.queue = [] := by
    rcases nsocket_cases env s.stack SOCK_DGRAM with ⟨hhosts, -⟩ |
      ⟨-, -, ho, snd, rcv, hsnd, hrcv, hhosts⟩ | ⟨htype, -⟩
    · have hnone' : ∀ a, s'.stack.localhost a = none := fun a => by
        rw [hs', State.localhost, hhosts]
        exact hnone a
      exact ⟨.of_none hnone', queue_of_none hnone'⟩
    · -- the one socket that there is
      have hlocal : ∀ b host', s'.stack.localhost b = some host' →
          b = s.stack.lhost.next ∧ host'.fd = s'.connfd ∧ host'.rcvItems = [] := by
        intro b host' hb
        rw [hs', State.localhost, hhosts, Table.get?_add] at hb
        split at hb
        · obtain rfl := Option.some.inj hb
          refine ⟨‹_›, ?_, ?_⟩
          · rw [hs', ho]
            rfl
          · rw [Localhost.rcvItems, offloadItems_some, hrcv]
        · exact absurd hb (by rw [show s.stack.lhost.get? b = none from hnone b]; simp)
      have hinv : ServerInv s' := by
        refine ⟨fun a host' ha => (hlocal a host' ha).2.1, ?_, fun hstart => absurd hstart hpc'.1⟩
        intro a b host₁ host₂ ha hb
        rw [(hlocal a host₁ ha).1, (hlocal b host₂ hb).1]
      refine ⟨hinv, ?_⟩
      have hself : ∃ host', s'.stack.localhost s.stack.lhost.next = some host' := by
        rw [hs', State.localhost, hhosts, Table.get?_add, if_pos rfl]
        exact ⟨_, rfl⟩
      obtain ⟨host', hself⟩ := hself
      rw [hinv.queue_eq hself, (hlocal _ _ hself).2.2]
    · cases htype
  exact ⟨hmove.1, .quiet rfl hanswer (by rw [hmove.2, queue_of_none hnone]) hhand htakes⟩

theorem key_nbind (st : State) (fd : Int) (ip : BitVec 32) (port : BitVec 16) (b : Addr) :
    ((nbind st fd ip port).1.localhost b).map Localhost.key =
      (st.localhost b).map Localhost.key := by
  unfold nbind
  split
  · rfl
  · rename_i a host hinfo
    have ha := localhost_of_hostinfo hinfo
    rw [localhost_of_setHost ha rfl]
    split
    · rename_i hb
      rw [hb, ha]
      rfl
    · rfl
  · rfl

theorem key_nsendto {fd : Int} {buf : List Byte} {ip : BitVec 32} {port : BitVec 16}
    (h : nsendto env st fd buf ip port = .ok (st', o)) (b : Addr) :
    (st'.localhost b).map Localhost.key = (st.localhost b).map Localhost.key := by
  rcases nsendto_cases h with ⟨rfl, -⟩ | ⟨a, host, r, hinfo, -, -, -, hst'⟩
  · rfl
  · have ha := localhost_of_hostinfo hinfo
    rw [localhost_of_setHost ha hst']
    split
    · rename_i hb
      rw [hb, ha]
      rfl
    · rfl

/-- What a call of `nrecvfrom` by the server does. -/
theorem serverMove_of_nrecvfrom (h : ServerInv s) (hpc : s.pc = .nrecvfrom)
    (hcall : serverCall env s = .ok (s', o)) :
    ServerInv s' ∧ ServerMove s (.call env) ⟨s, o⟩ s' := by
  have hnanswer : answer (.call env, ⟨s, o⟩) = none := if_neg (by rw [hpc]; decide)
  simp only [serverCall, hpc] at hcall
  split at hcall
  · cases hcall
  · rename_i st' o' hrecv
    rcases nrecvfrom_cases hrecv with ⟨hnone, rfl, rfl⟩ | ⟨a, host, host', hinfo, hread, hst'⟩
    · -- no socket: try again
      have hempty : s.waiting = [] := by
        rw [UdpServer.waiting, UdpServer.queue, State.udpHost, hnone]
        rfl
      rw [if_pos (by decide), ← hpc] at hcall
      obtain ⟨rfl, rfl⟩ := Prod.mk.inj (Except.ok.inj hcall)
      exact ⟨h, .quiet rfl hnanswer rfl rfl ⟨fun _ d hd => by simp [hempty] at hd,
        fun hsend => absurd (hpc.symm.trans hsend) (by decide)⟩⟩
    · have ha := localhost_of_hostinfo hinfo
      have hlocal := localhost_of_setHost ha hst'
      cases hread with
      | @part r r' ol hr hpop hlen =>
          obtain ⟨hitems, hroom⟩ := RteRing.mcDequeue_eq_some hpop
          have hput := (RteRing.mpEnqueue_of_hasRoom
            (x := ol.rest env.staleHeap UDP_APP_RECV_BUFFER_SIZE) hroom).1
          rw [if_neg (by simp [Out.ofRet])] at hcall
          obtain ⟨hs', rfl⟩ := Prod.mk.inj (Except.ok.inj hcall)
          have hpc' : s'.pc = .nsendto := by rw [← hs']
          have hstack : st' = s'.stack := by rw [← hs']
          rw [hstack] at hlocal
          obtain ⟨hinv, hqueue⟩ :=
            h.write s' ha hlocal rfl (by rw [← hs']) (by rw [hpc']; simp)
          rw [Localhost.rcvItems, offloadItems_some] at hqueue
          refine ⟨hinv, .part rfl hnanswer hpc ?_ hlen (hqueue.trans hput) hpc'⟩
          rw [h.queue_eq ha, Localhost.rcvItems, hr, offloadItems_some, hitems]
      | @whole r r' ol hr hpop hlen =>
          obtain ⟨hitems, -⟩ := RteRing.mcDequeue_eq_some hpop
          rw [if_neg (by simp [Out.ofRet])] at hcall
          obtain ⟨hs', rfl⟩ := Prod.mk.inj (Except.ok.inj hcall)
          have hpc' : s'.pc = .nsendto := by rw [← hs']
          have hstack : st' = s'.stack := by rw [← hs']
          rw [hstack] at hlocal
          obtain ⟨hinv, hqueue⟩ :=
            h.write s' ha hlocal rfl (by rw [← hs']) (by rw [hpc']; simp)
          rw [Localhost.rcvItems, offloadItems_some] at hqueue
          refine ⟨hinv, .whole rfl hnanswer hpc ?_ hlen hqueue hpc' (by rw [← hs']; rfl) ?_⟩
          · rw [h.queue_eq ha, Localhost.rcvItems, hr, offloadItems_some, hitems]
          · rw [← hs']
            simp [Offload.read]

theorem hostinfo_of_udpHost {fd : Int} (h : st.udpHost fd = some host) :
    ∃ a, getHostinfoFromfd st fd = some (.localhost a host) := by
  rw [State.udpHost] at h
  split at h
  · rename_i a host' hinfo
    obtain rfl := Option.some.inj h
    exact ⟨a, hinfo⟩
  · cases h

/-- A call of `nsendto` puts the string on the send ring if there is a string,
    memory, and room; otherwise nothing. -/
theorem answer_of_nsendto {str : List Byte} (h : ServerInv s) (hpc : s.pc = .nsendto)
    (hstr : bufferString s.buffer = some str)
    (hsend : nsendto env s.stack s.connfd str s.clientaddr.1 s.clientaddr.2 = .ok (st', o)) :
    answer (.call env, ⟨s, o⟩) = if CanAnswer env s ∧ str ≠ [] then
      some ⟨s.clientaddr.1, s.clientaddr.2, str⟩ else none := by
  have hcall : serverCall env s = .ok ({ s with stack := st', pc := .nrecvfrom }, o) := by
    simp only [serverCall, hpc, hstr, hsend]
  have hret := nsendto_ret_iff hsend
  simp only [answer, hpc, if_true, hcall]
  rcases nsendto_cases hsend with ⟨rfl, rfl⟩ | ⟨a, host, r, hinfo, hr, -, rfl, hst'⟩
  -- nothing was stored
  · have hcan : ¬ (CanAnswer env s ∧ str ≠ []) := by
      rintro ⟨⟨hoffload, hdata, host, hhost, -⟩, hbytes⟩
      obtain ⟨a, hinfo⟩ := hostinfo_of_udpHost hhost
      exact hret.mpr ⟨by simp [hinfo], hoffload, hdata, hbytes⟩ rfl
    rw [if_neg hcan]
    have hsame : UdpServer.outgoing { s with stack := s.stack, pc := .nrecvfrom } =
        s.outgoing := rfl
    rw [hsame, List.drop_length]
    rfl
  -- stored, if the ring had room
  · obtain ⟨-, hoffload, hdata, hbytes⟩ := hret.mp (by
      show ((str.length : Nat) : Int) ≠ -1
      omega)
    have hhost := udpHost_of_hostinfo hinfo
    have hlocal := localhost_of_setHost (localhost_of_hostinfo hinfo) hst'
    obtain ⟨hinv, -⟩ := h.write { s with stack := st', pc := .nrecvfrom }
      (localhost_of_hostinfo hinfo) hlocal rfl rfl nofun
    have hafter : UdpServer.outgoing { s with stack := st', pc := .nrecvfrom } =
        (r.mpEnqueue (sendtoOffload host str s.clientaddr.1 s.clientaddr.2)).1.items := by
      have hself := (hlocal a).trans (if_pos rfl)
      rw [UdpServer.outgoing, udpHost_of_hostinfo (hinv.hostinfo hself)]
      rfl
    have hbefore : s.outgoing = r.items := by
      rw [UdpServer.outgoing, hhost]
      show host.sndItems = r.items
      rw [Localhost.sndItems, hr, offloadItems_some]
    have hcan : CanAnswer env s ∧ str ≠ [] ↔ r.HasRoom := by
      constructor
      · rintro ⟨⟨-, -, host', hhost', r', hr', hroom⟩, -⟩
        obtain rfl := Option.some.inj (hhost.symm.trans hhost')
        obtain rfl := Option.some.inj (hr.symm.trans hr')
        exact hroom
      · exact fun hroom => ⟨⟨hoffload, hdata, host, hhost, r, hr, hroom⟩, hbytes⟩
    rw [hafter, hbefore]
    by_cases hroom : r.HasRoom
    · rw [(RteRing.mpEnqueue_of_hasRoom hroom).1, if_pos (hcan.mpr hroom), List.drop_left]
      rfl
    · rw [RteRing.mpEnqueue_of_full hroom, if_neg fun h => hroom (hcan.mp h), List.drop_length]
      rfl

/-- What each call of the server does. -/
theorem serverMove_of_call (h : ServerInv s) (hcall : serverCall env s = .ok (s', o)) :
    ServerInv s' ∧ ServerMove s (.call env) ⟨s, o⟩ s' := by
  cases hpc : s.pc with
  | nsocket =>
      simp only [serverCall, hpc] at hcall
      obtain ⟨rfl, rfl⟩ := Prod.mk.inj (Except.ok.inj hcall)
      exact serverMove_of_nsocket h hpc rfl _
  | nbind =>
      simp only [serverCall, hpc] at hcall
      obtain ⟨hs', rfl⟩ := Prod.mk.inj (Except.ok.inj hcall)
      have hpc' : s'.pc = .nrecvfrom := by rw [← hs']
      obtain ⟨hinv, hqueue⟩ := h.keep s' (by rw [← hs']; exact key_nbind _ _ _ _) (by rw [← hs'])
        (by rw [hpc']; nofun)
      refine ⟨hinv, .quiet rfl (if_neg (by rw [hpc]; nofun)) hqueue ?_
        ⟨fun hrcv => ?_, fun hsend => ?_⟩⟩
      · rw [UdpServer.inHand, UdpServer.inHand, if_neg (by rw [hpc']; nofun),
          if_neg (by rw [hpc]; nofun)]
      · exact absurd (hpc.symm.trans hrcv) nofun
      · exact absurd (hpc.symm.trans hsend) nofun
  | nrecvfrom => exact serverMove_of_nrecvfrom h hpc hcall
  | nsendto =>
      simp only [serverCall, hpc] at hcall
      split at hcall
      · cases hcall
      · rename_i str hstr
        split at hcall
        · cases hcall
        · rename_i st' o' hsend
          obtain ⟨hs', rfl⟩ := Prod.mk.inj (Except.ok.inj hcall)
          have hpc' : s'.pc = .nrecvfrom := by rw [← hs']
          obtain ⟨hinv, hqueue⟩ := h.keep s' (by rw [← hs']; exact key_nsendto hsend)
            (by rw [← hs']) (by rw [hpc']; nofun)
          have hhand : s.inHand = some [⟨s.clientaddr.1, s.clientaddr.2, str⟩] := by
            simp only [UdpServer.inHand, hpc, hstr, if_true, Option.map_some]
          have hhand' : s'.inHand = some [] := if_neg (by rw [hpc']; nofun)
          have hanswer := answer_of_nsendto h hpc hstr hsend
          by_cases hcan : CanAnswer env s ∧ str ≠ []
          · rw [if_pos hcan] at hanswer
            exact ⟨hinv, .answered rfl hanswer hhand hhand' hqueue
              ⟨fun hrcv => absurd (hpc.symm.trans hrcv) nofun, fun _ => hcan.1⟩⟩
          · rw [if_neg hcan] at hanswer
            exact ⟨hinv, .lost rfl hanswer hhand hhand' hqueue
              fun hbytes htakes => hcan ⟨htakes.2 hpc, hbytes⟩⟩
  | returned =>
      simp only [serverCall, hpc] at hcall
      cases hcall

theorem serverMove_of_step (h : ServerInv s) (hC : LeavesServer s e)
    (hstep : serverStep s e = .ok (s', r)) : ServerInv s' ∧ ServerMove s e r s' := by
  cases e with
  | stack e =>
      simp only [serverStep] at hstep
      split at hstep
      · cases hstep
      · rename_i heq
        obtain ⟨rfl, rfl⟩ := Prod.mk.inj (Except.ok.inj hstep)
        exact serverMove_of_stack h hC heq
  | call env =>
      simp only [serverStep] at hstep
      split at hstep
      · cases hstep
      · rename_i heq
        obtain ⟨rfl, rfl⟩ := Prod.mk.inj (Except.ok.inj hstep)
        exact serverMove_of_call h heq

/-! ## Whole runs -/

theorem arrived_snoc (hist : ServerHistory) (en : ServerEvent × ServerReport) :
    arrived (hist ++ [en]) = arrived hist ++ (arrival en).toList := by
  rw [arrived, List.filterMap_append]
  cases h : arrival en <;> simp [arrived, h]

theorem answered_snoc (hist : ServerHistory) (en : ServerEvent × ServerReport) :
    answered (hist ++ [en]) = answered hist ++ (answer en).toList := by
  rw [answered, List.filterMap_append]
  cases h : answer en <;> simp [answered, h]

/-- The length of every datagram on the ring counts the header. -/
def UdpServer.Fresh (s : UdpServer) : Prop :=
  ∀ ol ∈ s.queue, ol.length.toNat = ol.data.length + sizeofUdpHdr

theorem ServerMove.fresh (h : ServerMove s e r s') (hfresh : s.Fresh) (hC : TakesAndAnswers s e) :
    s'.Fresh := by
  intro ol' hol
  cases h with
  | quiet harr hans hqueue hhand htakes => exact hfresh ol' (hqueue ▸ hol)
  | @arrived m harr hans hlen hqueue hhand htakes =>
      rw [hqueue] at hol
      rcases List.mem_append.mp hol with hold | hnew
      · exact hfresh ol' hold
      · obtain rfl := List.mem_singleton.mp hnew
        simp only [Mbuf.offload, Ptr.length_bytes, sizeofUdpHdr] at hlen ⊢
        omega
  | @part env ol rest he hans hpc hqueue hlen hqueue' hpc' =>
      subst he
      obtain ⟨hfits, -⟩ := hC.1 hpc ol.datagram (by rw [UdpServer.waiting, hqueue]; rfl)
      have hol := hfresh ol (hqueue ▸ List.mem_cons_self)
      change ol.data.length + sizeofUdpHdr ≤ _ at hfits
      omega
  | @whole env ol rest he hans hpc hqueue hlen hqueue' =>
      exact hfresh ol' (hqueue ▸ List.mem_cons_of_mem _ (hqueue' ▸ hol))
  | answered harr hans hhand hhand' hqueue | lost harr hans hhand hhand' hqueue =>
      exact hfresh ol' (hqueue ▸ hol)

theorem bytes_of_arrived {d : Datagram} (h : d ∈ arrived hist) : d.bytes ≠ [] := by
  obtain ⟨⟨e, r⟩, -, harr⟩ := List.mem_filterMap.mp h
  unfold arrival at harr
  repeat' split at harr
  all_goals simp only [Option.some.injEq, reduceCtorEq] at harr
  rename_i m _ _ _ _ hacc
  subst harr
  obtain ⟨-, -, -, hlen, -⟩ := hacc
  intro hnil
  have hzero := congrArg List.length hnil
  simp only [Mbuf.datagram, Mbuf.offload, Ptr.length_bytes, sizeofUdpHdr, List.length_nil]
    at hzero hlen
  omega

/-- Read whole, with the eight bytes behind it, a datagram is the string in the
    buffer just if it has no NUL byte and the first of the eight is one. -/
theorem bufferString_of_read {ol : Offload} {heap : Ptr} {buffer : List Byte}
    (hol : ol.length.toNat = ol.data.length + sizeofUdpHdr) :
    bufferString (ol.read heap 0 ol.length.toNat ++ buffer) = some ol.data ↔
      0 ∉ ol.data ∧ heap 0 = 0 := by
  have hread : ol.read heap 0 ol.length.toNat = ol.data ++ heap 0 :: Ptr.bytes heap 1 7 := by
    rw [hol]
    exact read_add ol heap 8
  rw [hread, List.append_assoc, List.cons_append]
  exact bufferString_append_cons

/-- A step keeps the server faithful just if it takes a string and answers, or
    takes nothing. -/
theorem ServerMove.faithful_iff (h : ServerMove s e r s') (hfresh : s.Fresh)
    (hfaith : Faithful hist s) : Faithful (hist ++ [(e, r)]) s' ↔ TakesAndAnswers s e := by
  obtain ⟨hand, hhand₀, heq⟩ := hfaith
  rw [UdpServer.waiting] at heq
  rw [Faithful, arrived_snoc, answered_snoc, UdpServer.waiting]
  cases h with
  | quiet harr hans hqueue hhand htakes =>
      refine iff_of_true ⟨hand, hhand.symm ▸ hhand₀, ?_⟩ htakes
      rw [harr, hans, hqueue]
      simpa using heq
  | arrived harr hans hlen hqueue hhand htakes =>
      refine iff_of_true ⟨hand, hhand.symm ▸ hhand₀, ?_⟩ htakes
      rw [harr, hans, hqueue, heq, List.map_append]
      simp only [Option.toList_some, Option.toList_none, List.append_nil, List.append_assoc]
      rfl
  | answered harr hans hhand hhand' hqueue htakes =>
      obtain rfl := Option.some.inj (hhand.symm.trans hhand₀)
      refine iff_of_true ⟨[], hhand', ?_⟩ htakes
      rw [harr, hans, hqueue]
      simpa using heq
  | @lost d harr hans hhand hhand' hqueue hlost =>
      obtain rfl := Option.some.inj (hhand.symm.trans hhand₀)
      refine iff_of_false ?_ (hlost ?_)
      -- what was not sent is missing
      · rintro ⟨hand', hhand₁, heq'⟩
        obtain rfl := Option.some.inj (hhand'.symm.trans hhand₁)
        rw [harr, hans, hqueue, heq] at heq'
        simpa using congrArg List.length heq'
      · have hmem : d ∈ Ustack.arrived hist := by
          rw [heq]
          simp
        exact bytes_of_arrived hmem
  | @part env ol rest he hans hpc hqueue hlen hqueue' hpc' =>
      subst he
      obtain rfl : hand = [] := by simpa [UdpServer.inHand, hpc] using hhand₀.symm
      have hol := hfresh ol (hqueue ▸ List.mem_cons_self)
      refine iff_of_false ?_ ?_
      -- what was put back is one datagram too many
      · rintro ⟨hand', hhand', heq'⟩
        obtain ⟨str, -, rfl⟩ : ∃ str, bufferString s'.buffer = some str ∧
            hand' = [⟨s'.clientaddr.1, s'.clientaddr.2, str⟩] := by
          simpa [UdpServer.inHand, hpc', eq_comm] using hhand'
        have hcount := congrArg List.length heq'
        rw [heq, hqueue, hqueue', hans] at hcount
        simp [arrival] at hcount
      · intro htakes
        obtain ⟨hfits, -⟩ := htakes.1 hpc ol.datagram (by rw [UdpServer.waiting, hqueue]; rfl)
        change ol.data.length + sizeofUdpHdr ≤ _ at hfits
        omega
  | @whole env ol rest he hans hpc hqueue hlen hqueue' hpc' hclient hbuffer =>
      subst he
      obtain rfl : hand = [] := by simpa [UdpServer.inHand, hpc] using hhand₀.symm
      have hol := hfresh ol (hqueue ▸ List.mem_cons_self)
      have hstring : bufferString s'.buffer = some ol.data ↔
          0 ∉ ol.data ∧ env.staleHeap 0 = 0 := by
        rw [hbuffer]
        exact bufferString_of_read hol
      have hhand : s'.inHand =
          (bufferString s'.buffer).map fun str => [⟨ol.sip, ol.sport, str⟩] := by
        rw [UdpServer.inHand, if_pos hpc', hclient]
      rw [hans, hqueue', heq, hqueue, hhand]
      simp only [arrival, Option.toList_none, List.append_nil, List.map_cons]
      constructor
      · rintro ⟨hand', hhand', heq'⟩
        refine ⟨fun _ d hd => ?_, fun hsend => absurd (hpc.symm.trans hsend) (by decide)⟩
        obtain ⟨str, hstr, rfl⟩ := Option.map_eq_some_iff.mp hhand'
        obtain rfl : d = ol.datagram := by simpa [UdpServer.waiting, hqueue] using hd.symm
        rw [List.append_assoc, List.append_cancel_left_eq] at heq'
        obtain ⟨hd', -⟩ := List.cons.inj heq'
        obtain ⟨-, -, hdata⟩ := Datagram.mk.inj hd'
        refine ⟨by change ol.data.length + _ ≤ _; omega, hstring.mp ?_⟩
        rw [hstr, hdata]
      · intro htakes
        obtain ⟨-, hclean⟩ := htakes.1 hpc ol.datagram (by rw [UdpServer.waiting, hqueue]; rfl)
        refine ⟨[ol.datagram], ?_, by simp⟩
        rw [hstring.mpr hclean]
        rfl

theorem ServerInv.start (mac : List Byte) : ServerInv (.start mac) := .of_none fun _ => rfl

theorem UdpServer.queue_start (mac : List Byte) : (UdpServer.start mac).queue = [] :=
  queue_of_none fun _ => rfl

theorem Faithful.start (mac : List Byte) : Faithful [] (.start mac) :=
  ⟨[], rfl, by rw [UdpServer.waiting, UdpServer.queue_start]; rfl⟩

theorem serverInv_of_run {mac : List Byte} (hrun : ServerRun mac hist s) : ServerInv s := by
  induction hrun with
  | start => exact .start mac
  | step _ hR ih => exact (serverMove_of_step ih hR.1 hR.2).1

/-- Where only strings were taken, and answered, the server was faithful. -/
theorem faithful_of_takesAndAnswers {mac : List Byte}
    (hrun : Run (Guarded TakesAndAnswers (Guarded LeavesServer (StepsOf serverStep))) (.start mac)
      hist s) : s.Fresh ∧ Faithful hist s := by
  induction hrun with
  | start => exact ⟨by rw [UdpServer.Fresh, UdpServer.queue_start]; nofun, .start mac⟩
  | @step hist s e r s' hpre hR ih =>
      obtain ⟨htakes, hC, hstep⟩ := hR
      obtain ⟨hfresh, hfaith⟩ := ih
      have hmove := (serverMove_of_step (serverInv_of_run hpre.of_guarded) hC hstep).2
      exact ⟨hmove.fresh hfresh htakes, (hmove.faithful_iff hfresh hfaith).mpr htakes⟩

/-- In a run of the server with the threads of the stack and of the other
    applications, whatever their order: what arrived at its socket was put on
    its send ring, for where it came from, in order, or is about to be, or
    waits, in each state of the run, exactly if the server took only datagrams
    that leave room for eight bytes in its buffer, have no NUL byte, and had
    one behind them on the heap, and had memory and room for each answer. -/
theorem udp_server_echoes (mac : List Byte) (hist : ServerHistory) (s : UdpServer)
    (hrun : ServerRun mac hist s) :
    (∀ pre t, pre <+: hist → ServerRun mac pre t → Faithful pre t) ↔
      Run (Guarded TakesAndAnswers (Guarded LeavesServer (StepsOf serverStep))) (.start mac)
        hist s := by
  constructor
  · intro hfaith
    induction hrun with
    | start => exact .start
    | @step hist s e r s' hpre hR ih =>
        have hguarded := ih fun pre t hp ht => hfaith pre t (hp.trans (List.prefix_append ..)) ht
        obtain ⟨hfresh, hbefore⟩ := faithful_of_takesAndAnswers hguarded
        have hmove := (serverMove_of_step (serverInv_of_run hpre) hR.1 hR.2).2
        have hafter := hfaith _ _ (List.prefix_refl _) (hpre.step hR)
        exact hguarded.step ⟨(hmove.faithful_iff hfresh hbefore).mp hafter, hR⟩
  · intro hguarded pre t hp ht
    obtain ⟨rest, rfl⟩ := hp
    obtain ⟨t', ht'⟩ := hguarded.of_append
    obtain rfl : t = t' := ht.of_guarded.deterministic ht'.of_guarded.of_guarded
    exact (faithful_of_takesAndAnswers ht').2

/-- Three bytes come back; the same three bytes over a heap that is not clear
    do not. -/
theorem udp_server_echoes_abc : ∃ (hist : ServerHistory) (s : UdpServer),
    ServerRun [] hist s ∧ arrived hist = List.replicate 2 ⟨0x0200000A, htons 40000, [97, 98, 99]⟩ ∧
    answered hist = [⟨0x0200000A, htons 40000, [97, 98, 99]⟩,
      ⟨0x0200000A, htons 40000, [97, 98, 99] ++ List.replicate 8 0xAA⟩] ∧
    ((∀ pre t, pre <+: hist → ServerRun [] pre t → Faithful pre t) ↔
      Run (Guarded TakesAndAnswers (Guarded LeavesServer (StepsOf serverStep))) (.start [])
        hist s) := by
  have hruns : execsTo (guardStep LeavesServer .returned serverStep) (.start [])
      [.call .plain, .call .plain, .stack (.packet .plain (peerDatagram serverIp [97, 98, 99])),
       .stack (.packet .plain (peerDatagram serverIp [97, 98, 99])), .call .plain, .call .plain,
       .call { Env.plain with staleHeap := fun _ => 0xAA }, .stack (.udpOut .plain), .call .plain]
      (fun hist _ => decide (arrived hist =
          List.replicate 2 ⟨0x0200000A, htons 40000, [97, 98, 99]⟩) &&
        decide (answered hist = [⟨0x0200000A, htons 40000, [97, 98, 99]⟩,
          ⟨0x0200000A, htons 40000, [97, 98, 99] ++ List.replicate 8 0xAA⟩])) = true := by
    decide +kernel
  obtain ⟨hist, s, hexec, hP⟩ := exec_of_execsTo hruns
  rw [Bool.and_eq_true, decide_eq_true_eq, decide_eq_true_eq] at hP
  have hrun := guarded_of_exec hexec
  exact ⟨hist, s, hrun, hP.1, hP.2, udp_server_echoes [] hist s hrun⟩

end LinuxLearning.Ustack
