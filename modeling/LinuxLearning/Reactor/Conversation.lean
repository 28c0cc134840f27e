/-
  LinuxLearning.Reactor.Conversation

  What the server does on one connection, on its own: rounds of a request and
  the two calls of `send_cb` that answer it, the header first and the file
  then.  The conversation is a function of what happened to that connection
  alone.  `tracks_of_run` shows that in every run the entry of `conn_list`,
  the interest in epoll and the bytes on the connection follow it, whatever
  happens on the other descriptors in between.
-/

import LinuxLearning.Lib.Transition
import LinuxLearning.Reactor.Server

namespace LinuxLearning.Reactor

open Lib

/-! ## The conversation on a connection -/

/-- A request that was answered, with the answers to the calls that sent the
    header and the file. -/
structure Round where
  request : List UInt8
  first : SendAnswers
  second : SendAnswers
deriving DecidableEq, Repr

/-- Where the conversation is: waiting for a request, or in the middle of an
    answer. -/
inductive Phase where
  | reading
  | headerDue (request : List UInt8)
  | bodyDue (request : List UInt8) (first : SendAnswers)
deriving DecidableEq, Repr

/-- The rounds so far, and the phase of the next one. -/
structure Client where
  rounds : List Round
  phase : Phase
deriving DecidableEq, Repr

/-- What `send` puts on the connection. -/
def SendAnswers.headerWrite (a : SendAnswers) : Write :=
  .send (transferred a.send (header a.stSize.toInt))

/-- What `sendfile` puts on the connection. -/
def SendAnswers.bodyWrite (a : SendAnswers) : Write :=
  .sendfile (transferred a.sendfile (a.file.take a.stSize.toNat))

/-- The writes of a response. -/
def Round.writes (r : Round) : List Write := [r.first.headerWrite, r.second.bodyWrite]

/-- The writes of a response that has begun. -/
def Phase.writes : Phase → List Write
  | bodyDue _ first => [first.headerWrite]
  | _ => []

/-- All writes of the conversation. -/
def Client.writes (c : Client) : List Write := c.rounds.flatMap Round.writes ++ c.phase.writes

/-- The conversation of a connection that was just accepted. -/
def Client.fresh : Client := ⟨[], .reading⟩

/-- How the conversation goes on. -/
def Client.next (c : Client) : Own → Client
  | .accepted => .fresh
  | .received request => { c with phase := .headerDue request }
  | .hungUp => c
  | .responded a =>
      match c.phase with
      | .reading => c
      | .headerDue request => { c with phase := .bodyDue request a }
      | .bodyDue request first => ⟨c.rounds ++ [⟨request, first, a⟩], .reading⟩

/-- The conversation after all that has happened to a connection. -/
def conversation (own : List Own) : Client := own.foldl Client.next .fresh

theorem conversation_append (own own' : List Own) :
    conversation (own ++ own') = own'.foldl Client.next (conversation own) :=
  List.foldl_append ..

/-! ## The server, seen from one descriptor -/

/-- What the program and the kernel keep for one descriptor. -/
structure View where
  conn : Conn
  isOpen : Bool
  interest : Option Interest
  written : List Write

def Server.view (s : Server) (fd : Fd) : View :=
  ⟨s.connList fd, s.isOpen fd, s.interest fd, s.written fd⟩

namespace Server

variable {s : Server} {fd k : Fd}

@[simp] theorem view_setConn_self (c : Conn) :
    (s.setConn fd c).view fd = { s.view fd with conn := c } := by
  simp [view, setConn]

@[simp] theorem view_write_self (ws : List Write) :
    (s.write fd ws).view fd = { s.view fd with written := s.written fd ++ ws } := by
  simp [view, write]

@[simp] theorem view_close_self :
    (s.close fd).view fd = { s.view fd with isOpen := false, interest := none } := by
  simp [view, close]

@[simp] theorem view_openFd_self :
    (s.openFd fd).view fd = { s.view fd with isOpen := true, written := [] } := by
  simp [view, openFd]

theorem view_setEvent_self (event : Interest) {flag : Int}
    (hflag : s.interest fd = none ↔ flag = 1) :
    (s.setEvent fd event flag).view fd = { s.view fd with interest := some event } := by
  simp [view, setEvent, hflag]

@[simp] theorem view_setConn_of_ne (h : k ≠ fd) (c : Conn) :
    (s.setConn fd c).view k = s.view k := by
  simp [view, setConn, h]

@[simp] theorem view_write_of_ne (h : k ≠ fd) (ws : List Write) :
    (s.write fd ws).view k = s.view k := by
  simp [view, write, h]

@[simp] theorem view_close_of_ne (h : k ≠ fd) : (s.close fd).view k = s.view k := by
  simp [view, close, h]

@[simp] theorem view_openFd_of_ne (h : k ≠ fd) : (s.openFd fd).view k = s.view k := by
  simp [view, openFd, h]

@[simp] theorem view_setEvent_of_ne (h : k ≠ fd) (event : Interest) (flag : Int) :
    (s.setEvent fd event flag).view k = s.view k := by
  unfold setEvent
  split
  · simp [view, h]
  · rfl

end Server

/-- The entry of a descriptor, its interest and the bytes on it are those of
    the conversation `c`.  A registered descriptor is open and has its
    callbacks. -/
structure Tracks (fd : Fd) (c : Client) (v : View) : Prop where
  written : v.written = c.writes
  out : v.interest = some .epollout ↔ c.phase ≠ .reading
  header : ∀ request, c.phase = .headerDue request → v.conn.sate = 0
  body : ∀ request first, c.phase = .bodyDue request first → v.conn.sate = 1
  opened : v.interest ≠ none → v.isOpen = true
  callback : v.interest ≠ none → v.conn.rAction ≠ none
  client : v.interest ≠ none → v.conn.rAction = some .recvCb →
    v.conn.fd = fd ∧ v.conn.sendCallback = some .sendCb
  outClient : v.interest = some .epollout → v.conn.rAction = some .recvCb

/-! ## The events -/

/-- An event that can be reported: a descriptor is readable only while it is
    registered for reading, and writable only while it is registered for
    writing; `accept` returns a descriptor that is not open. -/
structure Reported (s : Server) (e : EpollEvent) : Prop where
  epollin : e.epollin = true → s.interest e.fd = some .epollin
  epollout : e.epollout = true → s.interest e.fd = some .epollout
  accept : ∀ fd ∈ e.answers.accept, s.isOpen fd = false

instance (s : Server) (e : EpollEvent) : Decidable (Reported s e) :=
  decidable_of_iff ((e.epollin = true → s.interest e.fd = some .epollin) ∧
      (e.epollout = true → s.interest e.fd = some .epollout) ∧
      ∀ fd ∈ e.answers.accept, s.isOpen fd = false)
    ⟨fun h => ⟨h.1, h.2.1, h.2.2⟩, fun h => ⟨h.epollin, h.epollout, h.accept⟩⟩

/-- A descriptor is registered for one of the two only. -/
theorem Reported.not_both {s : Server} {e : EpollEvent} (hr : Reported s e)
    (hin : e.epollin = true) : e.epollout = false := by
  by_contra hne
  have hout := hr.epollout (by simpa using hne)
  simp [hr.epollin hin] at hout

/-- Handling a reported event is one call of a callback at most. -/
theorem handle_cases {s s' : Server} {e : EpollEvent} {o : List (Fd × Own)}
    (hr : Reported s e) (h : handle s e = .ok (s', o)) :
    (s' = s ∧ o = []) ∨
    (s.interest e.fd = some .epollin ∧
      ((s.connList e.fd).rAction = some .acceptCb ∧ acceptCb e.answers s = .ok (s', o) ∨
        (s.connList e.fd).rAction = some .recvCb ∧ s' = (recvCb e.answers s e.fd).1 ∧
          o = (recvCb e.answers s e.fd).2)) ∨
    (e.epollout = true ∧ s.interest e.fd = some .epollout ∧
      s' = (sendCb e.answers.response s e.fd).1 ∧
      o = (sendCb e.answers.response s e.fd).2) := by
  unfold handle at h
  cases hin : e.epollin with
  | true =>
      have hinterest := hr.epollin hin
      have hout := hr.not_both hin
      simp only [hin, hout, if_true, Bool.false_eq_true, if_false] at h
      obtain ⟨⟨s₁, o₁⟩, hcall, hret⟩ := bind_eq_ok_iff.mp h
      obtain ⟨rfl, rfl⟩ : s₁ = s' ∧ o₁ = o := by
        simpa [Bind.bind, Except.bind, Pure.pure, Except.pure] using hret
      refine .inr (.inl ⟨hinterest, ?_⟩)
      unfold callRAction at hcall
      split at hcall
      · cases hcall
      next hcb => exact .inl ⟨hcb, hcall⟩
      next hcb => exact .inr ⟨hcb, Prod.ext_iff.mp (Except.ok.inj hcall).symm⟩
  | false =>
      simp only [hin, Bool.false_eq_true, if_false, Bind.bind, Except.bind] at h
      cases hout : e.epollout with
      | true =>
          simp only [hout, if_true] at h
          obtain ⟨⟨s₁, o₁⟩, hcall, hret⟩ := bind_eq_ok_iff.mp h
          obtain ⟨rfl, rfl⟩ : s₁ = s' ∧ o₁ = o := by
            simpa [Pure.pure, Except.pure] using hret
          refine .inr (.inr ⟨rfl, hr.epollout hout, ?_⟩)
          unfold callSendCallback at hcall
          split at hcall
          · cases hcall
          · exact Prod.ext_iff.mp (Except.ok.inj hcall).symm
      | false =>
          simp only [hout, Bool.false_eq_true, if_false, Pure.pure, Except.pure, List.append_nil,
            Except.ok.injEq, Prod.mk.injEq] at h
          exact .inl ⟨h.1.symm, h.2.symm⟩

/-! ## The callbacks keep up with the conversation -/

/-- What happened to the descriptor `fd` in a step. -/
def ownOps (o : List (Fd × Own)) (fd : Fd) : List Own :=
  (o.filter fun p => p.1 = fd).map (·.2)

@[simp] theorem ownOps_nil (fd : Fd) : ownOps [] fd = [] := rfl

@[simp] theorem ownOps_self (fd : Fd) (x : Own) : ownOps [(fd, x)] fd = [x] := by
  simp [ownOps]

theorem ownOps_of_ne {fd k : Fd} (h : k ≠ fd) (x : Own) : ownOps [(fd, x)] k = [] := by
  simp [ownOps, Ne.symm h]

/-- `recv_cb` without data closes the connection. -/
theorem recvCb_hungUp {s : Server} {a : Answers} {fd : Fd}
    (h : (a.recv.getD []).take bufferSize = []) :
    recvCb a s fd = (s.close fd, [(fd, .hungUp)]) := by
  simp [recvCb, h]

/-- `recv_cb` with data. -/
theorem recvCb_received (s : Server) (fd : Fd) {a : Answers}
    (h : (a.recv.getD []).take bufferSize ≠ []) :
    ∃ c c', recvCb a s fd = (((s.setConn fd c).setEvent fd .epollout 0).setConn fd c',
        [(fd, .received ((a.recv.getD []).take bufferSize))]) ∧
      c'.sate = 0 ∧ c'.fd = (s.connList fd).fd ∧ c'.rAction = (s.connList fd).rAction ∧
      c'.sendCallback = (s.connList fd).sendCallback := by
  obtain ⟨c, heq, hfd, hra, hsc⟩ : ∃ c : Conn,
      recvCb a s fd = (((s.setConn fd c).setEvent fd .epollout 0).setConn fd (httpRequest c),
        [(fd, .received ((a.recv.getD []).take bufferSize))]) ∧
      c.fd = (s.connList fd).fd ∧ c.rAction = (s.connList fd).rAction ∧
      c.sendCallback = (s.connList fd).sendCallback := by
    exact ⟨_, if_neg h, rfl, rfl, rfl⟩
  exact ⟨c, httpRequest c, heq, rfl, hfd, hra, hsc⟩

/-- `recv_cb` leaves the other descriptors alone. -/
theorem recvCb_of_ne {s : Server} {a : Answers} {fd k : Fd} (hk : k ≠ fd) :
    (recvCb a s fd).1.view k = s.view k ∧ ownOps (recvCb a s fd).2 k = [] := by
  by_cases h : (a.recv.getD []).take bufferSize = []
  · rw [recvCb_hungUp h]
    exact ⟨Server.view_close_of_ne hk, ownOps_of_ne hk _⟩
  · obtain ⟨c, c', heq, -⟩ := recvCb_received s fd h
    rw [heq]
    exact ⟨by simp [hk], ownOps_of_ne hk _⟩

/-- While a descriptor is registered for reading, no answer is due on it. -/
theorem Tracks.reading {fd : Fd} {c : Client} {v : View} (ht : Tracks fd c v)
    (hin : v.interest ≠ some .epollout) : c.phase = .reading := by
  by_contra hne
  exact hin (ht.out.mpr hne)

/-- `recv_cb` takes the conversation from reading to the header, or ends it. -/
theorem recvCb_tracks {s : Server} {a : Answers} {fd : Fd} {c : Client}
    (ht : Tracks fd c (s.view fd)) (hin : s.interest fd = some .epollin)
    (hcb : (s.connList fd).rAction = some .recvCb) :
    Tracks fd ((ownOps (recvCb a s fd).2 fd).foldl Client.next c) ((recvCb a s fd).1.view fd) := by
  have hreading := ht.reading (by simp [Server.view, hin])
  by_cases h : (a.recv.getD []).take bufferSize = []
  · rw [recvCb_hungUp h, ownOps_self, Server.view_close_self]
    exact {
      written := ht.written
      out := by simp [Client.next, hreading]
      header := fun _ hphase => absurd (hreading.symm.trans hphase) (by simp)
      body := fun _ _ hphase => absurd (hreading.symm.trans hphase) (by simp)
      opened := fun hnone => absurd rfl hnone
      callback := fun hnone => absurd rfl hnone
      client := fun hnone => absurd rfl hnone
      outClient := fun hout => absurd hout (by simp) }
  · obtain ⟨c₁, c₂, heq, hsate, hfd, hra, hsc⟩ := recvCb_received s fd h
    have hreg : (s.view fd).interest ≠ none := by simp [Server.view, hin]
    have hclient := ht.client hreg hcb
    rw [heq, ownOps_self, Server.view_setConn_self,
      Server.view_setEvent_self _ (by simp [Server.setConn, hin]), Server.view_setConn_self]
    exact {
      written := by simpa [Client.next, Client.writes, hreading, Phase.writes] using ht.written
      out := by simp [Client.next]
      header := fun _ _ => hsate
      body := fun _ _ hphase => by cases hphase
      opened := fun _ => ht.opened hreg
      callback := fun _ => by rw [hra, hcb]; simp
      client := fun _ _ => ⟨hfd.trans hclient.1, hsc.trans hclient.2⟩
      outClient := fun _ => hra.trans hcb }

/-- Every header fits in `wbuffer`. -/
theorem length_header_lt (n : BitVec 64) : (header n.toInt ++ [0]).length ≤ bufferSize := by
  have hlt := n.toInt_lt
  have hle := n.le_toInt
  have hint : (printInt n.toInt).length ≤ 19 + 1 :=
    length_printInt_le (by decide) (by simp only [Nat.reduceSub] at hlt hle; omega)
  simp only [header, List.length_append, statusLine, emptyLine, List.length_cons, List.length_nil]
  show _ ≤ 1024
  omega

/-- `http_response` on a request leaves the header in `wbuffer`. -/
theorem httpResponse_header {a : SendAnswers} {c : Conn} (h : c.sate = 0) :
    ∃ c', httpResponse a c = (c', []) ∧ c'.sate = 1 ∧
      c'.wbuffer.toList.take c'.wlen = header a.stSize.toInt ∧
      c'.fd = c.fd ∧ c'.rAction = c.rAction ∧ c'.sendCallback = c.sendCallback := by
  refine ⟨{ c with wbuffer := overwrite c.wbuffer (header a.stSize.toInt ++ [0]),
                   wlen := (header a.stSize.toInt).length, sate := 1 },
    by simp [httpResponse, h], rfl, ?_, rfl, rfl, rfl⟩
  show (overwrite c.wbuffer (header a.stSize.toInt ++ [0])).toList.take
    (header a.stSize.toInt).length = _
  rw [toList_overwrite _ (length_header_lt _), List.append_assoc, List.take_left]

/-- `http_response` behind the header sends the file. -/
theorem httpResponse_body {a : SendAnswers} {c : Conn} (h : c.sate = 1) :
    ∃ c', httpResponse a c = (c', [a.bodyWrite]) ∧ c'.sate = 2 ∧
      c'.fd = c.fd ∧ c'.rAction = c.rAction ∧ c'.sendCallback = c.sendCallback := by
  refine ⟨{ c with wbuffer := .replicate _ 0, wlen := 0, sate := 2 }, ?_, rfl, rfl, rfl, rfl⟩
  simp [httpResponse, h, SendAnswers.bodyWrite]

/-- What `send_cb` leaves behind: the writes and the interest on its own
    descriptor, and nothing on the others. -/
structure Sent (s : Server) (a : SendAnswers) (fd : Fd) (c' : Conn) (ws : List Write)
    (interest : Interest) : Prop where
  view : (sendCb a s fd).1.view fd = ⟨c', s.isOpen fd, some interest, s.written fd ++ ws⟩
  others : ∀ k, k ≠ fd → (sendCb a s fd).1.view k = s.view k
  rAction : c'.rAction = (s.connList fd).rAction
  sendCallback : c'.sendCallback = (s.connList fd).sendCallback
  fd_eq : c'.fd = fd

/-- `send_cb` while the header is due. -/
theorem sendCb_header {s : Server} {a : SendAnswers} {fd : Fd} (hfd : (s.connList fd).fd = fd)
    (hreg : s.interest fd ≠ none) (h : (s.connList fd).sate = 0) :
    ∃ c', Sent s a fd c' [a.headerWrite] .epollout ∧ c'.sate = 1 := by
  obtain ⟨c', hresp, hsate, hbuf, hfd', hra, hsc⟩ := httpResponse_header (a := a) h
  have heq : (sendCb a s fd).1 =
      (((s.setConn fd c').write fd []).write fd [a.headerWrite]).setEvent fd .epollout 0 := by
    simp only [sendCb, hresp, hsate, if_true, hbuf, hfd'.trans hfd, SendAnswers.headerWrite]
  refine ⟨c', ⟨?_, fun k hk => by simp [heq, hk], hra, hsc, hfd'.trans hfd⟩, hsate⟩
  rw [heq, Server.view_setEvent_self _ (by simp [Server.write, Server.setConn, hreg])]
  simp [Server.view, Server.write, Server.setConn]

/-- `send_cb` while the file is due. -/
theorem sendCb_body {s : Server} {a : SendAnswers} {fd : Fd} (hfd : (s.connList fd).fd = fd)
    (hreg : s.interest fd ≠ none) (h : (s.connList fd).sate = 1) :
    ∃ c', Sent s a fd c' [a.bodyWrite] .epollin ∧ c'.sate = 2 := by
  obtain ⟨c', hresp, hsate, hfd', hra, hsc⟩ := httpResponse_body (a := a) h
  have heq : (sendCb a s fd).1 =
      ((s.setConn fd c').write fd [a.bodyWrite]).setEvent fd .epollin 0 := by
    simp [sendCb, hresp, hsate, hfd'.trans hfd]
  refine ⟨c', ⟨?_, fun k hk => by simp [heq, hk], hra, hsc, hfd'.trans hfd⟩, hsate⟩
  rw [heq, Server.view_setEvent_self _ (by simp [Server.write, Server.setConn, hreg])]
  simp [Server.view, Server.write, Server.setConn]

/-- `send_cb` on a connection with an answer due: the two cases. -/
theorem sendCb_cases {s : Server} {fd : Fd} {c : Client} (ht : Tracks fd c (s.view fd))
    (hout : s.interest fd = some .epollout) :
    (s.connList fd).fd = fd ∧ (s.connList fd).rAction = some .recvCb ∧
    (s.connList fd).sendCallback = some .sendCb ∧
    ((∃ r, c.phase = .headerDue r ∧ (s.connList fd).sate = 0) ∨
      ∃ r first, c.phase = .bodyDue r first ∧ (s.connList fd).sate = 1) := by
  have hcb := ht.outClient hout
  have hclient := ht.client (by simp [Server.view, hout]) hcb
  refine ⟨hclient.1, hcb, hclient.2, ?_⟩
  cases hphase : c.phase with
  | reading => exact absurd hphase (ht.out.mp hout)
  | headerDue r => exact .inl ⟨r, rfl, ht.header r hphase⟩
  | bodyDue r first => exact .inr ⟨r, first, rfl, ht.body r first hphase⟩

/-- `send_cb` leaves the other descriptors alone. -/
theorem sendCb_of_ne {s : Server} {a : SendAnswers} {fd k : Fd} {c : Client}
    (ht : Tracks fd c (s.view fd)) (hout : s.interest fd = some .epollout) (hk : k ≠ fd) :
    (sendCb a s fd).1.view k = s.view k := by
  have hreg : s.interest fd ≠ none := by simp [hout]
  obtain ⟨hfd, -, -, ⟨-, -, hsate⟩ | ⟨-, -, -, hsate⟩⟩ := sendCb_cases ht hout
  · obtain ⟨c', hsent, -⟩ := sendCb_header (a := a) hfd hreg hsate
    exact hsent.others k hk
  · obtain ⟨c', hsent, -⟩ := sendCb_body (a := a) hfd hreg hsate
    exact hsent.others k hk

theorem sendCb_ops (s : Server) (a : SendAnswers) (fd : Fd) :
    (sendCb a s fd).2 = [(fd, .responded a)] := rfl

/-- `send_cb` takes the conversation from the header to the file, and from the
    file back to reading. -/
theorem sendCb_tracks {s : Server} {a : SendAnswers} {fd : Fd} {c : Client}
    (ht : Tracks fd c (s.view fd)) (hout : s.interest fd = some .epollout) :
    Tracks fd ((ownOps (sendCb a s fd).2 fd).foldl Client.next c) ((sendCb a s fd).1.view fd) := by
  have hreg : s.interest fd ≠ none := by simp [hout]
  have hwritten : s.written fd = c.writes := ht.written
  rw [sendCb_ops, ownOps_self]
  obtain ⟨hfd, hcb, hsend, ⟨r, hphase, hsate⟩ | ⟨r, first, hphase, hsate⟩⟩ := sendCb_cases ht hout
  · obtain ⟨c', hsent, hsate'⟩ := sendCb_header (a := a) hfd hreg hsate
    rw [hsent.view]
    exact {
      written := by simp [hwritten, Client.next, hphase, Client.writes, Phase.writes]
      out := by simp [Client.next, hphase]
      header := fun _ h => by simp [Client.next, hphase] at h
      body := fun _ _ _ => hsate'
      opened := fun _ => ht.opened hreg
      callback := fun _ => by simp [hsent.rAction, hcb]
      client := fun _ _ => ⟨hsent.fd_eq, hsent.sendCallback.trans hsend⟩
      outClient := fun _ => hsent.rAction.trans hcb }
  · obtain ⟨c', hsent, hsate'⟩ := sendCb_body (a := a) hfd hreg hsate
    rw [hsent.view]
    exact {
      written := by
        simp [hwritten, Client.next, hphase, Client.writes, Phase.writes, Round.writes]
      out := by simp [Client.next, hphase]
      header := fun _ h => by simp [Client.next, hphase] at h
      body := fun _ _ h => by simp [Client.next, hphase] at h
      opened := fun _ => ht.opened hreg
      callback := fun _ => by simp [hsent.rAction, hcb]
      client := fun _ _ => ⟨hsent.fd_eq, hsent.sendCallback.trans hsend⟩
      outClient := fun h => absurd h (by simp) }

/-- What `accept_cb` does when it returns. -/
theorem acceptCb_cases {s s' : Server} {a : Answers} {o : List (Fd × Own)}
    (h : acceptCb a s = .ok (s', o)) :
    (a.accept = none ∧ s' = s ∧ o = []) ∨
    ∃ clientfd, a.accept = some clientfd ∧
      s' = ((s.openFd clientfd).setConn clientfd
        { s.connList clientfd with
            fd := clientfd, rAction := some .recvCb, sendCallback := some .sendCb,
            rbuffer := .replicate _ 0, rlen := 0, wbuffer := .replicate _ 0,
            wlen := 0 }).setEvent clientfd .epollin 1 ∧
      o = [(clientfd, .accepted)] := by
  unfold acceptCb at h
  split at h
  next hnone =>
    obtain ⟨rfl, rfl⟩ := Prod.mk.inj (Except.ok.inj h)
    exact .inl ⟨hnone, rfl, rfl⟩
  next clientfd hfd =>
    split at h
    · cases h
    · obtain ⟨rfl, rfl⟩ := Prod.mk.inj (Except.ok.inj h)
      exact .inr ⟨clientfd, hfd, rfl, rfl⟩

/-- It goes wrong with a descriptor behind the end of `conn_list` only. -/
theorem acceptCb_fault {s : Server} {a : Answers} {x : Fault} (h : acceptCb a s = .error x) :
    x = .pastConnList ∧ ∃ fd ∈ a.accept, connSize ≤ fd := by
  unfold acceptCb at h
  split at h
  · cases h
  next fd hfd =>
    split at h
    next hle => exact ⟨(Except.error.inj h).symm, fd, hfd, hle⟩
    · cases h

/-- `accept_cb` starts a conversation on the new descriptor, whatever was left
    in its entry of `conn_list`, and leaves the others alone. -/
theorem acceptCb_tracks {s s' : Server} {a : Answers} {o : List (Fd × Own)}
    (haccept : ∀ fd ∈ a.accept, s.isOpen fd = false)
    (h : acceptCb a s = .ok (s', o)) {k : Fd} {c : Client} (ht : Tracks k c (s.view k)) :
    Tracks k ((ownOps o k).foldl Client.next c) (s'.view k) := by
  obtain ⟨-, rfl, rfl⟩ | ⟨clientfd, hfd, rfl, rfl⟩ := acceptCb_cases h
  · exact ht
  · by_cases hk : k = clientfd
    · subst hk
      -- a descriptor that is not open is not registered either
      have hnone : s.interest k = none := by
        by_contra hreg
        have hopen := ht.opened hreg
        simp [Server.view, haccept k hfd] at hopen
      rw [ownOps_self, Server.view_setEvent_self _ (by
        simp [Server.openFd, Server.setConn, hnone])]
      exact {
        written := by
          simp [Server.view, Server.openFd, Server.setConn, Client.next, Client.fresh,
            Client.writes, Phase.writes]
        out := by simp [Client.next, Client.fresh]
        header := fun _ h => by cases h
        body := fun _ _ h => by cases h
        opened := fun _ => by simp [Server.view, Server.openFd, Server.setConn]
        callback := fun _ => by simp [Server.view, Server.openFd, Server.setConn]
        client := fun _ _ => by simp [Server.view, Server.openFd, Server.setConn]
        outClient := fun h => absurd h (by simp) }
    · simpa [hk, ownOps_of_ne hk] using ht

/-- Every step keeps every descriptor's conversation. -/
theorem handle_tracks {s s' : Server} {e : EpollEvent} {o : List (Fd × Own)}
    (hr : Reported s e) (h : handle s e = .ok (s', o)) {conv : Fd → Client}
    (ht : ∀ k, Tracks k (conv k) (s.view k)) (k : Fd) :
    Tracks k ((ownOps o k).foldl Client.next (conv k)) (s'.view k) := by
  obtain ⟨rfl, rfl⟩ | ⟨hin, ⟨-, hcall⟩ | ⟨hcb, rfl, rfl⟩⟩ | ⟨-, hout, rfl, rfl⟩ :=
    handle_cases hr h
  · exact ht k
  · exact acceptCb_tracks hr.accept hcall (ht k)
  · by_cases hk : k = e.fd
    · subst hk
      exact recvCb_tracks (ht _) hin hcb
    · obtain ⟨hview, hops⟩ := recvCb_of_ne (s := s) (a := e.answers) hk
      rw [hview, hops]
      exact ht k
  · by_cases hk : k = e.fd
    · subst hk
      exact sendCb_tracks (ht _) hout
    · rw [sendCb_of_ne (ht e.fd) hout hk, sendCb_ops, ownOps_of_ne hk]
      exact ht k

/-! ## Every run -/

/-- The steps on events that can be reported. -/
abbrev EventStep : StepRel Server EpollEvent (List (Fd × Own)) :=
  Guarded Reported (StepsOf handle)

/-- All that happened to one descriptor. -/
def ownEvents (hist : List (EpollEvent × List (Fd × Own))) (fd : Fd) : List Own :=
  hist.flatMap fun en => ownOps en.2 fd

theorem ownEvents_snoc (hist : List (EpollEvent × List (Fd × Own)))
    (en : EpollEvent × List (Fd × Own)) (fd : Fd) :
    ownEvents (hist ++ [en]) fd = ownEvents hist fd ++ ownOps en.2 fd := by
  simp [ownEvents]

/-- A listening socket has no conversation. -/
theorem startListeners_tracks {s : Server} (listeners : List Fd)
    (ht : ∀ k, Tracks k .fresh (s.view k)) (k : Fd) :
    Tracks k .fresh ((startListeners s listeners).view k) := by
  induction listeners generalizing s with
  | nil => exact ht k
  | cons sockfd rest ih =>
      refine ih fun k => ?_
      by_cases hk : k = sockfd
      · subst hk
        have hin : ∀ {t : Server}, t.interest k ≠ some .epollout →
            (t.setEvent k .epollin 1).interest k ≠ some .epollout := by
          intro t hout
          unfold Server.setEvent
          split
          · simp
          · exact hout
        have hout := hin (t := (s.openFd k).setConn k
          { s.connList k with fd := k, rAction := some .acceptCb })
          (fun hout => (ht k).out.mp hout rfl)
        have hview : ∀ t : Server, (t.setEvent k .epollin 1).view k =
            { t.view k with interest := (t.setEvent k .epollin 1).interest k } := by
          intro t
          unfold Server.setEvent
          split <;> rfl
        rw [hview]
        exact {
          written := by simp [Client.fresh, Client.writes, Phase.writes]
          out := by simpa [Client.fresh] using hout
          header := fun _ h => by cases h
          body := fun _ _ h => by cases h
          opened := fun _ => by simp
          callback := fun _ => by simp
          client := fun _ h => by simp at h
          outClient := fun h => absurd h hout }
      · simpa [hk] using ht k

theorem start_tracks (listeners : List Fd) (k : Fd) :
    Tracks k .fresh ((start listeners).view k) := by
  refine startListeners_tracks listeners (fun k => ?_) k
  constructor <;> simp [Server.view, Client.fresh, Client.writes, Phase.writes]

/-- In every run, each descriptor follows the conversation that its own events
    make. -/
theorem tracks_of_run {listeners : List Fd} {hist : List (EpollEvent × List (Fd × Own))}
    {s : Server} (hrun : Run EventStep (start listeners) hist s) (k : Fd) :
    Tracks k (conversation (ownEvents hist k)) (s.view k) := by
  induction hrun generalizing k with
  | start => exact start_tracks listeners k
  | step _ hstep ih =>
      rw [ownEvents_snoc, conversation_append]
      exact handle_tracks hstep.1 hstep.2 ih k

/-! ## What can happen to a connection -/

/-- Requests arrive, and connections end, while no answer is due. -/
def Own.Allowed (phase : Phase) : Own → Prop
  | accepted => True
  | received _ => phase = .reading
  | hungUp => phase = .reading
  | responded _ => phase ≠ .reading

/-- A step is one thing at most that happens to a descriptor, and it is
    allowed in the phase of its conversation. -/
theorem handle_own {s s' : Server} {e : EpollEvent} {o : List (Fd × Own)} {conv : Fd → Client}
    (hr : Reported s e) (ht : ∀ k, Tracks k (conv k) (s.view k)) (h : handle s e = .ok (s', o))
    (k : Fd) :
    ownOps o k = [] ∨ ∃ x, ownOps o k = [x] ∧ x.Allowed (conv k).phase ∧
      ∀ a, x = .responded a → e.epollout = true ∧ a = e.answers.response := by
  have hone : ∀ {fd : Fd} {x : Own} {P : Own → Prop}, (k = fd → P x) →
      ownOps [(fd, x)] k = [] ∨ ∃ y, ownOps [(fd, x)] k = [y] ∧ P y := by
    intro fd x P hx
    by_cases hk : k = fd
    · subst hk
      exact .inr ⟨x, ownOps_self k x, hx rfl⟩
    · exact .inl (ownOps_of_ne hk x)
  obtain ⟨-, rfl⟩ | ⟨hin, ⟨-, hcall⟩ | ⟨-, -, rfl⟩⟩ | ⟨hflag, hout, -, rfl⟩ := handle_cases hr h
  · exact .inl rfl
  · obtain ⟨-, -, rfl⟩ | ⟨clientfd, -, -, rfl⟩ := acceptCb_cases hcall
    · exact .inl rfl
    · exact hone fun _ => ⟨trivial, fun a ha => by cases ha⟩
  · have hreading : (conv e.fd).phase = .reading := (ht e.fd).reading (by simp [Server.view, hin])
    by_cases hdata : (e.answers.recv.getD []).take bufferSize = []
    · rw [recvCb_hungUp hdata]
      exact hone fun hk => ⟨by rw [hk]; exact hreading, fun a ha => by cases ha⟩
    · obtain ⟨c, c', heq, -⟩ := recvCb_received s e.fd hdata
      rw [heq]
      exact hone fun hk => ⟨by rw [hk]; exact hreading, fun a ha => by cases ha⟩
  · have hdue : (conv e.fd).phase ≠ .reading := (ht e.fd).out.mp hout
    rw [sendCb_ops]
    exact hone fun hk => ⟨by rw [hk]; exact hdue, fun a ha => ⟨hflag, (Own.responded.inj ha).symm⟩⟩

/-- What holds of no events, and is kept by whatever is allowed to happen,
    holds of the events of every descriptor in every run. -/
theorem own_invariant {C : Server → EpollEvent → Prop} {Q : SendAnswers → Prop}
    (hQ : ∀ s e, C s e → e.epollout = true → Q e.answers.response) {P : List Own → Prop}
    (hnil : P []) (hsnoc : ∀ own x, P own → x.Allowed (conversation own).phase →
      (∀ a, x = .responded a → Q a) → P (own ++ [x]))
    {listeners : List Fd} {hist : List (EpollEvent × List (Fd × Own))} {s : Server}
    (hrun : Run (Guarded C EventStep) (start listeners) hist s) (k : Fd) :
    P (ownEvents hist k) := by
  induction hrun with
  | start => exact hnil
  | step hpre hstep ih =>
      rw [ownEvents_snoc]
      obtain hops | ⟨x, hops, hallowed, hresp⟩ :=
        handle_own hstep.2.1 (tracks_of_run hpre.of_guarded) hstep.2.2 k
      · rw [hops, List.append_nil]
        exact ih
      · rw [hops]
        refine hsnoc _ x ih hallowed fun a ha => ?_
        obtain ⟨hflag, rfl⟩ := hresp a ha
        exact hQ _ _ hstep.1 hflag

/-- No callback is called through a null pointer: the only way for a step to
    go wrong is a descriptor behind the end of `conn_list`. -/
theorem handle_fault {s : Server} {e : EpollEvent} {x : Fault} {conv : Fd → Client}
    (hr : Reported s e) (ht : ∀ k, Tracks k (conv k) (s.view k)) (h : handle s e = .error x) :
    x = .pastConnList ∧ ∃ fd ∈ e.answers.accept, connSize ≤ fd := by
  have hread : e.epollin = true → callRAction s e ≠ .error .nullCallback := by
    intro hin hcall
    have hreg : (s.view e.fd).interest ≠ none := by simp [Server.view, hr.epollin hin]
    have hcb : (s.connList e.fd).rAction ≠ none := (ht e.fd).callback hreg
    unfold callRAction at hcall
    split at hcall
    next hnone => exact hcb hnone
    · cases (acceptCb_fault hcall).1
    · cases hcall
  have hsend : e.epollout = true → ∃ r, callSendCallback s e = .ok r := by
    intro hout
    obtain ⟨-, -, hcb, -⟩ := sendCb_cases (ht e.fd) (hr.epollout hout)
    exact ⟨_, by rw [callSendCallback, hcb]⟩
  cases hin : e.epollin with
  | false =>
      cases hout : e.epollout with
      | false => simp [handle, hin, hout, Bind.bind, Except.bind, Pure.pure, Except.pure] at h
      | true =>
          obtain ⟨r, hcall⟩ := hsend hout
          simp [handle, hin, hout, hcall, Bind.bind, Except.bind, Pure.pure, Except.pure] at h
  | true =>
      have hout := hr.not_both hin
      have hcall : callRAction s e = .error x := by
        cases hc : callRAction s e with
        | error y => simpa [handle, hin, hc, Bind.bind, Except.bind] using h
        | ok r =>
            simp [handle, hin, hout, hc, Bind.bind, Except.bind, Pure.pure, Except.pure] at h
      have hne : x ≠ .nullCallback := fun heq => hread hin (heq ▸ hcall)
      unfold callRAction at hcall
      split at hcall
      · exact absurd (Except.error.inj hcall).symm hne
      · exact acceptCb_fault hcall
      · cases hcall

/-- Handling an event leaves the other registered descriptors alone, so that
    what `epoll_wait` has reported for them together with it still stands
    when their turn comes. -/
theorem handle_of_ne {s s' : Server} {e : EpollEvent} {o : List (Fd × Own)} {conv : Fd → Client}
    (hr : Reported s e) (ht : ∀ k, Tracks k (conv k) (s.view k)) (h : handle s e = .ok (s', o))
    {k : Fd} (hk : k ≠ e.fd) (hreg : s.interest k ≠ none) : s'.view k = s.view k := by
  obtain ⟨rfl, -⟩ | ⟨-, ⟨-, hcall⟩ | ⟨-, rfl, -⟩⟩ | ⟨-, hout, rfl, -⟩ := handle_cases hr h
  · rfl
  · obtain ⟨-, rfl, -⟩ | ⟨clientfd, hfd, rfl, -⟩ := acceptCb_cases hcall
    · rfl
    · -- the new descriptor was closed, `k` is open
      have hne : k ≠ clientfd := by
        rintro rfl
        have hopen : s.isOpen k = true := (ht k).opened hreg
        simp [hr.accept k hfd] at hopen
      simp [hne]
  · exact (recvCb_of_ne hk).1
  · exact sendCb_of_ne (ht e.fd) hout hk

end LinuxLearning.Reactor
