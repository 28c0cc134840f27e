/-
  LinuxLearning.TcpServer.EventLoop

  The event loops of `TCP_folder/tcp_ser.c` and `TCP_folder/mtcp_ser.c`, which
  watch their clients with `EPOLLET`, together with what the kernel keeps of
  the clients: how much is queued, whether the peer has closed, and whether
  something has arrived since the last report.
-/

import LinuxLearning.Lib.Transition
import Mathlib.Logic.Function.Basic

namespace LinuxLearning.TcpServer

open Lib

abbrev Fd := Int

/-- `buffer_Size` -/
def bufferSize : Nat := 1024

/-- `epoll_size` -/
def epollSize : Nat := 1024

/-! ## The kernel -/

/-- How the stream of a client ends. -/
inductive Ending where
  | finished
  | reset
deriving DecidableEq, Repr

/-- An open client: the bytes in its receive queue, what is behind them if the
    peer has closed, and whether data or a close has arrived since the last
    report. -/
structure Client where
  queue : Nat
  ending : Option Ending
  pending : Bool
deriving DecidableEq, Repr

/-- `recv` would return at once. -/
def Client.readable (c : Client) : Bool := 0 < c.queue || c.ending.isSome

/-- `epoll_ctl(epfd,EPOLL_CTL_ADD,clientfd,&ev)`, of what came in since the
    connection was made: it is reported if there is something to read. -/
def Client.registered (queue : Nat) (ending : Option Ending) : Client where
  queue := queue
  ending := ending
  pending := 0 < queue || ending.isSome

/-- What `recv(clientfd,buffer,buffer_Size,0)` returns, if it returns. -/
def Client.recv (c : Client) : Option Int :=
  if 0 < c.queue then some (min c.queue bufferSize : Nat)
  else
    match c.ending with
    | some .finished => some 0
    | some .reset => some (-1)
    | none => none

/-! ## The servers -/

inductive Program where
  | tcpSer
  | mtcpSer
deriving DecidableEq, Repr

/-- `is_listenfd` -/
def isListenfd (fd : Fd) (fds : List Fd) : Int := if fd ∈ fds then -1 else 0

/-- The descriptor that `accept` is called with for an event, if it is not a
    client's. -/
def Program.acceptFd : Program → List Fd → Fd → Option Fd
  | .tcpSer, listening, fd => if fd ∈ listening then some fd else none
  | .mtcpSer, listening, fd =>
      -- what the test returns is taken for the descriptor
      let sockfd := isListenfd fd listening
      if sockfd ≠ 0 then some sockfd else none

/-- A server: its listening descriptors, its clients, and the events of the
    last `epoll_wait` that it has not come to. -/
structure Server where
  listening : List Fd
  clients : Fd → Option Client
  events : List Fd

/-- A server in front of its loop, with connections that were accepted. -/
def Server.start (listening : List Fd) (accepted : Fd → Option (Nat × Option Ending)) :
    Server where
  listening := listening
  clients fd :=
    if fd ∈ listening then none else (accepted fd).map fun conn => .registered conn.1 conn.2
  events := []

def Server.setClient (s : Server) (fd : Fd) (c : Client) : Server :=
  { s with clients := Function.update s.clients fd (some c) }

/-- `close(clientfd)` and `epoll_ctl(epfd,EPOLL_CTL_DEL,clientfd,&ev)`, in
    either order. -/
def Server.closeClient (s : Server) (fd : Fd) : Server :=
  { s with clients := Function.update s.clients fd none }

/-- `epoll_wait` may report the descriptor: a listening one, and a client with
    a report pending that the kernel finds to be readable. -/
def Server.reportable (s : Server) (fd : Fd) : Bool :=
  fd ∈ s.listening || (s.clients fd).any fun c => c.pending && c.readable

/-- What `epoll_wait` returns with these descriptors. -/
def Server.report (s : Server) (ready : List Fd) : Server :=
  { s with
    clients := fun fd =>
      if fd ∈ ready then (s.clients fd).map fun c => { c with pending := false } else s.clients fd
    events := ready }

/-- The client branch, behind `recv`. -/
def Server.received (s : Server) (fd : Fd) (c : Client) (len : Int) : Server :=
  if len < 0 then s.closeClient fd
  else if len = 0 then s.closeClient fd
  else s.setClient fd { c with queue := c.queue - len.toNat }

/-- What happens next. -/
inductive Event where
  /-- Bytes arrive for a client. -/
  | arrive (fd : Fd) (n : Nat)
  /-- The peer closes. -/
  | finish (fd : Fd) (ending : Ending)
  /-- `epoll_wait` returns; with nothing on a timeout and on an error. -/
  | epollWait (ready : List Fd)
  /-- The turn of a listening descriptor, with what `accept` returns. -/
  | accept (conn : Option (Fd × Nat × Option Ending))
  /-- The turn of a client. -/
  | recv
deriving DecidableEq, Repr

/-- One step, of the kernel or of the loop. -/
def step (p : Program) (s : Server) : Event → Option Server
  | .arrive fd n =>
      match s.clients fd with
      | none => none
      | some c =>
          if 0 < n ∧ c.ending = none then
            some (s.setClient fd { c with queue := c.queue + n, pending := true })
          else none
  | .finish fd ending =>
      match s.clients fd with
      | none => none
      | some c =>
          if c.ending = none then
            some (s.setClient fd { c with ending := some ending, pending := true })
          else none
  | .epollWait ready =>
      if s.events = [] ∧ ready.Nodup ∧ ready.length ≤ epollSize ∧ ready.all s.reportable then
        some (s.report ready)
      else none
  | .accept conn =>
      match s.events with
      | [] => none
      | fd :: events =>
          match p.acceptFd s.listening fd, conn with
          | none, _ => none
          | some _, none => some { s with events := events }
          | some sockfd, some (clientfd, queue, ending) =>
              -- a connection has a descriptor that is not in use
              if sockfd ∈ s.listening ∧ clientfd ∉ s.listening ∧ s.clients clientfd = none then
                some { s.setClient clientfd (.registered queue ending) with events := events }
              else none
  | .recv =>
      match s.events with
      | [] => none
      | fd :: events =>
          match p.acceptFd s.listening fd, s.clients fd with
          | some _, _ => none
          -- a descriptor that is closed: all three calls fail
          | none, none => some { s with events := events }
          | none, some c =>
              c.recv.map fun len => { s.received fd c len with events := events }

/-! ## The moves -/

/-- Both programs take the same descriptors for listening ones. -/
theorem acceptFd_eq_none_iff {p : Program} {listening : List Fd} {fd : Fd} :
    p.acceptFd listening fd = none ↔ fd ∉ listening := by
  cases p <;> by_cases h : fd ∈ listening <;> simp [Program.acceptFd, isListenfd, h]

/-- A client that is read: what is there, up to the size of the buffer. -/
theorem recv_of_pos {c : Client} (h : 0 < c.queue) :
    c.recv = some (min c.queue bufferSize : Nat) := if_pos h

/-- A client that has nothing to read is closed, or `recv` does not return. -/
theorem recv_of_empty {c : Client} {len : Int} (h : c.queue = 0) (hlen : c.recv = some len) :
    len ≤ 0 := by
  rw [Client.recv, if_neg (by omega)] at hlen
  split at hlen <;> simp at hlen <;> omega

/-- The moves of a server. -/
inductive Move (p : Program) (s : Server) : Event → Server → Prop
  | arrive {fd : Fd} {n : Nat} {c : Client} : s.clients fd = some c → 0 < n → c.ending = none →
      Move p s (.arrive fd n) (s.setClient fd { c with queue := c.queue + n, pending := true })
  | finish {fd : Fd} {ending : Ending} {c : Client} : s.clients fd = some c → c.ending = none →
      Move p s (.finish fd ending)
        (s.setClient fd { c with ending := some ending, pending := true })
  | report {ready : List Fd} : s.events = [] → ready.Nodup → ready.length ≤ epollSize →
      (∀ fd ∈ ready, s.reportable fd) → Move p s (.epollWait ready) (s.report ready)
  | acceptFails {fd : Fd} {events : List Fd} : s.events = fd :: events → fd ∈ s.listening →
      Move p s (.accept none) { s with events := events }
  | accept {fd clientfd : Fd} {events : List Fd} {queue : Nat} {ending : Option Ending} :
      s.events = fd :: events → fd ∈ s.listening → clientfd ∉ s.listening →
      s.clients clientfd = none →
      Move p s (.accept (some (clientfd, queue, ending)))
        { s.setClient clientfd (.registered queue ending) with events := events }
  | gone {fd : Fd} {events : List Fd} : s.events = fd :: events → fd ∉ s.listening →
      s.clients fd = none → Move p s .recv { s with events := events }
  | recv {fd : Fd} {events : List Fd} {c : Client} : s.events = fd :: events →
      fd ∉ s.listening → s.clients fd = some c → 0 < c.queue →
      Move p s .recv
        { s.setClient fd { c with queue := c.queue - bufferSize } with events := events }
  | close {fd : Fd} {events : List Fd} {c : Client} : s.events = fd :: events →
      fd ∉ s.listening → s.clients fd = some c → c.queue = 0 → c.ending.isSome →
      Move p s .recv { s.closeClient fd with events := events }

/-- What `recv` and the test of its value do to a client. -/
theorem move_of_recv {p : Program} {s : Server} {fd : Fd} {events : List Fd} {c : Client}
    {len : Int} (hevents : s.events = fd :: events) (hclient : fd ∉ s.listening)
    (hc : s.clients fd = some c) (hlen : c.recv = some len) :
    Move p s .recv { s.received fd c len with events := events } := by
  rcases Nat.eq_zero_or_pos c.queue with hzero | hpos
  · have hending : c.ending.isSome := by
      by_contra hnone
      rw [Option.not_isSome_iff_eq_none] at hnone
      simp [Client.recv, hzero, hnone] at hlen
    have hclosed : s.received fd c len = s.closeClient fd := by
      rcases Int.lt_or_eq_of_le (recv_of_empty hzero hlen) with hneg | rfl
      · exact if_pos hneg
      · rfl
    rw [hclosed]
    exact .close hevents hclient hc hzero hending
  · obtain rfl := Option.some.inj ((recv_of_pos hpos).symm.trans hlen)
    have hleft : c.queue - min c.queue bufferSize = c.queue - bufferSize := by omega
    have hread : s.received fd c (min c.queue bufferSize : Nat) =
        s.setClient fd { c with queue := c.queue - bufferSize } := by
      have hmin : 0 < min c.queue bufferSize := Nat.lt_min.mpr ⟨hpos, by decide⟩
      rw [Server.received, if_neg (by omega), if_neg (by omega), Int.toNat_natCast, hleft]
    rw [hread]
    exact .recv hevents hclient hc hpos

theorem move_of_step {p : Program} {s s' : Server} {e : Event} (h : step p s e = some s') :
    Move p s e s' := by
  cases e with
  | arrive fd n =>
      cases hc : s.clients fd with
      | none => simp [step, hc] at h
      | some c =>
          simp only [step, hc] at h
          split at h
          · rename_i hcond
            obtain rfl := Option.some.inj h
            exact .arrive hc hcond.1 hcond.2
          · cases h
  | finish fd ending =>
      cases hc : s.clients fd with
      | none => simp [step, hc] at h
      | some c =>
          simp only [step, hc] at h
          split at h
          · rename_i hcond
            obtain rfl := Option.some.inj h
            exact .finish hc hcond
          · cases h
  | epollWait ready =>
      simp only [step] at h
      split at h
      · rename_i hcond
        obtain ⟨hevents, hnodup, hle, hall⟩ := hcond
        obtain rfl := Option.some.inj h
        exact .report hevents hnodup hle (List.all_eq_true.mp hall)
      · cases h
  | accept conn =>
      cases hevents : s.events with
      | nil => simp [step, hevents] at h
      | cons fd events =>
          cases hfd : p.acceptFd s.listening fd with
          | none => simp [step, hevents, hfd] at h
          | some sockfd =>
              have hlistening : fd ∈ s.listening := by
                by_contra hnot
                rw [acceptFd_eq_none_iff.mpr hnot] at hfd
                cases hfd
              cases conn with
              | none =>
                  simp only [step, hevents, hfd] at h
                  obtain rfl := Option.some.inj h
                  exact .acceptFails hevents hlistening
              | some conn =>
                  simp only [step, hevents, hfd] at h
                  split at h
                  · rename_i hcond
                    obtain rfl := Option.some.inj h
                    exact .accept hevents hlistening hcond.2.1 hcond.2.2
                  · cases h
  | recv =>
      cases hevents : s.events with
      | nil => simp [step, hevents] at h
      | cons fd events =>
          cases hfd : p.acceptFd s.listening fd with
          | some sockfd => simp [step, hevents, hfd] at h
          | none =>
              have hclient := acceptFd_eq_none_iff.mp hfd
              cases hc : s.clients fd with
              | none =>
                  simp only [step, hevents, hfd, hc] at h
                  obtain rfl := Option.some.inj h
                  exact .gone hevents hclient hc
              | some c =>
                  simp only [step, hevents, hfd, hc] at h
                  obtain ⟨len, hlen, rfl⟩ := Option.map_eq_some_iff.mp h
                  exact move_of_recv hevents hclient hc hlen

end LinuxLearning.TcpServer
