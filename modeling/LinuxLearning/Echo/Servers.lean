/-
  LinuxLearning.Echo.Servers

  The echo servers of `2.1/select.c`, `2.1/poll.c` and `2.1/epoll.c`: what each
  keeps of the descriptors it watches, what it does to that when it accepts a
  client and when it closes one, and one pass of its loop.
-/

import Mathlib.Data.List.Basic
import Mathlib.Logic.Function.Basic

namespace LinuxLearning.Echo

abbrev Byte := BitVec 8

/-! ## Clients -/

/-- What happens to the clients of a server. -/
inductive Event where
  | accept (fd : Nat)
  | close (fd : Nat)
deriving DecidableEq, Repr

/-- What has become of `init` after some events, the latest event first. -/
def after {σ : Type*} (init : σ) (accept close : σ → Nat → σ) : List Event → σ
  | [] => init
  | .accept fd :: events => accept (after init accept close events) fd
  | .close fd :: events => close (after init accept close events) fd

/-- The descriptors of clients that are open. -/
def isOpen : List Event → Nat → Bool :=
  after (fun _ => false) (fun fds fd => Function.update fds fd true)
    fun fds fd => Function.update fds fd false

/-- The kernel gives out descriptors that are free, above the listening one,
    and the servers close what is open. -/
inductive IsHistory (sockfd : Nat) : List Event → Prop
  | nil : IsHistory sockfd []
  | accept {events : List Event} {fd : Nat} : IsHistory sockfd events → sockfd < fd → fd < 1024 →
      isOpen events fd = false → IsHistory sockfd (.accept fd :: events)
  | close {events : List Event} {fd : Nat} : IsHistory sockfd events → isOpen events fd = true →
      IsHistory sockfd (.close fd :: events)

/-- A history of clients. -/
structure History (sockfd : Nat) where
  events : List Event
  isHistory : IsHistory sockfd events

/-- A descriptor of a client that is open. -/
abbrev History.IsClient {sockfd : Nat} (h : History sockfd) (fd : Nat) : Prop :=
  isOpen h.events fd = true

/-! ## The kernel -/

/-- What a readable client has. -/
inductive Input where
  | data (b : Byte) (bs : List Byte)
  | eof
deriving DecidableEq

/-- The kernel during a pass: what the readable clients have, which
    descriptors are readable that are no sockets of the server, and the order
    in which `epoll_wait` reports. -/
structure Kernel {sockfd : Nat} (h : History sockfd) where
  input : Nat → Option Input
  isClient : ∀ fd, (input fd).isSome → h.IsClient fd
  other : Nat → Bool
  order : List Nat → List Nat
  order_perm : ∀ fds, (order fds).Perm fds

/-- A call on a descriptor. -/
inductive Call where
  | recv
  | send (bytes : List Byte)
  | close
deriving DecidableEq

/-- The calls of a pass, in their order. -/
abbrev Log := List (Nat × Call)

def callsOn (log : Log) (fd : Nat) : List Call :=
  (log.filter fun entry => entry.1 == fd).map Prod.snd

/-- `char buffer[1024]={0}` with what was received. -/
def buffer (bytes : List Byte) : List Byte := bytes ++ List.replicate (1024 - bytes.length) 0

namespace Kernel

variable {sockfd : Nat} {h : History sockfd}

/-- `pending` is the descriptor that `accept` would return. -/
def readable (k : Kernel h) (pending : Option Nat) (fd : Nat) : Bool :=
  if isOpen h.events fd then (k.input fd).isSome
  else if fd = sockfd then pending.isSome
  else k.other fd

/-- `recv` of 1024 bytes: its value and the bytes.  It fails on what is not
    open; no pass calls it for an open client that is not readable. -/
def recv (k : Kernel h) (fd : Nat) : Int × List Byte :=
  (k.input fd).elim (-1, []) fun
    | .eof => (0, [])
    | .data b bs => (((b :: bs).take 1024).length, (b :: bs).take 1024)

/-- `send` of 1024 bytes; the sockets block, so it takes all of them. -/
def send (_ : Kernel h) (fd : Nat) : Int := if isOpen h.events fd then 1024 else -1

end Kernel

variable {sockfd : Nat} {h : History sockfd}

/-- The body of the inner loop of `poll.c` and `epoll.c`, of a client that is
    readable: receive, and close or send back. -/
def echo {σ : Type*} (k : Kernel h) (close : σ → Nat → σ) (r : σ × Log) (fd : Nat) : σ × Log :=
  let (count, bytes) := k.recv fd
  if count = 0 then (close r.1 fd, r.2 ++ [(fd, .recv), (fd, .close)])
  else (r.1, r.2 ++ [(fd, .recv), (fd, .send (buffer bytes))])

/-! ## `select.c` -/

structure Select where
  rfds : Nat → Bool
  maxfd : Nat

namespace Select

/-- In front of the loop. -/
def init (sockfd : Nat) : Select where
  rfds := Function.update (fun _ => false) sockfd true
  maxfd := sockfd

/-- What follows `accept`. -/
def accept (s : Select) (clientfd : Nat) : Select where
  rfds := Function.update s.rfds clientfd true
  maxfd := if s.maxfd < clientfd then clientfd else s.maxfd

/-- `FD_CLR`, with the `close` before it -/
def close (s : Select) (i : Nat) : Select := { s with rfds := Function.update s.rfds i false }

/-- The body of the inner loop, of a descriptor that is set.  The count that is
    compared with 0 is that of `send`. -/
def serve (k : Kernel h) (r : Select × Log) (i : Nat) : Select × Log :=
  let (_, bytes) := k.recv i
  let count := k.send i
  let log := r.2 ++ [(i, .recv), (i, .send (buffer bytes))]
  if count = 0 then (r.1.close i, log ++ [(i, .close)]) else (r.1, log)

/-- Whether `select` looks at a descriptor. -/
def watches (s : Select) (fd : Nat) : Bool := s.rfds fd && decide (fd < s.maxfd + 1)

/-- What `select` leaves of the copy of `rfds`. -/
def rset (k : Kernel h) (pending : Option Nat) (s : Select) (fd : Nat) : Bool :=
  s.watches fd && k.readable pending fd

/-- One pass of the loop.  When nothing is set, the pass that returns and the
    `select` that waits do the same. -/
def pass (k : Kernel h) (pending : Option Nat) (s : Select) : Select × Log :=
  let rset := s.rset k pending
  let s := if rset sockfd then pending.elim s s.accept else s
  (List.range' (sockfd + 1) (s.maxfd - (sockfd + 1))).foldl
    (fun r i => if rset i then serve k r i else r) (s, [])

end Select

/-! ## `poll.c` -/

/-- `struct pollfd` -/
structure PollFd where
  fd : Int
  events : BitVec 16
  revents : BitVec 16
deriving DecidableEq

/-- `POLLIN` -/
def pollin : BitVec 16 := 1

structure Poll where
  fds : Nat → PollFd
  maxfd : Nat

namespace Poll

/-- In front of the loop; the array is not initialised. -/
def init (sockfd : Nat) (fds : Nat → PollFd) : Poll where
  fds := Function.update fds sockfd { fds sockfd with fd := sockfd, events := pollin }
  maxfd := sockfd

def accept (s : Poll) (clientfd : Nat) : Poll where
  fds := Function.update s.fds clientfd { s.fds clientfd with fd := clientfd, events := pollin }
  maxfd := if s.maxfd < clientfd then clientfd else s.maxfd

def close (s : Poll) (i : Nat) : Poll :=
  { s with fds := Function.update s.fds i { s.fds i with fd := -1, events := 0 } }

def serve (k : Kernel h) : Poll × Log → Nat → Poll × Log := echo k close

def loop (sockfd : Nat) {h : History sockfd} (k : Kernel h) (s : Poll) : Poll × Log :=
  (List.range' (sockfd + 1) (s.maxfd - (sockfd + 1))).foldl
    (fun r i => if (r.1.fds i).revents &&& pollin = 0 then r else serve k r i) (s, [])

/-- What the kernel stores in an entry. -/
def answer (k : Kernel h) (pending : Option Nat) (p : PollFd) : PollFd :=
  { p with revents := if 0 ≤ p.fd ∧ k.readable pending p.fd.toNat then p.events &&& pollin else 0 }

/-- One pass of the loop.  `poll` is given the `maxfd` entries in front of that
    of the highest descriptor. -/
def pass (k : Kernel h) (pending : Option Nat) (s : Poll) : Poll × Log :=
  let fds i := if i < s.maxfd then answer k pending (s.fds i) else s.fds i
  let s := { s with fds := fds }
  if (s.fds sockfd).revents &&& pollin = 0 then s.loop sockfd k
  -- where nobody is pending, `accept` waits
  else pending.elim (s, []) fun clientfd => (s.accept clientfd).loop sockfd k

/-- Whether `poll` looks at a descriptor, in its own entry. -/
def watches (s : Poll) (fd : Nat) : Bool :=
  decide (fd < s.maxfd) && (s.fds fd).fd == fd && (s.fds fd).events &&& pollin != 0

end Poll

/-! ## `epoll.c` -/

structure Epoll where
  interest : List Nat

namespace Epoll

def init (sockfd : Nat) : Epoll where
  interest := [sockfd]

def accept (s : Epoll) (clientfd : Nat) : Epoll where
  interest := s.interest.insert clientfd

/-- `close` takes the descriptor off the list, and the `EPOLL_CTL_DEL` behind
    it fails. -/
def close (s : Epoll) (fd : Nat) : Epoll where
  interest := s.interest.filter (· != fd)

def serve (k : Kernel h) : Epoll × Log → Nat → Epoll × Log := echo k close

/-- One pass of the loop. -/
def pass (k : Kernel h) (pending : Option Nat) (s : Epoll) : Epoll × Log :=
  let event := (k.order (s.interest.filter (k.readable pending))).take 1024
  event.foldl (fun r fd => if fd = sockfd then (pending.elim r.1 r.1.accept, r.2) else serve k r fd)
    (s, [])

def watches (s : Epoll) (fd : Nat) : Bool := s.interest.contains fd

end Epoll

end LinuxLearning.Echo
