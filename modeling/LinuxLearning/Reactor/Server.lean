/-
  LinuxLearning.Reactor.Server

  The reactor of `2.1/reactor.c` with the HTTP callbacks of `2.1/webserver.c`:
  the connection table `conn_list`, the interest that epoll holds for each
  descriptor, what was written on each connection, and one turn of the event
  loop of `main`.

  What the kernel and the file system answer while an event is handled comes
  with the event.
-/

import Mathlib.Data.Vector.Basic
import Mathlib.Logic.Function.Basic
import LinuxLearning.Lib.CString
import LinuxLearning.Lib.Decimal

namespace LinuxLearning.Reactor

open Lib

/-- A file descriptor. -/
abbrev Fd := Nat

/-- `buffer_size` -/
abbrev bufferSize : Nat := 1024

/-- `conn_size` -/
abbrev connSize : Nat := 1048576

/-! ## The data -/

/-- The callbacks that `r_action` points to. -/
inductive RAction where
  | acceptCb
  | recvCb
deriving DecidableEq, Repr

/-- The callback that `send_callback` points to. -/
inductive SendCallback where
  | sendCb
deriving DecidableEq, Repr

/-- `conn`. The source spells its state `sate`. -/
structure Conn where
  fd : Fd
  rbuffer : Vector UInt8 bufferSize
  rlen : Nat
  wbuffer : Vector UInt8 bufferSize
  wlen : Nat
  rAction : Option RAction
  sendCallback : Option SendCallback
  sate : Int

/-- An entry of `conn_list` at the start of the program. -/
def Conn.zero : Conn :=
  { fd := 0, rbuffer := .replicate _ 0, rlen := 0, wbuffer := .replicate _ 0, wlen := 0,
    rAction := none, sendCallback := none, sate := 0 }

/-- The events that a descriptor is registered for. -/
inductive Interest where
  | epollin
  | epollout
deriving DecidableEq, Repr

/-- The bytes that one call has put on a connection. -/
inductive Write where
  | send (bytes : List UInt8)
  | sendfile (bytes : List UInt8)
deriving DecidableEq, Repr

/-- The bytes of a write. -/
def Write.bytes : Write → List UInt8
  | send bytes => bytes
  | sendfile bytes => bytes

/-- The program and what the kernel keeps for its descriptors: which are
    open, what epoll watches them for, and what was written on the connection
    since it was accepted. -/
structure Server where
  connList : Fd → Conn
  isOpen : Fd → Bool
  interest : Fd → Option Interest
  written : Fd → List Write

/-- The answers to the calls of `send_cb`: the size in the `struct stat`, the
    bytes of `index.html` that `sendfile` finds, and how many bytes `sendfile`
    and `send` take at most, `none` where the call fails.  `off_t` is read
    signed by `%ld` and unsigned as the count of `sendfile`. -/
structure SendAnswers where
  stSize : BitVec 64
  file : List UInt8
  sendfile : Option Nat
  send : Option Nat
deriving DecidableEq, Repr

/-- The answers to the calls made while one event is handled. For `recv`,
    the bytes that have arrived, or `none` where the call fails. -/
structure Answers where
  accept : Option Fd
  recv : Option (List UInt8)
  response : SendAnswers

/-- What happens to one connection. -/
inductive Own where
  | accepted
  | received (request : List UInt8)
  | hungUp
  | responded (a : SendAnswers)
deriving DecidableEq, Repr

/-- Undefined behaviour of the source. -/
inductive Fault where
  | nullCallback
  /-- `conn_list[clientfd]` behind the end of the table. -/
  | pastConnList
deriving DecidableEq, Repr

namespace Server

def setConn (s : Server) (fd : Fd) (c : Conn) : Server :=
  { s with connList := Function.update s.connList fd c }

/-- Bytes are put on the connection `fd`. -/
def write (s : Server) (fd : Fd) (ws : List Write) : Server :=
  { s with written := Function.update s.written fd (s.written fd ++ ws) }

/-- `close`, which ends the registration too. -/
def close (s : Server) (fd : Fd) : Server :=
  { s with isOpen := Function.update s.isOpen fd false,
           interest := Function.update s.interest fd none }

/-- The kernel opens `fd` for a new connection. -/
def openFd (s : Server) (fd : Fd) : Server :=
  { s with isOpen := Function.update s.isOpen fd true,
           written := Function.update s.written fd [] }

/-- `set_event`. With `flag` 1 a descriptor is added that is not registered
    yet, otherwise the interest of a registered one is changed. -/
def setEvent (s : Server) (fd : Fd) (event : Interest) (flag : Int) : Server :=
  if s.interest fd = none ↔ flag = 1 then
    { s with interest := Function.update s.interest fd (some event) }
  else s

end Server

/-! ## webserver.c -/

/-- `HTTP/1.1 200 OK\r\nContent-Length: ` -/
def statusLine : List UInt8 :=
  [72, 84, 84, 80, 47, 49, 46, 49, 32, 50, 48, 48, 32, 79, 75, 13, 10,
    67, 111, 110, 116, 101, 110, 116, 45, 76, 101, 110, 103, 116, 104, 58, 32]

/-- `\r\n\r\n` -/
def emptyLine : List UInt8 := [13, 10, 13, 10]

/-- The header that announces `n` bytes. -/
def header (n : Int) : List UInt8 := statusLine ++ printInt n ++ emptyLine

/-- What a call takes of the bytes that it is given. -/
def transferred (count : Option Nat) (bytes : List UInt8) : List UInt8 :=
  bytes.take (count.getD 0)

/-- `http_request` -/
def httpRequest (c : Conn) : Conn := { c with sate := 0 }

/-- `http_response`, and what it writes on `c->fd`. -/
def httpResponse (a : SendAnswers) (c : Conn) : Conn × List Write :=
  let (c, ws) :=
    if c.sate = 0 then
      ({ c with wbuffer := overwrite c.wbuffer (header a.stSize.toInt ++ [0]),
                wlen := (header a.stSize.toInt).length, sate := 1 }, [])
    else if c.sate = 1 then
      ({ c with wbuffer := .replicate _ 0, wlen := 0, sate := 2 },
        [.sendfile (transferred a.sendfile (a.file.take a.stSize.toNat))])
    else (c, [])
  if c.sate = 2 then ({ c with wbuffer := .replicate _ 0, wlen := 0 }, ws) else (c, ws)

/-! ## reactor.c -/

/-- `recv_cb`. The two branches behind the first one are never taken. -/
def recvCb (a : Answers) (s : Server) (fd : Fd) : Server × List (Fd × Own) :=
  let request := (a.recv.getD []).take bufferSize
  if request = [] then (s.close fd, [(fd, .hungUp)])
  else
    let c := s.connList fd
    let c := { c with rbuffer := overwrite c.rbuffer request, rlen := request.length,
                      wlen := request.length }
    let s := (s.setConn fd c).setEvent fd .epollout 0
    (s.setConn fd (httpRequest c), [(fd, .received request)])

/-- `send_cb` -/
def sendCb (a : SendAnswers) (s : Server) (fd : Fd) : Server × List (Fd × Own) :=
  let (c, ws) := httpResponse a (s.connList fd)
  let s := (s.setConn fd c).write c.fd ws
  let s :=
    if c.sate = 1 then
      (s.write fd [.send (transferred a.send (c.wbuffer.toList.take c.wlen))]).setEvent fd
        .epollout 0
    else if c.sate = 2 then s.setEvent fd .epollin 0
    else if c.sate = 0 then s.setEvent fd .epollout 0
    else s
  (s, [(fd, .responded a)])

/-- `accept_cb` -/
def acceptCb (a : Answers) (s : Server) : Except Fault (Server × List (Fd × Own)) :=
  match a.accept with
  | none => .ok (s, [])
  | some clientfd =>
      if connSize ≤ clientfd then .error .pastConnList
      else
        let c : Conn :=
          { s.connList clientfd with
              fd := clientfd, rAction := some .recvCb, sendCallback := some .sendCb,
              rbuffer := .replicate _ 0, rlen := 0, wbuffer := .replicate _ 0, wlen := 0 }
        .ok ((((s.openFd clientfd).setConn clientfd c).setEvent clientfd .epollin 1),
          [(clientfd, .accepted)])

/-- An event that `epoll_wait` reports. -/
structure EpollEvent where
  fd : Fd
  epollin : Bool
  epollout : Bool
  answers : Answers

/-- The call through `r_action`. -/
def callRAction (s : Server) (e : EpollEvent) : Except Fault (Server × List (Fd × Own)) :=
  match (s.connList e.fd).rAction with
  | none => .error .nullCallback
  | some .acceptCb => acceptCb e.answers s
  | some .recvCb => .ok (recvCb e.answers s e.fd)

/-- The call through `send_callback`. -/
def callSendCallback (s : Server) (e : EpollEvent) : Except Fault (Server × List (Fd × Own)) :=
  match (s.connList e.fd).sendCallback with
  | none => .error .nullCallback
  | some .sendCb => .ok (sendCb e.answers.response s e.fd)

/-- One turn of the loop over the events in `main`. -/
def handle (s : Server) (e : EpollEvent) : Except Fault (Server × List (Fd × Own)) := do
  let (s, o) ← if e.epollin then callRAction s e else .ok (s, [])
  let (s, o') ← if e.epollout then callSendCallback s e else .ok (s, [])
  return (s, o ++ o')

/-- The loop of `main` over the listening sockets that `server_init` made. -/
def startListeners (s : Server) : List Fd → Server
  | [] => s
  | sockfd :: rest =>
      let c := { s.connList sockfd with fd := sockfd, rAction := some .acceptCb }
      startListeners (((s.openFd sockfd).setConn sockfd c).setEvent sockfd .epollin 1) rest

/-- The program in front of its event loop. -/
def start (listeners : List Fd) : Server :=
  startListeners { connList := fun _ => .zero, isOpen := fun _ => false,
                   interest := fun _ => none, written := fun _ => [] } listeners

end LinuxLearning.Reactor
