/-
  LinuxLearning.ThreadServer.Server

  The server of `2.1/io.c`, which makes a thread for each client: the loop of
  `main` with its one variable `clientfd`, and the threads in `thread_func`.
  `accept` and `pthread_create` succeed.
-/

import LinuxLearning.Lib.Transition
import Mathlib.Logic.Function.Basic

namespace LinuxLearning.ThreadServer

open Lib

/-- Where `main` is in its loop. -/
inductive MainPc where
  | accepting
  | creating
deriving DecidableEq, Repr

/-- Where a thread is in `thread_func`, with its own `clientfd`.  One that has
    returned is kept with the connection that it closed. -/
inductive Thread where
  | created
  | receiving (clientfd : Nat)
  | sending (clientfd : Nat)
  | closing (clientfd : Nat)
  | returned (closed : Option Nat)
deriving DecidableEq, Repr

/-- The server.  Connections and threads are numbered in the order in which
    they were accepted and created; `accepted` has the descriptors that
    `accept` returned, and `table` the connection that is open under a
    descriptor.  `calls` records which thread made a call on which
    connection. -/
structure Server where
  clientfd : Nat
  pc : MainPc
  accepted : List Nat
  table : Nat → Option Nat
  threads : List Thread
  calls : List (Nat × Option Nat)

/-- In front of the loop; the variable is not initialised. -/
def Server.init (clientfd : Nat) : Server where
  clientfd := clientfd
  pc := .accepting
  accepted := []
  table := fun _ => none
  threads := []
  calls := []

inductive Event where
  | accept (fd : Nat)
  | create
  | start (i : Nat)
  | recv (i : Nat) (eof : Bool)
  | send (i : Nat)
  | close (i : Nat)
deriving DecidableEq, Repr

namespace Server

/-- The variable is overwritten with a descriptor that was free. -/
def accept (s : Server) (fd : Nat) : Server :=
  { s with
    clientfd := fd
    pc := .creating
    accepted := s.accepted ++ [fd]
    table := Function.update s.table fd (some s.accepted.length) }

/-- `pthread_create`, with the address of the variable. -/
def create (s : Server) : Server :=
  { s with pc := .accepting, threads := s.threads ++ [.created] }

/-- Thread `i` goes on. -/
def goOn (s : Server) (i : Nat) (t : Thread) : Server :=
  { s with threads := s.threads.set i t }

/-- Thread `i` makes a call on a descriptor. -/
def call (s : Server) (i fd : Nat) : Server :=
  { s with calls := s.calls ++ [(i, s.table fd)] }

/-- `close(clientfd)` and the return. -/
def close (s : Server) (i fd : Nat) : Server :=
  { (s.call i fd).goOn i (.returned (s.table fd)) with table := Function.update s.table fd none }

end Server

/-- The steps of `main` and of the threads, in any order. -/
def step (s : Server) : Event → Option Server
  | .accept fd =>
      if s.pc = .accepting ∧ s.table fd = none then some (s.accept fd) else none
  | .create => if s.pc = .creating then some s.create else none
  | .start i =>
      -- the variable is read now, not when the thread was created
      if s.threads[i]? = some .created then some (s.goOn i (.receiving s.clientfd)) else none
  | .recv i eof =>
      (s.threads[i]?).bind fun
        | .receiving fd =>
            -- on what is not open, `recv` returns -1 and `thread_func` goes on
            if eof = true ∧ s.table fd = none then none
            else some ((s.call i fd).goOn i (if eof then .closing fd else .sending fd))
        | _ => none
  | .send i =>
      (s.threads[i]?).bind fun
        | .sending fd => some ((s.call i fd).goOn i (.receiving fd))
        | _ => none
  | .close i =>
      (s.threads[i]?).bind fun
        | .closing fd => some (s.close i fd)
        | _ => none

end LinuxLearning.ThreadServer
