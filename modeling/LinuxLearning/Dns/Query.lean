/-
  LinuxLearning.Dns.Query

  The query that `dns_folder/dns.c` builds: `header_creater`,
  `question_create` with its rewriting of the host name, and `build_dns`.
-/

import LinuxLearning.Lib.DnsMessage
import LinuxLearning.Ustack.Memory

namespace LinuxLearning.Dns

open Lib Ustack

/-- `struct dns_head` -/
structure Head where
  id : BitVec 16
  flags : BitVec 16
  qdcount : BitVec 16
  adcount : BitVec 16
  nscount : BitVec 16
  arcount : BitVec 16
deriving DecidableEq, Repr

/-- `struct dns_question`; `name` is `none` for a null pointer. -/
structure Question where
  name : Option Ptr
  length : Nat
  qtype : BitVec 16
  qclass : BitVec 16

/-- `sizeof(head)`, of the type -/
def sizeofHead : Nat := 12

/-- `sizeof(question)`: a pointer, an `int` and two numbers of 16 bits. -/
def sizeofQuestion : Nat := 16

/-- What the program does not decide: the allocations of `question_create`,
    what `random` returns, and the heap from the block of the name on. -/
structure Env where
  malloc : Bool
  strdup : Bool
  random : BitVec 16
  heap : Ptr

/-- An access through a null pointer. -/
inductive Fault where
  | nullPointer
deriving DecidableEq, Repr

/-! ## The header -/

/-- `header_creater`.  Its parameter hides the type: `sizeof(head)` is that of
    a pointer, 8 bytes. -/
def headerCreater (env : Env) (h : Head) : Head :=
  let h := { h with id := 0, flags := 0, qdcount := 0, adcount := 0 }
  { h with id := env.random, flags := htons 0x0100, qdcount := htons 1 }

/-! ## The question -/

/-- The one byte of `dev`, `'.'`. -/
def dev : Byte := 0x2e

/-- `strtok` with the delimiter `dev`: the next token, and what is behind its
    delimiter. -/
def strtok (s : List Byte) : Option (List Byte × List Byte) :=
  match s.dropWhile (· == dev) with
  | [] => none
  | b :: s => some (b :: s.takeWhile (· != dev), (s.dropWhile (· != dev)).drop 1)

theorem length_of_strtok {s temp rest : List Byte} (h : strtok s = some (temp, rest)) :
    rest.length < s.length := by
  unfold strtok at h
  split at h
  · cases h
  · rename_i b t ht
    obtain ⟨-, rfl⟩ := Prod.mk.inj (Option.some.inj h)
    have hle := (List.dropWhile_suffix (fun c => c == dev) (l := s)).length_le
    have hle' := (List.dropWhile_suffix (fun c => c != dev) (l := t)).length_le
    rw [ht, List.length_cons] at hle
    rw [List.length_drop]
    omega

/-- The loop of `question_create`, with what `strtok` has left of the host
    name and the memory that `qname` is an offset into. -/
def labelLoop (s : List Byte) (name : Ptr) (qname : Nat) : Ptr :=
  match h : strtok s with
  | none => name
  | some (temp, rest) =>
      have := length_of_strtok h
      let name := name.store8 qname (BitVec.ofNat 8 temp.length)
      -- `strncpy` of one byte more than the label
      let name := name.storeBytes (qname + 1) (temp ++ [0])
      labelLoop rest name (qname + 1 + temp.length)
termination_by s.length

/-- `question_create`, with what it returns, if it returns a value. -/
def questionCreate (env : Env) (hostname : List Byte) (q : Question) :
    Except Fault (Question × Option Int) :=
  -- `memset` comes before the test of its pointer
  if env.malloc = false then .error .nullPointer
  else
    let name := env.heap.storeBytes 0 (List.replicate (hostname.length + 2) 0)
    let q : Question :=
      { q with
        name := some name, length := hostname.length + 2, qtype := htons 1, qclass := htons 1 }
    if env.strdup = false then .ok ({ q with name := none }, some (-3))
    else .ok ({ q with name := some (labelLoop hostname name 0) }, none)

/-! ## The message -/

/-- `memcpy(request, h, sizeof(head))` -/
def storeHead (request : Ptr) (h : Head) : Ptr :=
  let request := ((request.store16 0 h.id).store16 2 h.flags).store16 4 h.qdcount
  ((request.store16 6 h.adcount).store16 8 h.nscount).store16 10 h.arcount

/-- `build_dns`: the request and the value it returns.  It does not look at the
    length it is given. -/
def buildDns (h : Head) (q : Question) (request : Ptr) : Except Fault (Ptr × Nat) :=
  let request := storeHead request h
  match q.name with
  | none => .error .nullPointer
  | some name =>
      -- the size of the structure, not that of the name
      let request := request.storeBytes sizeofHead (name.bytes 0 sizeofQuestion)
      let offset := sizeofHead + q.length
      let request := request.store16 offset q.qtype
      let request := request.store16 (offset + 2) q.qclass
      .ok (request, offset + 4)

/-- `header_creater`, `question_create` and `build_dns` one after the other, on
    a cleared header and a cleared question. -/
def query (env : Env) (hostname : List Byte) (request : Ptr) : Except Fault (Ptr × Nat) := do
  let h := headerCreater env ⟨0, 0, 0, 0, 0, 0⟩
  let (q, _) ← questionCreate env hostname ⟨none, 0, 0, 0⟩
  buildDns h q request

end LinuxLearning.Dns
