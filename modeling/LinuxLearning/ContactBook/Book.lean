/-
  LinuxLearning.ContactBook.Book

  The contact book of `contact_folder/contact.c`: the `person` blocks on the
  heap with their link fields, `contact_save`, and `contact_load` with its
  hand-written splitter `FILE_MSG`.
-/

import Mathlib.Data.Vector.Basic
import LinuxLearning.Lib.CString
import LinuxLearning.Lib.LinkedList

namespace LinuxLearning.ContactBook

open Lib

/-- The address of a `person` block. -/
abbrev Addr := Nat

/-- `name_length` -/
abbrev nameLength : Nat := 20

/-- `phone_length` -/
abbrev phoneLength : Nat := 12

/-- `buffer_size` -/
abbrev bufferSize : Nat := 1024

/-- The separator of a line, `','`. -/
def comma : UInt8 := 44

/-- The character arrays of `person`.  Its link fields are in `Heap.links`. -/
structure Person where
  name : Vector UInt8 nameLength
  phone : Vector UInt8 phoneLength
deriving DecidableEq

/-- The `person` blocks. `next` is the next address that `malloc` gives out;
    no address is given out twice. -/
structure Heap where
  person : Addr → Option Person
  links : Links Addr
  next : Addr

/-- `contact`.  Its `count` is an `int`, which this one equals as long as there
    are fewer than 2^31 contacts. -/
structure Contact where
  count : Int
  people : Option Addr
deriving DecidableEq

/-- What the program does not decide: whether the call of `malloc` that would
    give out an address succeeds, what the new block holds, and whether the
    file opens for writing and for reading. -/
structure Env where
  malloc : Addr → Bool
  garbage : Addr → Person
  opensWrite : Bool
  opensRead : Bool

/-- Undefined behaviour of the source. -/
inductive Fault where
  | nullPointer
  | notAllocated
  | readsPastArray
  | writesPastArray
  /-- `%s` of an array without a NUL. -/
  | unterminated
  /-- A walk over a list that leads back into itself. -/
  | diverges
deriving DecidableEq, Repr

namespace Heap

/-- The block at `a` holds `p` from here on. -/
def setPerson (h : Heap) (a : Addr) (p : Person) : Heap :=
  { h with person := Function.update h.person a (some p) }

/-- `malloc(sizeof(person))` -/
def malloc (env : Env) (h : Heap) : Option Addr × Heap :=
  let h' := { h with next := h.next + 1 }
  if env.malloc h.next then (some h.next, h'.setPerson h.next (env.garbage h.next))
  else (none, h')

end Heap

/-- `contact_insert`, with the head pointer that `head` points to.  The
    callers never pass a null `head`. -/
def contactInsert (h : Heap) (people : Addr) (head : Option Addr) :
    Except Fault (Heap × Option Addr) :=
  match head with
  | some first =>
      if (h.person first).isNone then .error .notAllocated
      else .ok ({ h with links := (h.links.pushFront head people).1 }, some people)
  | none => .ok ({ h with links := (h.links.pushFront head people).1 }, some people)

/-! ## Saving -/

/-- `%s` -/
def printString {n : Nat} (v : Vector UInt8 n) : Except Fault (List UInt8) :=
  match cstring? v.toList with
  | some str => .ok str
  | none => .error .unterminated

/-- `fprintf(fp, "%s,%s\n", c->name, c->phone)` -/
def printPerson (p : Person) : Except Fault (List UInt8) := do
  let name ← printString p.name
  let phone ← printString p.phone
  return name ++ comma :: phone ++ [newline]

/-- The loop of `contact_save` from `c` on, for `fuel` turns. -/
def saveLoop (h : Heap) : Nat → Option Addr → Except Fault (List UInt8)
  | _, none => .ok []
  | 0, some _ => .error .diverges
  | fuel + 1, some c =>
      match h.person c with
      | none => .error .notAllocated
      | some p => do
          let line ← printPerson p
          let rest ← saveLoop h fuel (h.links c).next
          return line ++ rest

/-- `contact_save`, with the content of the file before and after, `none` for
    no file.  Where the function falls off its end it returns no value.  A
    list has at most as many nodes as addresses were given out, so that a
    walk of more turns never ends. -/
def contactSave (env : Env) (h : Heap) (cta : Option Addr) (f : Option (List UInt8)) :
    Except Fault (Heap × Option (List UInt8) × Option Int) :=
  -- `fopen` has emptied the file before the list is looked at
  let f := if env.opensWrite then some [] else f
  match cta with
  | none => .ok (h, f, some (-1))
  | some _ =>
      match h.malloc env with
      | (none, _) => .error .nullPointer
      | (some c, h) =>
          -- the block is cleared and lost: `c` is the loop variable next
          let h := h.setPerson c ⟨.replicate _ 0, .replicate _ 0⟩
          if env.opensWrite then do
            let out ← saveLoop h h.next cta
            return (h, some out, none)
          else .error .nullPointer

/-! ## Loading -/

/-- The first loop of `FILE_MSG` on the bytes from `buf[i]` on. -/
def nameLoop {n : Nat} : List UInt8 → Nat → Vector UInt8 n → Except Fault (Nat × Vector UInt8 n)
  | [], _, _ => .error .readsPastArray
  | b :: rest, i, name =>
      if b = comma then .ok (i, name)
      else if h : i < n then nameLoop rest (i + 1) (name.set i b)
      else .error .writesPastArray

/-- The second loop of `FILE_MSG` on the bytes from `buf[i]` to
    `buf[length - 1]`. -/
def phoneLoop {n : Nat} : List UInt8 → Nat → Vector UInt8 n → Except Fault (Vector UInt8 n)
  | [], _, phone => .ok phone
  | b :: rest, j, phone =>
      if h : j < n then phoneLoop rest (j + 1) (phone.set j b) else .error .writesPastArray

/-- `FILE_MSG`, with the arrays that `name` and `phone` point to. -/
def fileMsg {m n k : Nat} (buf : Option (Vector UInt8 m)) (length : Nat) (name : Vector UInt8 n)
    (phone : Vector UInt8 k) : Except Fault (Int × Vector UInt8 n × Vector UInt8 k) :=
  match buf with
  | none => .ok (-1, name, phone)
  | some buf => do
      let (i, name) ← nameLoop buf.toList 0 name
      let phone ← phoneLoop ((buf.toList.take length).drop (i + 1)) 0 phone
      return (0, name, phone)

/-- The local arrays of `contact_load`.  `temp_phone` is as long as
    `temp_name`. -/
structure Locals where
  buffer : Vector UInt8 bufferSize
  tempName : Vector UInt8 nameLength
  tempPhone : Vector UInt8 nameLength

/-- The arrays at the start of `contact_load`. -/
def Locals.zero : Locals := ⟨.replicate _ 0, .replicate _ 0, .replicate _ 0⟩

/-- `fgets` stores a line, `strlen` and `FILE_MSG` take it apart: the result
    of `FILE_MSG` and the arrays afterwards. -/
def Locals.readLine (l : Locals) (line : List UInt8) : Except Fault (Int × Locals) := do
  let buffer := overwrite l.buffer (line ++ [0])
  let len := strlen buffer.toList
  let (ret, tempName, tempPhone) ← fileMsg (some buffer) len l.tempName l.tempPhone
  return (ret, ⟨buffer, tempName, tempPhone⟩)

/-- What the two `memcpy` of `contact_load` store in the new person. -/
def Locals.toPerson (l : Locals) : Person :=
  ⟨l.tempName, .ofFn fun i : Fin phoneLength => l.tempPhone[i.val]⟩

/-- The loop of `contact_load` on the lines that `fgets` returns. -/
def loadLoop (env : Env) : List (List UInt8) → Locals → Heap → Contact →
    Except Fault (Heap × Contact × Option Int)
  | [], _, h, cta => .ok (h, cta, none)
  | line :: lines, l, h, cta => do
      let (ret, l) ← l.readLine line
      if ret ≠ 0 then loadLoop env lines l h cta
      else
        match h.malloc env with
        | (none, h) => .ok (h, cta, some (-1))
        | (some c, h) => do
            let (h, people) ← contactInsert (h.setPerson c l.toPerson) c cta.people
            loadLoop env lines l h ⟨cta.count + 1, people⟩

/-- `contact_load`, on a file with that content. -/
def contactLoad (env : Env) (h : Heap) (cta : Contact) (f : Option (List UInt8)) :
    Except Fault (Heap × Contact × Option Int) :=
  match f with
  | some content =>
      if env.opensRead then loadLoop env (fgetsLines bufferSize content) .zero h cta
      else .ok (h, cta, some (-1))
  | none => .ok (h, cta, some (-1))

end LinuxLearning.ContactBook
