/-
  LinuxLearning.Http.Client

  The receive loop of `http_send_request` in `http.c`.  What `select` and
  `recv` do is the input of the loop, one `Turn` for each time round it.
-/

import LinuxLearning.Lib.CString

namespace LinuxLearning.Http

open Lib

/-- `buffer_size` -/
def bufferSize : Nat := 4096

/-- The bytes that one `recv` returns. -/
structure Chunk where
  bytes : List UInt8
  nonempty : bytes ≠ []
  fits : bytes.length ≤ bufferSize
deriving DecidableEq

/-- One time round the loop.  `fresh` is what the bytes hold that `realloc`
    adds. -/
inductive Turn where
  /-- `select` runs out of time. -/
  | notReady
  /-- `recv` returns 0. -/
  | closed
  /-- `recv` returns -1. -/
  | failed (fresh : Nat → UInt8)
  | received (chunk : Chunk) (fresh : Nat → UInt8)

/-- How far the loop has come. -/
inductive Outcome where
  /-- Behind the loop, with the block at `res`. -/
  | returned (res : List UInt8)
  /-- In `select`. -/
  | waiting (res : List UInt8)
  /-- `strlen` or `strncat` went past the end of the block. -/
  | overrun
deriving DecidableEq

/-- `buffer` behind `memset` and `recv`. -/
def buffer (bytes : List UInt8) : List UInt8 :=
  bytes ++ List.replicate (bufferSize - bytes.length) 0

/-- `len`, taken as a `size_t`. -/
def sizeOfInt (len : Int) : Nat := (BitVec.ofInt 64 len).toNat

/-- `res=realloc(res,(strlen(res)+len+1)*sizeof(char)); strncat(res,buffer,len);` -/
def accumulate? (res : List UInt8) (len : Int) (bytes : List UInt8) (fresh : Nat → UInt8) :
    Option (List UInt8) :=
  -- without a NUL in the block, `strlen` reads on behind it
  if 0 ∈ res then
    strncat? (realloc res (strlen res + len + 1).toNat fresh) (buffer bytes) (sizeOfInt len)
  else none

/-- `while (1)`, with the block at `res`. -/
def receiveLoop (res : List UInt8) : List Turn → Outcome
  | [] => .waiting res
  | .notReady :: _ => .returned res
  | .closed :: _ => .returned res
  -- `len` is tested for 0 only: a failure goes on as if −1 bytes had come
  | .failed fresh :: turns =>
      match accumulate? res (-1) [] fresh with
      | none => .overrun
      | some res => receiveLoop res turns
  | .received chunk fresh :: turns =>
      match accumulate? res chunk.bytes.length chunk.bytes fresh with
      | none => .overrun
      | some res => receiveLoop res turns

/-- `http_send_request` from `malloc(sizeof(int))` on. -/
def httpSendRequest (turns : List Turn) : Outcome := receiveLoop (List.replicate 4 0) turns

/-- The string that the caller gets. -/
def Outcome.string? : Outcome → Option (List UInt8)
  | .returned res => cstring? res
  | .waiting _ | .overrun => none

end LinuxLearning.Http
