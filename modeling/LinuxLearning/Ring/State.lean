/-
  LinuxLearning.Ring.State

  The `rte_ring` of `librte_ring`: the ring that carries every packet and
  fragment of the stack from one core to another.  Any number of threads call
  enqueue and dequeue at once.  A call moves the head of its side (with a
  compare-and-set, or with a plain store where it is the only caller of its
  side), copies objects, waits until the calls before it have finished, and
  moves the tail.

  `advance` makes one access to the shared ring at a time, so that other
  threads may come between any two accesses.  Accesses happen in program
  order, as the barriers of `rte_ring_generic.h` ask for.  Indexes are 32-bit
  numbers that run freely and wrap.
-/

import Mathlib.Algebra.Group.Nat.Defs
import Mathlib.Data.Fintype.Basic
import LinuxLearning.Lib.Transition

namespace LinuxLearning.Ring

open Lib

variable {τ α : Type}

/-! ## The structure -/

/-- The two ends of a ring. -/
inductive Side where
  | prod
  | cons
deriving DecidableEq, Repr

/-- `struct rte_ring_headtail`. -/
structure Headtail where
  head : BitVec 32
  tail : BitVec 32
  single : Bool
deriving DecidableEq, Repr

/-- `struct rte_ring`, with the table of objects that follows it in memory; a
    slot that was never written holds `none`. -/
structure RteRing (α : Type) where
  size : BitVec 32
  mask : BitVec 32
  capacity : BitVec 32
  prod : Headtail
  cons : Headtail
  slots : List (Option α)
deriving DecidableEq, Repr

namespace RteRing

/-- The head and tail of one side. -/
def ht (r : RteRing α) : Side → Headtail
  | .prod => r.prod
  | .cons => r.cons

def setHead (r : RteRing α) (sd : Side) (v : BitVec 32) : RteRing α :=
  match sd with
  | .prod => { r with prod := { r.prod with head := v } }
  | .cons => { r with cons := { r.cons with head := v } }

def setTail (r : RteRing α) (sd : Side) (v : BitVec 32) : RteRing α :=
  match sd with
  | .prod => { r with prod := { r.prod with tail := v } }
  | .cons => { r with cons := { r.cons with tail := v } }

/-- `ring[idx] = x`. -/
def setSlot (r : RteRing α) (idx : Nat) (x : α) : RteRing α :=
  { r with slots := r.slots.set idx (some x) }

end RteRing

/-! ## Creation -/

/-- `rte_combine32ms1b`: all bits below the highest set bit become set. -/
def rteCombine32ms1b (x : BitVec 32) : BitVec 32 :=
  let x := x ||| x >>> 1
  let x := x ||| x >>> 2
  let x := x ||| x >>> 4
  let x := x ||| x >>> 8
  x ||| x >>> 16

/-- `rte_align32pow2`. -/
def rteAlign32pow2 (x : BitVec 32) : BitVec 32 :=
  rteCombine32ms1b (x - 1) + 1

/-- `POWEROF2`. -/
def POWEROF2 (x : BitVec 32) : Bool := (x - 1) &&& x == 0

def RING_F_SP_ENQ : BitVec 32 := 0x0001
def RING_F_SC_DEQ : BitVec 32 := 0x0002
def RING_F_EXACT_SZ : BitVec 32 := 0x0004
def RTE_RING_SZ_MASK : BitVec 32 := 0x7fffffff
def RTE_MEMZONE_NAMESIZE : Nat := 32

/-- Why a ring was not initialised. -/
inductive InitError where
  | ENAMETOOLONG
  | EINVAL
deriving DecidableEq, Repr

/-- A flag of the creation flags. -/
def hasFlag (flags f : BitVec 32) : Bool := flags &&& f != 0

/-- `rte_ring_init`, on a memory zone that was never used. -/
def rteRingInit (α : Type) (name : List Char) (count flags : BitVec 32) :
    Except InitError (RteRing α) :=
  if RTE_MEMZONE_NAMESIZE ≤ name.length then .error .ENAMETOOLONG
  else
    let build (size capacity : BitVec 32) : RteRing α :=
      { size := size
        mask := size - 1
        capacity := capacity
        prod := ⟨0, 0, hasFlag flags RING_F_SP_ENQ⟩
        cons := ⟨0, 0, hasFlag flags RING_F_SC_DEQ⟩
        slots := List.replicate size.toNat none }
    if hasFlag flags RING_F_EXACT_SZ then
      .ok (build (rteAlign32pow2 (count + 1)) count)
    else if !POWEROF2 count || RTE_RING_SZ_MASK < count then .error .EINVAL
    else .ok (build count (count - 1))

/-! ## Calls -/

/-- `enum rte_ring_queue_behavior`. -/
inductive QueueBehavior where
  | fixed
  | variable
deriving DecidableEq, Repr

/-- The arguments of `__rte_ring_do_enqueue` and `__rte_ring_do_dequeue`. -/
inductive Call (α : Type) where
  | enqueue (objTable : List α) (behavior : QueueBehavior) (isSp : Bool)
  | dequeue (n : BitVec 32) (behavior : QueueBehavior) (isSc : Bool)
deriving DecidableEq, Repr

namespace Call

def side : Call α → Side
  | .enqueue _ _ _ => .prod
  | .dequeue _ _ _ => .cons

/-- The argument `n`. -/
def n : Call α → BitVec 32
  | .enqueue objTable _ _ => BitVec.ofNat 32 objTable.length
  | .dequeue n _ _ => n

def behavior : Call α → QueueBehavior
  | .enqueue _ b _ => b
  | .dequeue _ b _ => b

/-- `is_sp` and `is_sc`. -/
def single : Call α → Bool
  | .enqueue _ _ s => s
  | .dequeue _ _ s => s

/-- The objects to enqueue. -/
def objs : Call α → List α
  | .enqueue objTable _ _ => objTable
  | .dequeue _ _ _ => []

/-- `n` is an `unsigned int`. -/
def Fits (c : Call α) : Prop := c.objs.length < 2 ^ 32

instance (c : Call α) : Decidable c.Fits := inferInstanceAs (Decidable (_ < _))

/-- Two calls that may be under way at the same time: a call for a single
    producer must be the only enqueue, and likewise for a single consumer. -/
def Compatible (c d : Call α) : Prop := c.side = d.side → c.single = false ∧ d.single = false

instance (c d : Call α) : Decidable (c.Compatible d) := inferInstanceAs (Decidable (_ → _))

end Call

/-- What a call returns: the number of objects, what `*free_space` or
    `*available` was set to, and, of a dequeue, the objects. -/
structure Result (α : Type) where
  n : BitVec 32
  rest : BitVec 32
  objs : List (Option α)
deriving DecidableEq, Repr

def rteRingMpEnqueueBulk (objTable : List α) : Call α := .enqueue objTable .fixed false
def rteRingMcDequeueBulk (n : BitVec 32) : Call α := .dequeue n .fixed false
def rteRingMpEnqueue (obj : α) : Call α := rteRingMpEnqueueBulk [obj]
def rteRingMcDequeue : Call α := rteRingMcDequeueBulk 1
def rteRingMpEnqueueBurst (objTable : List α) : Call α := .enqueue objTable .variable false
def rteRingMcDequeueBurst (n : BitVec 32) : Call α := .dequeue n .variable false
def rteRingSpEnqueueBurst (objTable : List α) : Call α := .enqueue objTable .variable true
def rteRingScDequeueBurst (n : BitVec 32) : Call α := .dequeue n .variable true

/-! ## The accesses of a call -/

/-- `free_entries` of `__rte_ring_move_prod_head`, `entries` of
    `__rte_ring_move_cons_head`. -/
def RteRing.entries (r : RteRing α) (sd : Side) (oldHead : BitVec 32) : BitVec 32 :=
  match sd with
  | .prod => r.capacity + r.cons.tail - oldHead
  | .cons => r.prod.tail - oldHead

/-- The number of objects a call goes on with. -/
def grant (b : QueueBehavior) (n entries : BitVec 32) : BitVec 32 :=
  if entries < n then
    match b with
    | .fixed => 0
    | .variable => entries
  else n

/-- The `switch (n & 0x3)` after the unrolled loop; a case falls through to
    the next. -/
def switchIndexes (idx : Nat) : Nat → List Nat
  | 3 => [idx, idx + 1, idx + 2]
  | 2 => [idx, idx + 1]
  | 1 => [idx]
  | _ => []

/-- The loop that is unrolled by four, and what is left: the ring indexes in
    the order of the copies. -/
def unrolledIndexes (idx n : Nat) : List Nat :=
  (List.range (n / 4)).flatMap
      (fun j => [idx + 4 * j, idx + 4 * j + 1, idx + 4 * j + 2, idx + 4 * j + 3]) ++
    switchIndexes (idx + 4 * (n / 4)) (n % 4)

/-- `ENQUEUE_PTRS` and `DEQUEUE_PTRS`: the ring index that goes with
    `obj_table[i]`, for each `i` in the order of the copies. -/
def RteRing.ptrIndexes (r : RteRing α) (head n : BitVec 32) : List Nat :=
  let idx := head &&& r.mask
  if idx + n < r.size then unrolledIndexes idx.toNat n.toNat
  else
    let toEnd := r.size.toNat - idx.toNat
    List.range' idx.toNat toEnd ++ List.range (n.toNat - toEnd)

/-- What a call knows once it has read the other side's tail. -/
structure Locals where
  oldHead : BitVec 32
  n : BitVec 32
  entries : BitVec 32
deriving DecidableEq, Repr

/-- Where a thread is. -/
inductive Pc (α : Type) where
  | idle
  /-- Before `*old_head = ht->head`. -/
  | loadHead (c : Call α)
  /-- Before the read of the other side's tail. -/
  | loadTail (c : Call α) (oldHead : BitVec 32)
  /-- Before the head is moved. -/
  | moveHead (c : Call α) (k : Locals)
  /-- Before the copy for `obj_table[i]`, and after the last one in the wait
      of `update_tail`; `table` is what was dequeued so far. -/
  | copy (c : Call α) (k : Locals) (i : Nat) (table : List (Option α))
  /-- Before `ht->tail = new_val`. -/
  | storeTail (c : Call α) (k : Locals) (table : List (Option α))
  /-- Before the return. -/
  | finish (r : Result α)
deriving DecidableEq, Repr

/-- What an access was. -/
inductive Act (α : Type) where
  | called (c : Call α)
  | readHead (c : Call α)
  | readTail (c : Call α)
  | movedHead (c : Call α) (n : BitVec 32)
  /-- The compare-and-set failed. -/
  | retried (c : Call α)
  | copied (c : Call α)
  /-- The tail has not come to the call's block yet. -/
  | waited (c : Call α)
  | reached (c : Call α)
  | storedTail (c : Call α) (n : BitVec 32)
  | returned (r : Result α)
deriving DecidableEq, Repr

/-- Why a step cannot be made. -/
inductive Stop where
  /-- No such call is under way, or none can be started. -/
  | refused
  /-- An access outside `obj_table` or the ring's table. -/
  | outOfBounds
deriving DecidableEq, Repr

/-- The next access of a call under way. -/
def advance (r : RteRing α) : Pc α → Except Stop (RteRing α × Pc α × Act α)
  | .idle => .error .refused
  | .loadHead c => .ok (r, .loadTail c (r.ht c.side).head, .readHead c)
  | .loadTail c oldHead =>
      let entries := r.entries c.side oldHead
      let n := grant c.behavior c.n entries
      if n = 0 then .ok (r, .finish ⟨0, entries - 0, []⟩, .readTail c)
      else .ok (r, .moveHead c ⟨oldHead, n, entries⟩, .readTail c)
  | .moveHead c k =>
      if c.single ∨ (r.ht c.side).head = k.oldHead then
        .ok (r.setHead c.side (k.oldHead + k.n), .copy c k 0 [], .movedHead c k.n)
      else .ok (r, .loadHead c, .retried c)
  | .copy c k i table =>
      match (r.ptrIndexes k.oldHead k.n)[i]? with
      | some idx =>
          match r.slots[idx]? with
          | none => .error .outOfBounds
          | some slot =>
              match c with
              | .enqueue objTable _ _ =>
                  match objTable[i]? with
                  | none => .error .outOfBounds
                  | some obj => .ok (r.setSlot idx obj, .copy c k (i + 1) table, .copied c)
              | .dequeue n _ _ =>
                  -- the caller's `obj_table` has room for `n`
                  if i < n.toNat then .ok (r, .copy c k (i + 1) (table ++ [slot]), .copied c)
                  else .error .outOfBounds
      | none =>
          -- the loops are done: `update_tail`
          if c.single ∨ (r.ht c.side).tail = k.oldHead then
            .ok (r, .storeTail c k table, .reached c)
          else .ok (r, .copy c k i table, .waited c)
  | .storeTail c k table =>
      .ok (r.setTail c.side (k.oldHead + k.n), .finish ⟨k.n, k.entries - k.n, table⟩,
        .storedTail c k.n)
  | .finish res => .ok (r, .idle, .returned res)

/-! ## The system -/

/-- A ring and the threads that use it. -/
structure State (τ α : Type) where
  ring : RteRing α
  pc : τ → Pc α

/-- A ring that nobody uses yet. -/
def State.start (r : RteRing α) : State τ α where
  ring := r
  pc := fun _ => .idle

/-- A thread calls, or goes on with its call. -/
inductive Event (τ α : Type) where
  | call (t : τ) (c : Call α)
  | go (t : τ)
deriving DecidableEq, Repr

def Event.thread : Event τ α → τ
  | .call t _ => t
  | .go t => t

variable [DecidableEq τ]

/-- `t` makes an access. -/
def State.put (s : State τ α) (t : τ) (p : RteRing α × Pc α × Act α) : State τ α × Act α :=
  (⟨p.1, Function.update s.pc t p.2.1⟩, p.2.2)

def step (s : State τ α) : Event τ α → Except Stop (State τ α × Act α)
  | .call t c =>
      match s.pc t with
      | .idle =>
          if c.Fits then .ok (s.put t (s.ring, .loadHead c, .called c)) else .error .refused
      | _ => .error .refused
  | .go t => (advance s.ring (s.pc t)).map (s.put t)

/-- The call that has read a head and not moved it yet, with what it read. -/
def Pc.reading? : Pc α → Option (Call α × BitVec 32)
  | .loadTail c oldHead => some (c, oldHead)
  | .moveHead c k => some (c, k.oldHead)
  | _ => none

/-- The call whose accesses to the ring a thread is making. -/
def Pc.call? : Pc α → Option (Call α)
  | .idle | .finish _ => none
  | .loadHead c | .loadTail c _ | .moveHead c _ | .copy c _ _ _ | .storeTail c _ _ => some c

/-- Callers keep to the contract of the single-producer and single-consumer
    functions. -/
def Exclusive (s : State τ α) : Event τ α → Prop
  | .call t c => ∀ u, u ≠ t → ∀ d ∈ (s.pc u).call?, c.Compatible d
  | .go _ => True

instance [Fintype τ] (s : State τ α) (e : Event τ α) : Decidable (Exclusive s e) :=
  match e with
  | .call _ _ => inferInstanceAs (Decidable (∀ _, _))
  | .go _ => inferInstanceAs (Decidable True)

/-- The histories of a ring. -/
abbrev History (τ α : Type) := List (Event τ α × Act α)

/-- A run of threads that keep to the contract, on the ring `r`. -/
abbrev RingRun (r : RteRing α) : History τ α → State τ α → Prop :=
  Run (Guarded Exclusive (StepsOf step)) (State.start r)

end LinuxLearning.Ring
