/-
  LinuxLearning.Ring.Positions

  The invariant of a ring in use.  Behind the 32-bit indexes stand positions
  that never wrap: the `q`-th object that any call took a place for has
  position `q`.  `positions` reads them off the history of a run.  Between a
  call's move of the head and its move of the tail the call holds a block of
  positions; the blocks of one side partition what lies between that side's
  tail and head, and the four marks keep their order

      tail cons ≤ head cons ≤ tail prod ≤ head prod ≤ tail cons + capacity.

  A compare-and-set cannot see that the head has gone once around all 2^32
  indexes since it was read.  `NotLapped` excludes this for a step.
-/

import LinuxLearning.Lib.Tickets
import LinuxLearning.Ring.Creation

namespace LinuxLearning.Ring

open Lib

variable {τ α : Type} [DecidableEq τ]

/-! ## Positions -/

/-- How far the two sides have come, and the objects in the order of their
    positions. -/
structure Marks (α : Type) where
  head : Side → Nat
  tail : Side → Nat
  puts : List α

/-- The marks, and for each thread the position of the head it last read. -/
structure Positions (τ α : Type) extends Marks α where
  seen : τ → Nat

/-- How far the head of a side may go. -/
def Marks.reach (m : Marks α) (cap : Nat) : Side → Nat
  | .prod => m.tail .cons + cap
  | .cons => m.tail .prod

namespace Positions

def start : Positions τ α where
  head := fun _ => 0
  tail := fun _ => 0
  puts := []
  seen := fun _ => 0

/-- After an access of thread `t`. -/
def after (p : Positions τ α) (t : τ) : Act α → Positions τ α
  | .readHead c => { p with seen := Function.update p.seen t (p.head c.side) }
  | .movedHead c n =>
      { p with
        head := Function.update p.head c.side (p.head c.side + n.toNat)
        puts := p.puts ++ c.objs.take n.toNat }
  | .storedTail c n =>
      { p with tail := Function.update p.tail c.side (p.tail c.side + n.toNat) }
  | _ => p

end Positions

/-- The positions at the end of a history. -/
def positions (hist : History τ α) : Positions τ α :=
  hist.foldl (fun p en => p.after en.1.thread en.2) .start

theorem positions_snoc (hist : History τ α) (en : Event τ α × Act α) :
    positions (hist ++ [en]) = (positions hist).after en.1.thread en.2 := by
  rw [positions, List.foldl_append]
  rfl

/-- The step does not come so late after the thread read the head that the
    32-bit indexes could have gone around. -/
def NotLapped (cap : Nat) (past : History τ α) (en : Event τ α × Act α) : Prop :=
  match en.2 with
  | .readTail c | .movedHead c _ =>
      (positions past).head c.side + cap < (positions past).seen en.1.thread + 2 ^ 32
  | _ => True

instance (cap : Nat) (past : History τ α) (en : Event τ α × Act α) :
    Decidable (NotLapped cap past en) := by
  unfold NotLapped
  split <;> infer_instance

/-! ## The moves of a thread -/

/-- All that an access can do. -/
inductive Move (r : RteRing α) : Pc α → RteRing α → Pc α → Act α → Prop
  | readHead {c : Call α} :
      Move r (.loadHead c) r (.loadTail c (r.ht c.side).head) (.readHead c)
  | nothing {c : Call α} {oldHead : BitVec 32} :
      grant c.behavior c.n (r.entries c.side oldHead) = 0 →
      Move r (.loadTail c oldHead) r (.finish ⟨0, r.entries c.side oldHead, []⟩) (.readTail c)
  | readTail {c : Call α} {oldHead n : BitVec 32} :
      n = grant c.behavior c.n (r.entries c.side oldHead) → n ≠ 0 →
      Move r (.loadTail c oldHead) r (.moveHead c ⟨oldHead, n, r.entries c.side oldHead⟩)
        (.readTail c)
  | moveHead {c : Call α} {l : Locals} :
      (c.single = true ∨ (r.ht c.side).head = l.oldHead) →
      Move r (.moveHead c l) (r.setHead c.side (l.oldHead + l.n)) (.copy c l 0 [])
        (.movedHead c l.n)
  | retry {c : Call α} {l : Locals} : c.single = false → (r.ht c.side).head ≠ l.oldHead →
      Move r (.moveHead c l) r (.loadHead c) (.retried c)
  | put {objTable : List α} {b : QueueBehavior} {sp : Bool} {l : Locals} {i idx : Nat}
      {table : List (Option α)} {obj : α} :
      (r.ptrIndexes l.oldHead l.n)[i]? = some idx → objTable[i]? = some obj →
      Move r (.copy (.enqueue objTable b sp) l i table) (r.setSlot idx obj)
        (.copy (.enqueue objTable b sp) l (i + 1) table) (.copied (.enqueue objTable b sp))
  | get {n : BitVec 32} {b : QueueBehavior} {sc : Bool} {l : Locals} {i idx : Nat}
      {table : List (Option α)} {slot : Option α} :
      (r.ptrIndexes l.oldHead l.n)[i]? = some idx → r.slots[idx]? = some slot →
      Move r (.copy (.dequeue n b sc) l i table) r
        (.copy (.dequeue n b sc) l (i + 1) (table ++ [slot])) (.copied (.dequeue n b sc))
  | wait {c : Call α} {l : Locals} {i : Nat} {table : List (Option α)} :
      (r.ptrIndexes l.oldHead l.n)[i]? = none → (r.ht c.side).tail ≠ l.oldHead →
      Move r (.copy c l i table) r (.copy c l i table) (.waited c)
  | reach {c : Call α} {l : Locals} {i : Nat} {table : List (Option α)} :
      (r.ptrIndexes l.oldHead l.n)[i]? = none →
      (c.single = true ∨ (r.ht c.side).tail = l.oldHead) →
      Move r (.copy c l i table) r (.storeTail c l table) (.reached c)
  | storeTail {c : Call α} {l : Locals} {table : List (Option α)} :
      Move r (.storeTail c l table) (r.setTail c.side (l.oldHead + l.n))
        (.finish ⟨l.n, l.entries - l.n, table⟩) (.storedTail c l.n)
  | finish {res : Result α} : Move r (.finish res) r .idle (.returned res)

theorem move_of_advance {r r' : RteRing α} {pc pc' : Pc α} {o : Act α}
    (h : advance r pc = .ok (r', pc', o)) : Move r pc r' pc' o := by
  cases pc with
  | idle => cases h
  | loadHead c =>
      cases h
      exact .readHead
  | loadTail c oldHead =>
      simp only [advance] at h
      split at h
      · rename_i hzero
        cases h
        rw [show r.entries c.side oldHead - 0 = r.entries c.side oldHead from BitVec.sub_zero _]
        exact .nothing hzero
      · rename_i hne
        cases h
        exact .readTail rfl hne
  | moveHead c l =>
      simp only [advance] at h
      split at h
      · rename_i hmove
        cases h
        exact .moveHead hmove
      · rename_i hmove
        rw [not_or, Bool.not_eq_true] at hmove
        cases h
        exact .retry hmove.1 hmove.2
  | copy c l i table =>
      simp only [advance] at h
      split at h
      · rename_i idx hidx
        split at h
        · cases h
        · rename_i slot hslot
          cases c with
          | enqueue objTable b sp =>
              simp only at h
              split at h
              · cases h
              · rename_i obj hobj
                cases h
                exact .put hidx hobj
          | dequeue n b sc =>
              simp only at h
              split at h
              · cases h
                exact .get hidx hslot
              · cases h
      · rename_i hdone
        split at h
        · rename_i hreach
          cases h
          exact .reach hdone hreach
        · rename_i hreach
          rw [not_or] at hreach
          cases h
          exact .wait hdone hreach.2
  | storeTail c l table =>
      cases h
      exact .storeTail
  | finish res =>
      cases h
      exact .finish

/-! ## What a call knows and holds -/

/-- The block of positions a call at `pc` holds, when it last read the head at
    position `a`. -/
def Pc.ticket (a : Nat) : Pc α → Side → Option Ticket
  | .copy c l _ _, sd | .storeTail c l _, sd => if c.side = sd then some (a, l.n.toNat) else none
  | _, _ => none

/-- The slots of the positions from `lo` up to `hi` hold their objects. -/
def Stored (k : Nat) (r : RteRing α) (puts : List α) (lo hi : Nat) : Prop :=
  ∀ q, lo ≤ q → q < hi → r.slots[q % 2 ^ k]? = some puts[q]?

/-- `oldHead` is the head at position `a`. -/
structure Loaded (m : Marks α) (a : Nat) (c : Call α) (oldHead : BitVec 32) : Prop where
  fits : c.Fits
  oldHead : oldHead = counter 32 a
  le : a ≤ m.head c.side
  single : c.single = true → a = m.head c.side

/-- The call holds the block of `l.n` positions from `a` on. -/
structure Claimed (cap : Nat) (m : Marks α) (a : Nat) (c : Call α) (l : Locals) : Prop where
  fits : c.Fits
  oldHead : l.oldHead = counter 32 a
  granted : l.n = grant c.behavior c.n l.entries
  nonzero : l.n ≠ 0
  room : a + l.entries.toNat ≤ m.reach cap c.side
  objs : c.side = .prod → ∀ i, i < l.n.toNat → m.puts[a + i]? = c.objs[i]?

/-- The first `i` copies are made. -/
def Copied (k : Nat) (m : Marks α) (r : RteRing α) (a : Nat) (i : Nat)
    (table : List (Option α)) : Call α → Prop
  | .enqueue _ _ _ => table = [] ∧ Stored k r m.puts a (a + i)
  | .dequeue _ _ _ => table = ((m.puts.drop a).take i).map some

/-- What holds of a thread at `pc`. -/
def PcOk (k cap : Nat) (m : Marks α) (r : RteRing α) (a : Nat) : Pc α → Prop
  | .idle => True
  | .loadHead c => c.Fits
  | .loadTail c oldHead => Loaded m a c oldHead
  | .moveHead c l => Loaded m a c l.oldHead ∧ l.n = grant c.behavior c.n l.entries ∧ l.n ≠ 0 ∧
      (a = m.head c.side → a + l.entries.toNat ≤ m.reach cap c.side)
  | .copy c l i table => Claimed cap m a c l ∧ i ≤ l.n.toNat ∧ Copied k m r a i table c
  | .storeTail c l table => Claimed cap m a c l ∧ m.tail c.side = a ∧
      Copied k m r a l.n.toNat table c
  | .finish _ => True

/-- The invariant. -/
structure Inv (k cap : Nat) (p : Positions τ α) (s : State τ α) : Prop where
  sound : s.ring.Sound k
  capacity : s.ring.capacity.toNat = cap
  head : ∀ sd, (s.ring.ht sd).head = counter 32 (p.head sd)
  tail : ∀ sd, (s.ring.ht sd).tail = counter 32 (p.tail sd)
  room : ∀ sd, p.head sd ≤ p.reach cap sd
  puts : p.puts.length = p.head .prod
  tickets : ∀ sd, Tickets (p.tail sd) (p.head sd) fun t => (s.pc t).ticket (p.seen t) sd
  published : Stored k s.ring p.puts (p.tail .cons) (p.tail .prod)
  thread : ∀ t, PcOk k cap p.toMarks s.ring (p.seen t) (s.pc t)
  alone : ∀ t u, t ≠ u → ∀ c ∈ (s.pc t).call?, ∀ d ∈ (s.pc u).call?, c.Compatible d

end LinuxLearning.Ring
