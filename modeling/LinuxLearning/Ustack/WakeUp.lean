/-
  LinuxLearning.Ustack.WakeUp

  The packet threads and a receiver around a socket's `rcvbuf`, `mutex` and
  `cond`, one machine step at a time.

  A packet thread that runs `ng_tcp_enqueue_recvbuffer` or `udp_process`
  inserts on the ring before it takes the mutex; the receiver in `nrecv` or
  `nrecvfrom` looks at the ring under the mutex.  The wake-up is not lost:
  whenever the receiver sleeps although the ring has something on it, a packet
  thread still has its signal to give.
-/

import LinuxLearning.Lib.Monitor
import LinuxLearning.Lib.Transition
import LinuxLearning.Ustack.SocketApi

namespace LinuxLearning.Ustack

open Lib

variable {ι α : Type}

/-! ## The threads -/

/-- Where a packet thread is; `stored` is what `rte_ring_mp_enqueue` came to. -/
inductive ProducerPc where
  /-- Not in the modelled lines. -/
  | away
  /-- Behind `rte_ring_mp_enqueue`, at `pthread_mutex_lock`. -/
  | lock (stored : Bool)
  /-- At `pthread_cond_signal`. -/
  | signal (stored : Bool)
  /-- At `pthread_mutex_unlock`. -/
  | unlock
deriving DecidableEq, Repr

/-- Where the receiving thread is. -/
inductive ConsumerPc (α : Type) where
  /-- At `pthread_mutex_lock`, or not in the call. -/
  | away
  /-- At the `rte_ring_mc_dequeue` of the loop's condition. -/
  | dequeue
  /-- The ring was empty: at `pthread_cond_wait`. -/
  | wait
  /-- In `pthread_cond_wait`, the mutex released. -/
  | waiting
  /-- Woken, and still in `pthread_cond_wait` until it has the mutex again. -/
  | woken
  /-- At `pthread_mutex_unlock`, with what it took from the ring. -/
  | unlock (x : α)
  /-- Behind `pthread_mutex_unlock`. -/
  | copy (x : α)
deriving DecidableEq, Repr

def ProducerPc.stance : ProducerPc → Stance
  | .away | .lock _ => .outside
  | .signal _ | .unlock => .inside

def ConsumerPc.stance : ConsumerPc α → Stance
  | .away | .woken | .copy _ => .outside
  | .dequeue | .wait | .unlock _ => .inside
  | .waiting => .asleep

/-- Between a successful insertion and its signal. -/
def ProducerPc.OwesSignal (pc : ProducerPc) : Prop := pc = .lock true ∨ pc = .signal true

/-- The threads of one socket: the packet threads and the receiver. -/
inductive RecvThread (ι : Type) where
  | consumer
  | producer (p : ι)
deriving DecidableEq, Repr

/-- A socket's receive buffer with the threads around it. -/
structure RecvState (ι α : Type) where
  rcvbuf : RteRing α
  mutex : Option (RecvThread ι)
  consumer : ConsumerPc α
  producer : ι → ProducerPc

def RecvState.stance (s : RecvState ι α) : RecvThread ι → Stance
  | .consumer => s.consumer.stance
  | .producer p => (s.producer p).stance

/-- No thread is in the modelled lines. -/
structure RecvState.AtRest (s : RecvState ι α) : Prop where
  mutex : s.mutex = none
  consumer : s.consumer = .away
  producer : ∀ p, s.producer p = .away

/-! ## Their steps -/

/-- A step of one of the threads, or of the kernel for `wakeUp`. -/
inductive RecvMove (ι α : Type) where
  /-- `rte_ring_mp_enqueue(rcvbuf, x)` in a packet thread. -/
  | insert (p : ι) (x : α)
  | producerLock (p : ι)
  | signal (p : ι)
  | producerUnlock (p : ι)
  | consumerLock
  | dequeue
  | wait
  /-- A wake-up without a signal. -/
  | wakeUp
  /-- The return from `pthread_cond_wait`, with the mutex. -/
  | relock
  | consumerUnlock
  /-- The rest of the call; it puts back what did not fit the caller's
      buffer. -/
  | finish (rest : Option α)
deriving DecidableEq, Repr

/-- `pthread_cond_signal` to the one thread that can wait. -/
def ConsumerPc.signalled : ConsumerPc α → ConsumerPc α
  | .waiting => .woken
  | pc => pc

variable [DecidableEq ι]

/-- The producer `p` moves on to `pc`. -/
def producerMove (s : RecvState ι α) (p : ι) (pc : ProducerPc) : RecvState ι α :=
  { s with producer := Function.update s.producer p pc }

/-- One step of one thread, if the thread is at that place. -/
def recvStep (s : RecvState ι α) : RecvMove ι α → Option (RecvState ι α)
  | .insert p x =>
      match s.producer p with
      | .away => some (producerMove { s with rcvbuf := (s.rcvbuf.mpEnqueue x).1 } p
          (.lock (s.rcvbuf.mpEnqueue x).2))
      | _ => none
  | .producerLock p =>
      match s.producer p, s.mutex with
      | .lock stored, none =>
          some (producerMove { s with mutex := some (.producer p) } p (.signal stored))
      | _, _ => none
  -- given whether or not the insertion succeeded
  | .signal p =>
      match s.producer p with
      | .signal _ => some (producerMove { s with consumer := s.consumer.signalled } p .unlock)
      | _ => none
  | .producerUnlock p =>
      match s.producer p with
      | .unlock => some (producerMove { s with mutex := none } p .away)
      | _ => none
  | .consumerLock =>
      match s.consumer, s.mutex with
      | .away, none => some { s with mutex := some .consumer, consumer := .dequeue }
      | _, _ => none
  | .dequeue =>
      match s.consumer with
      | .dequeue =>
          match s.rcvbuf.mcDequeue with
          | none => some { s with consumer := .wait }
          | some (x, r) => some { s with rcvbuf := r, consumer := .unlock x }
      | _ => none
  | .wait =>
      match s.consumer with
      | .wait => some { s with mutex := none, consumer := .waiting }
      | _ => none
  | .wakeUp =>
      match s.consumer with
      | .waiting => some { s with consumer := .woken }
      | _ => none
  | .relock =>
      match s.consumer, s.mutex with
      | .woken, none => some { s with mutex := some .consumer, consumer := .dequeue }
      | _, _ => none
  | .consumerUnlock =>
      match s.consumer with
      | .unlock x => some { s with mutex := none, consumer := .copy x }
      | _ => none
  | .finish rest =>
      match s.consumer with
      | .copy _ =>
          match rest with
          | none => some { s with consumer := .away }
          -- put back without a signal, by the thread that would wait for one
          | some y => some { s with rcvbuf := (s.rcvbuf.mpEnqueue y).1, consumer := .away }
      | _ => none

/-! ## The invariant -/

/-- The receiver is about to wait, or waits. -/
def ConsumerPc.Waits (pc : ConsumerPc α) : Prop := pc = .wait ∨ pc = .waiting

/-- The mutex is held as the program says, and the receiver waits on a ring
    with something on it only as long as a signal is owed. -/
structure RecvInv (s : RecvState ι α) : Prop where
  guards : Guards s.mutex s.stance
  owed : s.consumer.Waits → s.rcvbuf.items ≠ [] → ∃ p, (s.producer p).OwesSignal

variable {s s' : RecvState ι α} {p q : ι}

omit [DecidableEq ι] in
/-- It holds before any thread has started. -/
theorem recvInv_of_atRest (h : s.AtRest) : RecvInv s where
  guards := by
    rintro (_ | p)
    · simp [RecvState.stance, h.consumer, h.mutex, ConsumerPc.stance]
    · simp [RecvState.stance, h.producer p, h.mutex, ProducerPc.stance]
  owed := by
    rw [h.consumer]
    rintro (h | h) <;> cases h

@[simp] theorem producerMove_self (s : RecvState ι α) (p : ι) (pc : ProducerPc) :
    (producerMove s p pc).producer p = pc := Function.update_self ..

theorem producerMove_of_ne (s : RecvState ι α) (pc : ProducerPc) (h : q ≠ p) :
    (producerMove s p pc).producer q = s.producer q := Function.update_of_ne h ..

/-- Where the threads are after a producer's move. -/
theorem stance_producerMove (s : RecvState ι α) (p : ι) (pc : ProducerPc) (t : RecvThread ι) :
    (producerMove s p pc).stance t = if t = .producer p then pc.stance else s.stance t := by
  cases t with
  | consumer => rfl
  | producer q =>
      by_cases h : q = p
      · subst h
        simp [RecvState.stance]
      · simp [RecvState.stance, producerMove_of_ne s pc h, h]

/-- A producer that owes a signal still does after another one's move. -/
theorem owesSignal_producerMove {pc : ProducerPc} (hp : ¬ (s.producer p).OwesSignal)
    (h : ∃ q, (s.producer q).OwesSignal) :
    ∃ q, ((producerMove s p pc).producer q).OwesSignal := by
  obtain ⟨q, hq⟩ := h
  have hne : q ≠ p := by
    rintro rfl
    exact hp hq
  exact ⟨q, by rw [producerMove_of_ne s pc hne]; exact hq⟩

/-- A producer that still owes after its move keeps the promise. -/
theorem owesSignal_of_move {pc : ProducerPc} (hpc : (s.producer p).OwesSignal → pc.OwesSignal)
    (h : ∃ q, (s.producer q).OwesSignal) :
    ∃ q, ((producerMove s p pc).producer q).OwesSignal := by
  by_cases hp : (s.producer p).OwesSignal
  · exact ⟨p, by rw [producerMove_self]; exact hpc hp⟩
  · exact owesSignal_producerMove hp h

/-- A producer's move that neither takes nor gives back the mutex. -/
theorem guards_producerMove {pc : ProducerPc} {owner : Option (RecvThread ι)}
    (h : Guards owner s.stance) (hpc : pc.stance = (s.producer p).stance) :
    Guards owner (producerMove s p pc).stance := by
  refine h.keep fun t => ?_
  rw [stance_producerMove]
  split
  · rename_i ht
    rw [ht, hpc]
    rfl
  · rfl

omit [DecidableEq ι] in
/-- A receiver's move that neither takes nor gives back the mutex. -/
theorem guards_consumer (h : Guards s.mutex s.stance) (hmutex : s'.mutex = s.mutex)
    (hproducer : s'.producer = s.producer) (hpc : s'.consumer.stance = s.consumer.stance) :
    Guards s'.mutex s'.stance := by
  rw [hmutex]
  refine h.keep fun t => ?_
  cases t with
  | consumer => simp only [RecvState.stance, hpc]
  | producer q => simp only [RecvState.stance, hproducer]

omit [DecidableEq ι] in
/-- The receiver takes the free mutex. -/
theorem guards_consumer_lock (h : Guards none s.stance) (hmutex : s'.mutex = some .consumer)
    (hproducer : s'.producer = s.producer) (hpc : s'.consumer.stance = .inside) :
    Guards s'.mutex s'.stance := by
  rw [hmutex]
  refine h.acquire hpc fun t ht => ?_
  cases t with
  | consumer => exact absurd rfl ht
  | producer q => simp only [RecvState.stance, hproducer]

omit [DecidableEq ι] in
/-- The receiver gives the mutex up. -/
theorem guards_consumer_leave (h : Guards s.mutex s.stance) (hin : s.consumer.stance = .inside)
    (hmutex : s'.mutex = none) (hproducer : s'.producer = s.producer)
    (hpc : s'.consumer.stance ≠ .inside) : Guards s'.mutex s'.stance := by
  rw [hmutex]
  refine h.leave (show s.stance .consumer = .inside from hin) hpc fun t ht => ?_
  cases t with
  | consumer => exact absurd rfl ht
  | producer q => simp only [RecvState.stance, hproducer]

@[simp] theorem stance_signalled (pc : ConsumerPc α) :
    pc.signalled.stance = .inside ↔ pc.stance = .inside := by
  cases pc <;> simp [ConsumerPc.signalled, ConsumerPc.stance]

omit [DecidableEq ι] in
/-- Nothing is owed to a receiver that does not wait. -/
theorem RecvInv.of_not_waits (h : Guards s.mutex s.stance) (hc : ¬ s.consumer.Waits) :
    RecvInv s where
  guards := h
  owed := fun hwaits => absurd hwaits hc

/-- An insertion on the ring is followed by a signal. -/
theorem recvInv_insert {x : α} (h : RecvInv s) (hp : s.producer p = .away) :
    RecvInv (producerMove { s with rcvbuf := (s.rcvbuf.mpEnqueue x).1 } p
      (.lock (s.rcvbuf.mpEnqueue x).2)) where
  guards := guards_producerMove (s := { s with rcvbuf := _ }) h.guards (by rw [hp]; rfl)
  owed := by
    intro hwaits hitems
    by_cases hroom : s.rcvbuf.HasRoom
    · refine ⟨p, ?_⟩
      rw [producerMove_self, (RteRing.mpEnqueue_of_hasRoom hroom).2]
      exact .inl rfl
    · rw [RteRing.mpEnqueue_of_full hroom] at hitems ⊢
      refine owesSignal_producerMove ?_ (h.owed hwaits hitems)
      rw [hp]
      rintro (h | h) <;> cases h

/-- A signal is given under the mutex, so the receiver is not between its look
    at the ring and its wait; if it waits already, it is woken. -/
theorem recvInv_signal {stored : Bool} (h : RecvInv s) (hp : s.producer p = .signal stored) :
    RecvInv (producerMove { s with consumer := s.consumer.signalled } p .unlock) := by
  have hin : s.stance (.producer p) = .inside := by
    rw [RecvState.stance, hp]
    rfl
  apply RecvInv.of_not_waits
  · refine guards_producerMove (s := { s with consumer := _ }) (h.guards.keep fun t => ?_)
      (by rw [hp]; rfl)
    cases t with
    | consumer => exact stance_signalled s.consumer
    | producer q => rfl
  · show ¬ s.consumer.signalled.Waits
    cases hc : s.consumer with
    | wait =>
        have hcin : s.stance .consumer = .inside := by
          rw [RecvState.stance, hc]
          rfl
        cases h.guards.unique hin hcin
    | _ => rintro (h | h) <;> cases h

/-- A packet thread takes the free mutex; what it owes it still owes. -/
theorem recvInv_producerLock {stored : Bool} (h : RecvInv s) (hp : s.producer p = .lock stored)
    (hmutex : s.mutex = none) :
    RecvInv (producerMove { s with mutex := some (.producer p) } p (.signal stored)) := by
  refine ⟨?_, fun hwaits hitems => owesSignal_of_move ?_ (h.owed hwaits hitems)⟩
  · have hfree := h.guards
    rw [hmutex] at hfree
    refine hfree.acquire (t := .producer p) ?_ fun t ht => ?_
    · rw [stance_producerMove, if_pos rfl]
      rfl
    · rw [stance_producerMove, if_neg ht]
      rfl
  · rw [hp]
    rintro (h | h) <;> cases h
    exact .inr rfl

/-- A packet thread gives the mutex back, with nothing owed. -/
theorem recvInv_producerUnlock (h : RecvInv s) (hp : s.producer p = .unlock) :
    RecvInv (producerMove { s with mutex := none } p .away) := by
  refine ⟨?_, fun hwaits hitems => owesSignal_of_move ?_ (h.owed hwaits hitems)⟩
  · refine h.guards.leave (t := .producer p) ?_ ?_ fun t ht => ?_
    · simp only [RecvState.stance, hp, ProducerPc.stance]
    · rw [stance_producerMove, if_pos rfl]
      decide
    · rw [stance_producerMove, if_neg ht]
      rfl
  · rw [hp]
    rintro (h | h) <;> cases h

omit [DecidableEq ι] in
/-- The receiver takes the free mutex, at the start of the call or behind its
    wait, and looks at the ring next. -/
theorem recvInv_consumerLock (h : RecvInv s) (hmutex : s.mutex = none) :
    RecvInv { s with mutex := some .consumer, consumer := .dequeue } := by
  have hfree := h.guards
  rw [hmutex] at hfree
  exact .of_not_waits (guards_consumer_lock hfree rfl rfl rfl) (by rintro (h | h) <;> cases h)

omit [DecidableEq ι] in
/-- The receiver is woken, for whatever reason. -/
theorem recvInv_wakeUp (h : RecvInv s) (hc : s.consumer = .waiting) :
    RecvInv { s with consumer := .woken } := by
  refine .of_not_waits (h.guards.keep fun t => ?_) (by rintro (h | h) <;> cases h)
  cases t with
  | consumer => simp [RecvState.stance, hc, ConsumerPc.stance]
  | producer q => rfl

/-- Every step keeps the invariant. -/
theorem recvStep_inv {e : RecvMove ι α} (h : RecvInv s) (hstep : recvStep s e = some s') :
    RecvInv s' := by
  cases e with
  | insert p x =>
      simp only [recvStep] at hstep
      split at hstep
      · rename_i hp
        cases hstep
        exact recvInv_insert h hp
      · cases hstep
  | producerLock p =>
      simp only [recvStep] at hstep
      split at hstep
      · rename_i stored hp hmutex
        cases hstep
        exact recvInv_producerLock h hp hmutex
      · cases hstep
  | signal p =>
      simp only [recvStep] at hstep
      split at hstep
      · rename_i stored hp
        cases hstep
        exact recvInv_signal h hp
      · cases hstep
  | producerUnlock p =>
      simp only [recvStep] at hstep
      split at hstep
      · rename_i hp
        cases hstep
        exact recvInv_producerUnlock h hp
      · cases hstep
  | consumerLock =>
      simp only [recvStep] at hstep
      split at hstep
      · rename_i hc hmutex
        cases hstep
        exact recvInv_consumerLock h hmutex
      · cases hstep
  | dequeue =>
      simp only [recvStep] at hstep
      split at hstep
      · rename_i hc
        split at hstep
        · rename_i hempty
          cases hstep
          refine ⟨guards_consumer h.guards rfl rfl (by rw [hc]; rfl), fun _ hitems => ?_⟩
          exact absurd (RteRing.mcDequeue_eq_none_iff.mp hempty) hitems
        · cases hstep
          exact .of_not_waits (guards_consumer h.guards rfl rfl (by rw [hc]; rfl))
            (by rintro (h | h) <;> cases h)
      · cases hstep
  | wait =>
      simp only [recvStep] at hstep
      split at hstep
      · rename_i hc
        cases hstep
        -- what was owed when the ring was found empty is owed still
        refine ⟨guards_consumer_leave h.guards (by rw [hc]; rfl) rfl rfl
          (by simp [ConsumerPc.stance]), fun _ hitems => h.owed (.inl hc) hitems⟩
      · cases hstep
  | wakeUp =>
      simp only [recvStep] at hstep
      split at hstep
      · rename_i hc
        cases hstep
        exact recvInv_wakeUp h hc
      · cases hstep
  | relock =>
      simp only [recvStep] at hstep
      split at hstep
      · rename_i hc hmutex
        cases hstep
        exact recvInv_consumerLock h hmutex
      · cases hstep
  | consumerUnlock =>
      simp only [recvStep] at hstep
      split at hstep
      · rename_i x hc
        cases hstep
        exact .of_not_waits (guards_consumer_leave h.guards (by rw [hc]; rfl) rfl rfl
          (by simp [ConsumerPc.stance])) (by rintro (h | h) <;> cases h)
      · cases hstep
  | finish rest =>
      simp only [recvStep] at hstep
      split at hstep
      · rename_i x hc
        split at hstep <;> cases hstep <;>
          exact .of_not_waits (guards_consumer h.guards rfl rfl (by rw [hc]; rfl))
            (by rintro (h | h) <;> cases h)
      · cases hstep

/-- The invariant holds in every run from a socket at rest. -/
theorem recvInv_of_run {s₀ : RecvState ι α} {hist : List (RecvMove ι α × Unit)}
    (h₀ : s₀.AtRest) (hrun : Run (MovesOf recvStep) s₀ hist s) : RecvInv s :=
  hrun.invariant (P := fun _ s => RecvInv s) (recvInv_of_atRest h₀)
    fun _ _ _ _ _ hinv hstep => recvStep_inv hinv hstep

/-! ## No lost wake-up -/

/-- In no reachable state does the receiver wait, with something on the ring
    and no packet thread between its successful insertion and its signal. -/
theorem no_lost_wake_up {s₀ : RecvState ι α} {hist : List (RecvMove ι α × Unit)}
    (h₀ : s₀.AtRest) (hrun : Run (MovesOf recvStep) s₀ hist s) :
    ¬ (s.consumer = .waiting ∧ s.rcvbuf.items ≠ [] ∧ ∀ p, ¬ (s.producer p).OwesSignal) := by
  rintro ⟨hwaiting, hitems, hnone⟩
  obtain ⟨p, hp⟩ := (recvInv_of_run h₀ hrun).owed (.inr hwaiting) hitems
  exact hnone p hp

/-- A socket without threads in its lines and with nothing received. -/
def RecvState.start (name : RingName) : RecvState ι α where
  rcvbuf := .init name
  mutex := none
  consumer := .away
  producer := fun _ => .away

omit [DecidableEq ι] in
theorem atRest_start (name : RingName) : (RecvState.start name : RecvState ι α).AtRest :=
  ⟨rfl, rfl, fun _ => rfl⟩

/-- The receiver falls asleep on an empty ring; something is inserted, and its
    signal is still to come. -/
theorem no_lost_wake_up_asleep : ∃ s : RecvState Unit Nat,
    (s.consumer = .waiting ∧ s.rcvbuf.items ≠ []) ∧
    ¬ (s.consumer = .waiting ∧ s.rcvbuf.items ≠ [] ∧ ∀ p, ¬ (s.producer p).OwesSignal) := by
  obtain ⟨s, hrun, hs⟩ := run_of_movesTo (f := recvStep (ι := Unit))
    (s := .start ['r']) (l := [.consumerLock, .dequeue, .wait, .insert () 7])
    (P := fun s => decide (s.consumer = .waiting ∧ s.rcvbuf.items ≠ [])) (by decide)
  exact ⟨s, of_decide_eq_true hs, no_lost_wake_up (atRest_start ['r']) hrun⟩

/-! ## Undisturbed calls

What one call comes to when no other thread moves in between is what the
model of the whole stack takes it to do in one step. -/

/-- The packet thread's insertion, from `rte_ring_mp_enqueue` to
    `pthread_mutex_unlock`. -/
theorem moves_insert {x : α} (h : s.AtRest) (p : ι) :
    moves recvStep s [.insert p x, .producerLock p, .signal p, .producerUnlock p] =
      some { s with rcvbuf := (s.rcvbuf.mpEnqueue x).1 } := by
  have hpc := h.producer p
  have hback : Function.update s.producer p .away = s.producer := by
    rw [← hpc]
    exact Function.update_eq_self p s.producer
  simp only [moves, recvStep, hpc, Option.bind_some, producerMove, h.mutex, h.consumer,
    Function.update_self, Function.update_idem, ConsumerPc.signalled, hback]

/-- A call that finds `x` on the ring and puts back `rest`. -/
theorem moves_receive {x : α} {r : RteRing α} (h : s.AtRest)
    (hdeq : s.rcvbuf.mcDequeue = some (x, r)) (rest : Option α) :
    moves recvStep s [.consumerLock, .dequeue, .consumerUnlock, .finish rest] =
      some { s with rcvbuf := rest.elim r fun y => (r.mpEnqueue y).1 } := by
  simp only [moves, recvStep, h.consumer, h.mutex, hdeq, Option.bind_some]
  cases rest <;> rfl

/-- `nrecv` on a ring with something on it. -/
theorem moves_of_nrecvStream {stream stream' : NgTcpStream} {len : Nat} {ops : List StreamOp}
    {buf : List Byte} {ret : Int} {s : RecvState ι NgTcpFragment} (h : s.AtRest)
    (hbuf : stream.rcvbuf = some s.rcvbuf)
    (hcall : nrecvStream stream len = .ok (stream', ops, buf, ret)) :
    ∃ rest r, stream'.rcvbuf = some r ∧
      moves recvStep s [.consumerLock, .dequeue, .consumerUnlock, .finish rest] =
        some { s with rcvbuf := r } := by
  simp only [nrecvStream, hbuf] at hcall
  cases hdeq : s.rcvbuf.mcDequeue with
  | none => simp [hdeq] at hcall
  | some found =>
      obtain ⟨fragment, r⟩ := found
      simp only [hdeq] at hcall
      split at hcall
      · split at hcall
        · cases hcall
        · rename_i data hdata
          cases hcall
          exact ⟨some (fragment.shift data len), _, rfl, moves_receive h hdeq _⟩
      · split at hcall
        · cases hcall
          exact ⟨none, _, rfl, moves_receive h hdeq _⟩
        · split at hcall
          · cases hcall
          · cases hcall
            exact ⟨none, _, rfl, moves_receive h hdeq _⟩

end LinuxLearning.Ustack
