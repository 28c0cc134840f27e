/-
  LinuxLearning.Ring.Linearizable

  A ring is a queue.  Whatever the threads do and however their accesses
  interleave, the calls and answers of a run are those of a first-in first-out
  queue of bounded capacity on which every call takes effect at one moment
  between its start and its return: an enqueue when it moves the producer
  tail, a dequeue when it moves the consumer head, and a call that gets
  nothing when it reads the other side's tail.

  A call that gets nothing is right about that.  For an enqueue, the places
  that are not free may include those that other calls have under way.
-/

import Mathlib.Algebra.Order.BigOperators.Group.Finset
import LinuxLearning.Lib.Linearizability
import LinuxLearning.Ring.Invariant

namespace LinuxLearning.Ring

open Lib

variable {τ α : Type} {k cap a : Nat} {r r' : RteRing α} {m m' : Marks α} {pc pc' : Pc α}
  {c : Call α} {l : Locals} {sd : Side}

/-! ## The queue -/

/-- The places a call may be keeping from others. -/
def placesOf : Status (Call α) (Result α) → Nat
  | .idle => 0
  | .called c => c.objs.length
  | .answered r => r.objs.length

/-- The places that the calls of the other threads may be keeping. -/
def inFlight [Fintype τ] [DecidableEq τ] (status : τ → Status (Call α) (Result α)) (t : τ) : Nat :=
  ∑ u ∈ Finset.univ.erase t, placesOf (status u)

/-- A first-in first-out queue of capacity `cap`.  A call goes on with what
    `grant` allows for the number `n + rest` of places or objects it found.
    If that is something, it found no more than there are.  If it is nothing,
    an enqueue found at least the places that the objects there and the calls
    under way leave, and a dequeue at least the objects there: an enqueue may
    fail for places that another call keeps until it returns. -/
def queueSpec [Fintype τ] [DecidableEq τ] (cap : Nat) : Spec (List α) τ (Call α) (Result α) :=
  fun status items t c r items' =>
    r.n = grant c.behavior c.n (r.n + r.rest) ∧
    match c with
    | .enqueue objTable _ _ => r.objs = [] ∧ items' = items ++ objTable.take r.n.toNat ∧
        if r.n = 0 then cap ≤ items.length + inFlight status t + r.rest.toNat
        else items'.length + r.rest.toNat ≤ cap
    | .dequeue _ _ _ => r.objs = (items.take r.n.toNat).map some ∧ items' = items.drop r.n.toNat ∧
        if r.n = 0 then items.length ≤ r.rest.toNat
        else r.n.toNat + r.rest.toNat ≤ items.length

/-- What a caller sees. -/
def visible : Event τ α × Act α → Option (External τ (Call α) (Result α))
  | (.call t c, _) => some (t, .inl c)
  | (.go t, .returned r) => some (t, .inr r)
  | (.go _, _) => none

/-! ## The view of a ring as a queue -/

/-- The objects that are published and not claimed. -/
def Marks.items (m : Marks α) : List α := (m.puts.take (m.tail .prod)).drop (m.head .cons)

/-- Where a call is that has taken the block of `l.n` positions from `a` on. -/
def claimStatus (m : Marks α) (a : Nat) (l : Locals) (c : Call α) : Status (Call α) (Result α) :=
  match c with
  | .enqueue _ _ _ => .called c
  | .dequeue _ _ _ =>
      .answered ⟨l.n, l.entries - l.n, ((m.puts.drop a).take l.n.toNat).map some⟩

/-- Where a thread is with its call, when it last read the head at `a`. -/
def Pc.status (m : Marks α) (a : Nat) : Pc α → Status (Call α) (Result α)
  | .idle => .idle
  | .loadHead c | .loadTail c _ | .moveHead c _ => .called c
  | .copy c l _ _ | .storeTail c l _ => claimStatus m a l c
  | .finish r => .answered r

/-- The ring as an atomic object. -/
def view (p : Positions τ α) (s : State τ α) : Atomic (List α) τ (Call α) (Result α) where
  value := p.items
  status := fun t => (s.pc t).status p.toMarks (p.seen t)

/-- The objects of a block stay where they are while objects are only added. -/
theorem status_congr (hputs : ∀ sd n q, pc.ticket a sd = some (a, n) → q < a + n →
    m'.puts[q]? = m.puts[q]?) : pc.status m' a = pc.status m a := by
  cases pc with
  | copy c l i table | storeTail c l table =>
      cases c with
      | enqueue objTable b sp => rfl
      | dequeue n b sc =>
          have heq : (m'.puts.drop a).take l.n.toNat = (m.puts.drop a).take l.n.toNat := by
            apply List.ext_getElem?
            intro j
            rw [List.getElem?_take, List.getElem?_take]
            split
            · rw [List.getElem?_drop, List.getElem?_drop, hputs .cons l.n.toNat _ rfl (by omega)]
            · rfl
          simp only [Pc.status, claimStatus, heq]
  | idle | loadHead c | loadTail c oldHead | moveHead c l | finish res => rfl

namespace Inv

variable {p : Positions τ α} {s : State τ α} {t u : τ}

theorem length_items (h : Inv k cap p s) :
    p.items.length = p.tail .prod - p.head .cons := by
  obtain ⟨h₁, h₂, h₃, h₄⟩ := h.order
  have hputs := h.puts
  rw [Marks.items, List.length_drop, List.length_take]
  omega

/-- A call keeps at most the places of its own objects. -/
theorem width_le (h : Inv k cap p s) (t : τ) :
    Tickets.width ((s.pc t).ticket (p.seen t) .prod) +
      Tickets.width ((s.pc t).ticket (p.seen t) .cons) ≤
        placesOf ((s.pc t).status p.toMarks (p.seen t)) := by
  have hok := h.thread t
  have hle : ∀ sd n, (s.pc t).ticket (p.seen t) sd = some (p.seen t, n) →
      p.seen t + n ≤ p.puts.length := fun sd n => h.ticket_le
  generalize s.pc t = pc at hok hle
  -- a block of positions, on whichever side
  have hholds : ∀ {c : Call α} {l : Locals}, Claimed cap p.toMarks (p.seen t) c l →
      p.seen t + l.n.toNat ≤ p.puts.length →
      Tickets.width (if c.side = .prod then some (p.seen t, l.n.toNat) else none) +
        Tickets.width (if c.side = .cons then some (p.seen t, l.n.toNat) else none) ≤
          placesOf (claimStatus p.toMarks (p.seen t) l c) := by
    intro c l hcl hlen
    cases c with
    | enqueue objTable b sp =>
        have hn := hcl.n_le.1
        rw [Call.n_of_fits hcl.fits rfl] at hn
        exact hn
    | dequeue n b sc =>
        change 0 + l.n.toNat ≤ (((p.puts.drop (p.seen t)).take l.n.toNat).map some).length
        rw [List.length_map, List.length_take, List.length_drop]
        omega
  cases pc with
  | copy c l i table => exact hholds hok.1 (hle _ _ (ticket_copy ..))
  | storeTail c l table => exact hholds hok.1 (hle _ _ (ticket_storeTail ..))
  | idle | loadHead c | loadTail c oldHead | moveHead c l | finish res => exact Nat.zero_le _

/-- What is not free is in the queue or kept by the other calls. -/
theorem occupied_le [Fintype τ] [DecidableEq τ] (h : Inv k cap p s)
    (ht : ∀ sd, (s.pc t).ticket (p.seen t) sd = none) :
    p.head .prod - p.tail .cons ≤ p.items.length + inFlight (view p s).status t := by
  obtain ⟨h₁, h₂, h₃, h₄⟩ := h.order
  have hsum : (p.head .prod - p.tail .prod) + (p.head .cons - p.tail .cons) ≤
      inFlight (view p s).status t := by
    rw [← (h.tickets .prod).sum_width, ← (h.tickets .cons).sum_width, ← Finset.sum_add_distrib,
      ← Finset.add_sum_erase Finset.univ _ (Finset.mem_univ t), ht .prod, ht .cons]
    simp only [Tickets.width_none, Nat.zero_add]
    exact Finset.sum_le_sum fun u _ => h.width_le u
  rw [h.length_items]
  omega

/-- Nothing but the moving thread's status, and perhaps the value, changes in
    the view. -/
theorem view_after [DecidableEq τ] (h : Inv k cap p s) {p' : Positions τ α} {pc' : Pc α}
    {r' : RteRing α} (hputs : ∀ q, q < p.puts.length → p'.puts[q]? = p.puts[q]?)
    (hseen : ∀ u, u ≠ t → p'.seen u = p.seen u) :
    view p' ⟨r', Function.update s.pc t pc'⟩ =
      ⟨p'.items, Function.update (view p s).status t (pc'.status p'.toMarks (p'.seen t))⟩ := by
  apply Atomic.ext
  · rfl
  · funext u
    by_cases hu : u = t
    · subst hu
      simp [view]
    · simp only [view, Function.update_of_ne hu, hseen u hu]
      exact status_congr fun sd n q ht hq => hputs q (Nat.lt_of_lt_of_le hq (h.ticket_le ht))

end Inv

/-! ## The moments at which calls take effect -/

theorem add_sub_cancel_bits (n e : BitVec 32) : n + (e - n) = e := by
  rw [BitVec.add_comm, BitVec.sub_add_cancel]

theorem toNat_sub_bits {n e : BitVec 32} (h : n.toNat ≤ e.toNat) :
    (e - n).toNat = e.toNat - n.toNat :=
  BitVec.toNat_sub_of_le h

section Effects

variable [Fintype τ] [DecidableEq τ] {p : Positions τ α} {s : State τ α} {t : τ}

/-- A call that is granted nothing answers what the queue may answer. -/
theorem spec_of_nothing (h : Inv k cap p s) {oldHead : BitVec 32}
    (hpc : s.pc t = .loadTail c oldHead) (hlap : p.head c.side + cap < p.seen t + 2 ^ 32)
    (hzero : grant c.behavior c.n (s.ring.entries c.side oldHead) = 0) :
    queueSpec cap (view p s).status p.items t c ⟨0, s.ring.entries c.side oldHead, []⟩
      p.items := by
  have hok := h.thread t
  rw [hpc] at hok
  obtain ⟨hfits, rfl, hle, -⟩ := hok
  have hentries := h.toNat_entries hle hlap
  have hitems := h.length_items
  have hoccupied := h.occupied_le (t := t) fun sd => by rw [hpc]; rfl
  have hzero' : (0 : BitVec 32) =
      grant c.behavior c.n (0 + s.ring.entries c.side (counter 32 (p.seen t))) := by
    rw [show (0 : BitVec 32) + s.ring.entries c.side (counter 32 (p.seen t)) =
      s.ring.entries c.side (counter 32 (p.seen t)) from BitVec.zero_add _, hzero]
  refine ⟨hzero', ?_⟩
  cases c with
  | enqueue objTable b sp =>
      refine ⟨rfl, by simp, ?_⟩
      rw [if_pos rfl, hentries]
      change cap ≤ _ + _ + (p.tail .cons + cap - p.seen t)
      change p.seen t ≤ p.head .prod at hle
      omega
  | dequeue n b sc =>
      refine ⟨by simp, by simp, ?_⟩
      rw [if_pos rfl, hentries, hitems]
      change _ ≤ p.tail .prod - p.seen t
      change p.seen t ≤ p.head .cons at hle
      omega

/-- A dequeue that moves the head takes the objects at the front. -/
theorem spec_of_claim (h : Inv k cap p s) {n : BitVec 32} {b : QueueBehavior} {sc : Bool}
    {status : τ → Status (Call α) (Result α)}
    (hpc : s.pc t = .moveHead (.dequeue n b sc) l) (hat : p.seen t = p.head .cons) :
    queueSpec cap status p.items t (.dequeue n b sc)
      ⟨l.n, l.entries - l.n, ((p.puts.drop (p.seen t)).take l.n.toNat).map some⟩
      ((p.puts.take (p.tail .prod)).drop (p.head .cons + l.n.toNat)) := by
  have hok := h.thread t
  rw [hpc] at hok
  obtain ⟨-, hgrant, hne, hroom⟩ := hok
  have hroom : p.seen t + l.entries.toNat ≤ p.tail .prod := hroom hat
  have hn : l.n.toNat ≤ l.entries.toNat := by
    rw [hgrant]
    exact (grant_le _ _ _).2
  refine ⟨by rw [add_sub_cancel_bits]; exact hgrant, ?_, ?_, ?_⟩
  · have hfront : p.items.take l.n.toNat = (p.puts.drop (p.seen t)).take l.n.toNat := by
      rw [Marks.items, List.drop_take, List.take_take, hat]
      congr 1
      omega
    exact congrArg (List.map some) hfront.symm
  · rw [Marks.items, List.drop_drop]
  · rw [if_neg hne]
    change l.n.toNat + (l.entries - l.n).toNat ≤ _
    rw [toNat_sub_bits hn, h.length_items]
    omega

/-- An enqueue that moves the tail adds its objects at the end. -/
theorem spec_of_publish (h : Inv k cap p s) {objTable : List α} {b : QueueBehavior} {sp : Bool}
    {table : List (Option α)} {status : τ → Status (Call α) (Result α)}
    (hpc : s.pc t = .storeTail (.enqueue objTable b sp) l table) :
    queueSpec cap status p.items t (.enqueue objTable b sp) ⟨l.n, l.entries - l.n, table⟩
      ((p.puts.take (p.tail .prod + l.n.toNat)).drop (p.head .cons)) := by
  have hok := h.thread t
  rw [hpc] at hok
  obtain ⟨hclaimed, hturn, htable, -⟩ := hok
  change p.tail .prod = p.seen t at hturn
  have hn := hclaimed.n_le
  have hroom : p.seen t + l.entries.toNat ≤ p.tail .cons + cap := hclaimed.room
  have hticket : (s.pc t).ticket (p.seen t) .prod = some (p.seen t, l.n.toNat) := by
    rw [hpc]
    rfl
  have hlen := h.ticket_le hticket
  obtain ⟨h₁, h₂, h₃, h₄⟩ := h.order
  have hobjs : (p.puts.drop (p.tail .prod)).take l.n.toNat = objTable.take l.n.toNat := by
    apply List.ext_getElem?
    intro i
    rw [List.getElem?_take, List.getElem?_take]
    split
    · rename_i hi
      rw [List.getElem?_drop, hturn]
      exact hclaimed.objs rfl i hi
    · rfl
  refine ⟨by rw [add_sub_cancel_bits]; exact hclaimed.granted, htable, ?_, ?_⟩
  · rw [Marks.items, List.take_add, hobjs, List.drop_append_of_le_length]
    rw [List.length_take]
    omega
  · rw [if_neg hclaimed.nonzero, toNat_sub_bits hn.2, List.length_drop, List.length_take]
    omega

/-! ## Every access is a step of the queue, or not noticed -/

theorem matches_move (h : Inv k cap p s) {o : Act α} (hmove : Move s.ring (s.pc t) r' pc' o)
    (hlap : ∀ c n, o = .movedHead c n ∨ o = .readTail c →
      p.head c.side + cap < p.seen t + 2 ^ 32) :
    Matches (queueSpec cap) (view p s) (visible (.go t, o))
      (view (p.after t o) ⟨r', Function.update s.pc t pc'⟩) := by
  have hok := h.thread t
  generalize hpc : s.pc t = pc at hmove hok
  have hstatus : (view p s).status t = pc.status p.toMarks (p.seen t) := by rw [← hpc]; rfl
  -- accesses that change no mark
  have hsame : ∀ {pc₂ : Pc α}, view p ⟨r', Function.update s.pc t pc₂⟩ =
      ⟨p.items, Function.update (view p s).status t (pc₂.status p.toMarks (p.seen t))⟩ :=
    h.view_after (fun _ _ => rfl) fun _ _ => rfl
  cases hmove with
  | readHead =>
      refine .silent (t := t) (h.view_after (fun _ _ => rfl) fun u hu => ?_) hstatus
      simp [Positions.after, hu]
  | @nothing c oldHead hzero =>
      exact .act hsame hstatus (spec_of_nothing h hpc (hlap c 0 (.inr rfl)) hzero)
  | readTail hn hne => exact .silent hsame hstatus
  | @moveHead c l hat =>
      have hhead := h.at_head hpc hat (hlap c l.n (.inl rfl))
      have hview : view (p.after t (.movedHead c l.n))
          ⟨s.ring.setHead c.side (l.oldHead + l.n),
            Function.update s.pc t (.copy c l 0 [])⟩ = _ := h.view_after
        (fun q hq => List.getElem?_append_left hq) fun _ _ => rfl
      obtain ⟨h₁, h₂, h₃, h₄⟩ := h.order
      have hputs := h.puts
      cases c with
      | enqueue objTable b sp =>
          -- the new objects are not published yet
          have hitems : (p.after t (.movedHead (.enqueue objTable b sp) l.n)).items = p.items := by
            change ((p.puts ++ objTable.take l.n.toNat).take (p.tail .prod)).drop (p.head .cons) = _
            rw [List.take_append_of_le_length (by omega)]
            rfl
          exact .silent (hview.trans (by rw [hitems]; rfl)) hstatus
      | dequeue n b sc =>
          refine .act (hview.trans ?_) hstatus (spec_of_claim h hpc hhead)
          have hsame' : p.puts ++ (Call.dequeue n b sc).objs.take l.n.toNat = p.puts := by
            simp [Call.objs]
          have hmarks : (p.after t (.movedHead (.dequeue n b sc) l.n)).puts = p.puts := hsame'
          refine Atomic.ext ?_ ?_
          · rw [Marks.items, hmarks]
            rfl
          · simp only [Pc.status, claimStatus, hmarks]
            rfl
  | retry hsingle hne => exact .silent hsame hstatus
  | put hidx hobj => exact .silent hsame hstatus
  | get hidx hslot => exact .silent hsame hstatus
  | wait hdone hne => exact .silent hsame hstatus
  | reach hdone hturn => exact .silent hsame hstatus
  | @storeTail c l table =>
      have hview : view (p.after t (.storedTail c l.n))
          ⟨s.ring.setTail c.side (l.oldHead + l.n),
            Function.update s.pc t (.finish ⟨l.n, l.entries - l.n, table⟩)⟩ = _ :=
        h.view_after (fun _ _ => rfl) fun _ _ => rfl
      cases c with
      | enqueue objTable b sp => exact .act hview hstatus (spec_of_publish h hpc)
      | dequeue n b sc =>
          refine .silent hview (hstatus.trans ?_)
          rw [show table = _ from hok.2.2]
          rfl
  | finish => exact .ret hsame hstatus

theorem matches_call (h : Inv k cap p s) (hpc : s.pc t = .idle) :
    Matches (queueSpec cap) (view p s) (some (t, .inl c))
      (view p ⟨s.ring, Function.update s.pc t (.loadHead c)⟩) :=
  .call (h.view_after (fun _ _ => rfl) fun _ _ => rfl)
    (show (s.pc t).status _ _ = _ by rw [hpc]; rfl)

/-- A run of the ring is one of the queue, and where it stands is what its
    marks say. -/
theorem exists_queue_run {name : List Char} {count flags : BitVec 32} {r : RteRing α}
    {hist : History τ α} (hinit : rteRingInit α name count flags = .ok r) (hsize : r.size ≠ 0)
    (hrun : RingRun r hist s) (hlap : AtEveryEntry (NotLapped r.capacity.toNat) hist) :
    ∃ acts, Run (AtomicStep (queueSpec r.capacity.toNat)) (Atomic.start []) acts
        (view (positions hist) s) ∧
      trace (fun en => en.1.external) acts = trace visible hist := by
  obtain ⟨k, hsound⟩ := (sound_iff_of_init hinit).mpr hsize
  have hmatches : ∀ (hist : History τ α) s e o s', RingRun r hist s →
      AtEveryEntry (NotLapped r.capacity.toNat) (hist ++ [(e, o)]) →
      Guarded Exclusive (StepsOf step) s e o s' →
      Matches (queueSpec r.capacity.toNat) (view (positions hist) s) (visible (e, o))
        (view (positions (hist ++ [(e, o)])) s') := by
    intro hist s e o s' hrun hP hR
    have hinv := inv_of_run hinit hsound hrun (atEveryEntry_snoc.mp hP).1
    rw [positions_snoc]
    rcases step_cases hR.2 with ⟨t, c, rfl, hpc, hfits, rfl, rfl⟩ |
      ⟨t, r', pc', rfl, hmove, rfl⟩
    · exact matches_call hinv hpc
    · refine matches_move hinv hmove fun c n ho => ?_
      have hlast := (atEveryEntry_snoc.mp hP).2
      rcases ho with rfl | rfl <;> exact hlast
  exact exists_atomic_run (fun hist (s : State τ α) => view (positions hist) s) hmatches hrun hlap

end Effects

/-- Two producers meet on a ring of three places, and the one that loses the
    compare-and-set tries again; a dequeue then takes both objects. -/
def twoProducers : List (Event Bool Nat) :=
  [.call false (rteRingMpEnqueue 10), .call true (rteRingMpEnqueue 20), .go false, .go true,
    .go false, .go true, .go true, .go false, .go true, .go true, .go true, .go true, .go false,
    .go false, .go false, .go false, .go false, .go false, .go false,
    .call true (rteRingMcDequeueBurst 5), .go true, .go true, .go true, .go true, .go true,
    .go true, .go true, .go true]

/-- What the two see. -/
def twoProducersTrace : List (External Bool (Call Nat) (Result Nat)) :=
  [(false, .inl (rteRingMpEnqueue 10)), (true, .inl (rteRingMpEnqueue 20)),
    (true, .inr ⟨1, 2, []⟩), (false, .inr ⟨1, 1, []⟩), (true, .inl (rteRingMcDequeueBurst 5)),
    (true, .inr ⟨2, 0, [some 20, some 10]⟩)]

theorem exists_twoProducers_run : ∃ r hist s, rteRingInit Nat ['q'] 4 0 = .ok r ∧ r.size ≠ 0 ∧
    r.capacity.toNat = 3 ∧ RingRun r hist s ∧ AtEveryEntry (NotLapped r.capacity.toNat) hist ∧
    trace visible hist = twoProducersTrace ∧
    (Event.go false, Act.retried (rteRingMpEnqueue 10)) ∈ hist := by
  obtain ⟨r, hinit, hsize, hcap⟩ : ∃ r, rteRingInit Nat ['q'] 4 0 = .ok r ∧ r.size ≠ 0 ∧
      r.capacity.toNat = 3 := ⟨_, rfl, by decide, by decide⟩
  have hexec : execsTo (guardStep Exclusive .refused step) (State.start r) twoProducers
      (fun hist _ => decide (AtEveryEntry (NotLapped 3) hist) &&
        (decide (trace visible hist = twoProducersTrace) &&
          decide ((Event.go false, Act.retried (rteRingMpEnqueue 10)) ∈ hist))) = true := by
    cases hinit
    decide +kernel
  obtain ⟨hist, s, hrun, hP⟩ := exec_of_execsTo hexec
  simp only [Bool.and_eq_true, decide_eq_true_eq] at hP
  exact ⟨r, hist, s, hinit, hsize, hcap, guarded_of_exec hrun, hcap.symm ▸ hP.1, hP.2⟩

end LinuxLearning.Ring
