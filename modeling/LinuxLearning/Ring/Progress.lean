/-
  LinuxLearning.Ring.Progress

  What a call can rely on.  No access is ever outside `obj_table` or the
  ring's table, and a call under way always has a next access to make.  A call
  that has taken its block waits only for the calls that took theirs before:
  if the threads are given their turns, it returns.  The loop around the
  compare-and-set may go on for ever for one caller, but it fails only
  because another call of the same side has got its block in the meantime.
-/

import LinuxLearning.Lib.Fairness
import LinuxLearning.Ring.Linearizable

namespace LinuxLearning.Ring

open Lib

variable {τ α : Type} {k cap : Nat} {sd : Side} {p : Positions τ α} {s s' : State τ α} {t u : τ}

/-! ## Every access is within bounds -/

/-- A call under way can make its next access. -/
theorem Inv.exists_advance (h : Inv k cap p s) (hpc : s.pc t ≠ .idle) :
    ∃ x, advance s.ring (s.pc t) = .ok x := by
  have hok := h.thread t
  have hindex := fun {c l i table} (heq : s.pc t = .copy c l i table) => h.copy_index heq
  generalize s.pc t = pc at hpc hok hindex
  cases pc with
  | idle => exact absurd rfl hpc
  | loadHead c | storeTail c l table | finish res => exact ⟨_, rfl⟩
  | loadTail c oldHead =>
      simp only [advance]
      split <;> exact ⟨_, rfl⟩
  | moveHead c l =>
      simp only [advance]
      split <;> exact ⟨_, rfl⟩
  | copy c l i table =>
      obtain ⟨hclaimed, hi, -⟩ := hok
      simp only [advance, hindex rfl]
      split
      · rename_i idx hidx
        split at hidx
        · rename_i hlt
          obtain rfl : (p.seen t + i) % 2 ^ k = idx := by simpa using hidx
          have hslot : (p.seen t + i) % 2 ^ k < s.ring.slots.length := by
            rw [h.sound.slots]
            exact Nat.mod_lt _ (Nat.two_pow_pos k)
          rw [List.getElem?_eq_getElem hslot]
          cases c with
          | dequeue n b sc =>
              -- no more objects are taken than were asked for
              have hn : l.n.toNat ≤ n.toNat := hclaimed.n_le.1
              simp only [if_pos (Nat.lt_of_lt_of_le hlt hn)]
              exact ⟨_, rfl⟩
          | enqueue objTable b sp =>
              -- no more objects are put than there are
              have hn := hclaimed.n_le.1
              rw [Call.n_of_fits hclaimed.fits rfl] at hn
              have hobj : i < objTable.length := Nat.lt_of_lt_of_le hlt hn
              simp only [List.getElem?_eq_getElem hobj]
              exact ⟨_, rfl⟩
        · cases hidx
      · split <;> exact ⟨_, rfl⟩

/-- How many accesses a call still has to make on its block. -/
def Pc.rank : Pc α → Nat
  | .copy _ l i _ => l.n.toNat - i + 2
  | .storeTail _ _ _ => 1
  | _ => 0

/-- The call with the lowest block does not wait: each access brings it
    nearer to its end. -/
theorem Inv.rank_lt (h : Inv k cap p s) {n : Nat} {r' : RteRing α} {pc' : Pc α} {o : Act α}
    (ht : (s.pc t).ticket (p.seen t) sd = some (p.tail sd, n))
    (hmove : Move s.ring (s.pc t) r' pc' o) : pc'.rank < (s.pc t).rank := by
  have hindex := fun {c l i table} (heq : s.pc t = .copy c l i table) => h.copy_index heq
  have hok := h.thread t
  generalize s.pc t = pc at hmove ht hindex hok
  cases hmove with
  | readHead | nothing _ | readTail _ _ | moveHead _ | retry _ _ | finish => cases ht
  | put hidx _ | get hidx _ =>
      rw [hindex rfl] at hidx
      split at hidx
      · simp only [Pc.rank]
        omega
      · cases hidx
  | @wait c l i table hdone hne =>
      obtain ⟨heq, d, hd, hside⟩ := call_of_ticket ht
      obtain rfl : c = d := by simpa [Pc.call?] using hd
      refine absurd ?_ hne
      rw [h.tail, hok.1.oldHead, ← heq, hside]
  | reach hdone hturn =>
      simp only [Pc.rank]
      omega
  | storeTail => exact Nat.zero_lt_one

variable [DecidableEq τ] {r : RteRing α} {hist : History τ α} {e : Event τ α}

theorem Inv.enabled (h : Inv k cap p s) (hpc : s.pc t ≠ .idle) :
    Enabled (Guarded Exclusive (StepsOf step)) (fun e => e = .go t) s := by
  obtain ⟨x, hx⟩ := h.exists_advance hpc
  refine ⟨.go t, (s.put t x).2, (s.put t x).1, rfl, trivial, ?_⟩
  change (advance s.ring (s.pc t)).map (s.put t) = .ok _
  rw [hx]
  rfl

/-- In every run, the next access of every call under way is within bounds. -/
theorem ring_in_bounds {name : List Char} {count flags : BitVec 32}
    (hinit : rteRingInit α name count flags = .ok r) (hsize : r.size ≠ 0)
    (hrun : RingRun r hist s) (hlap : AtEveryEntry (NotLapped r.capacity.toNat) hist) :
    (∀ e, step s e ≠ .error .outOfBounds) ∧
      ∀ t, s.pc t ≠ .idle → ∃ s' o, step s (.go t) = .ok (s', o) := by
  obtain ⟨k, hsound⟩ := (sound_iff_of_init hinit).mpr hsize
  have hinv := inv_of_run hinit hsound hrun hlap
  have hgo : ∀ t, s.pc t ≠ .idle → ∃ s' o, step s (.go t) = .ok (s', o) := fun t hpc => by
    obtain ⟨e, o, s', rfl, -, hstep⟩ := hinv.enabled hpc
    exact ⟨s', o, hstep⟩
  refine ⟨fun e => ?_, hgo⟩
  cases e with
  | call t c =>
      simp only [step]
      split
      · split <;> simp
      · simp
  | go t =>
      by_cases hpc : s.pc t = .idle
      · simp [step, advance, hpc, Except.map]
      · obtain ⟨s', o, hstep⟩ := hgo t hpc
        simp [hstep]

theorem twoProducers_in_bounds : ∃ (r : RteRing Nat) (hist : History Bool Nat)
    (s : State Bool Nat), rteRingInit Nat ['q'] 4 0 = .ok r ∧ RingRun r hist s ∧
    trace visible hist = twoProducersTrace ∧ (∀ e, step s e ≠ .error .outOfBounds) ∧
      ∀ t, s.pc t ≠ .idle → ∃ s' o, step s (.go t) = .ok (s', o) := by
  obtain ⟨r, hist, s, hinit, hsize, -, hrun, hlap, htrace, -⟩ := exists_twoProducers_run
  exact ⟨r, hist, s, hinit, hrun, htrace, ring_in_bounds hinit hsize hrun hlap⟩

/-! ## Blocks that are out -/

/-- A call keeps its block until it moves the tail. -/
theorem ticket_kept {a n : Nat} {o : Act α} (hstep : step s e = .ok (s', o))
    (ht : (s.pc t).ticket (p.seen t) sd = some (a, n)) :
    (s'.pc t).ticket ((p.after e.thread o).seen t) sd = some (a, n) ∨
      e = .go t ∧ ∃ c l res, c.side = sd ∧ o = .storedTail c l ∧ l.toNat = n ∧
        s'.pc t = .finish res := by
  have hother : ∀ {v : τ} {pc' : Pc α} {r' : RteRing α}, v ≠ t →
      ((⟨r', Function.update s.pc v pc'⟩ : State τ α).pc t).ticket ((p.after v o).seen t) sd =
        some (a, n) := fun {v pc' r'} hv => by
    have hseen : (p.after v o).seen t = p.seen t := by
      cases o <;> simp [Positions.after, hv.symm]
    change (Function.update s.pc v pc' t).ticket _ sd = _
    rw [hseen, Function.update_of_ne hv.symm, ht]
  rcases step_cases hstep with ⟨v, c, rfl, hpc, -, rfl, rfl⟩ | ⟨v, r', pc', rfl, hmove, rfl⟩
  · by_cases hv : v = t
    · subst hv
      rw [hpc] at ht
      cases ht
    · exact .inl (hother hv)
  · by_cases hv : v = t
    · subst hv
      generalize s.pc v = pc at hmove ht
      simp only [Function.update_self, Event.thread]
      cases hmove with
      | readHead | nothing _ | readTail _ _ | moveHead _ | retry _ _ | finish => cases ht
      | put hidx hobj => exact .inl ht
      | get hidx hslot => exact .inl ht
      | wait hdone hne => exact .inl ht
      | reach hdone hturn => exact .inl ht
      | @storeTail c l table =>
          refine .inr ⟨trivial, c, l.n, _, ?_, rfl, ?_, rfl⟩
          · exact (call_of_ticket ht).2.elim fun d hd => by
              obtain rfl : c = d := by simpa [Pc.call?] using hd.1
              exact hd.2
          · simp only [Pc.ticket] at ht
            split at ht
            · exact (Prod.mk.inj (Option.some.inj ht)).2
            · cases ht
    · exact .inl (hother hv)

/-! ## Calls return -/

/-- An infinite run of threads that keep to the contract. -/
abbrev RingExecution (τ α : Type) [DecidableEq τ] :=
  InfiniteRun (Guarded Exclusive (StepsOf (step (τ := τ) (α := α))))

/-- The invariant at every moment. -/
def Throughout (k cap : Nat) (x : RingExecution τ α) : Prop :=
  ∀ i, Inv k cap (positions (x.history i)) (x.state i)

namespace Throughout

variable {x : RingExecution τ α} {i n a : Nat}

/-- A block from one moment to the next. -/
theorem ticket_succ (x : RingExecution τ α)
    (ht : ((x.state i).pc t).ticket ((positions (x.history i)).seen t) sd = some (a, n)) :
    ((x.state (i + 1)).pc t).ticket ((positions (x.history (i + 1))).seen t) sd = some (a, n) ∨
      ∃ c l res, x.event i = some (.go t, .storedTail c l) ∧ c.side = sd ∧ l.toNat = n ∧
        (x.state (i + 1)).pc t = .finish res := by
  cases hev : x.event i with
  | none =>
      rw [InfiniteRun.history, hev, Option.toList_none, List.append_nil, x.idle i hev]
      exact .inl ht
  | some en =>
      obtain ⟨e, o⟩ := en
      rw [InfiniteRun.history, hev, Option.toList_some, positions_snoc]
      rcases ticket_kept (x.step i e o hev).2 ht with hkept | ⟨rfl, c, l, res, hside, rfl, hl, hpc⟩
      · exact .inl hkept
      · exact .inr ⟨c, l, res, rfl, hside, hl, hpc⟩

/-- Tails only move forward. -/
theorem tail_mono (x : RingExecution τ α) (sd : Side) (i : Nat) :
    (positions (x.history i)).tail sd ≤ (positions (x.history (i + 1))).tail sd := by
  cases hev : x.event i with
  | none => simp [InfiniteRun.history, hev]
  | some en =>
      obtain ⟨e, o⟩ := en
      rw [InfiniteRun.history, hev, Option.toList_some, positions_snoc]
      cases o with
      | storedTail c m =>
          by_cases hsd : sd = c.side
          · subst hsd
            simp [Positions.after]
          · simp [Positions.after, hsd]
      | _ => exact Nat.le_refl _

/-- A call that has its answer returns, if its thread gets its turns. -/
theorem returns_of_finish (hx : Throughout k cap x) (hfair : x.StronglyFair (· = .go t))
    {res : Result α} (hpc : (x.state i).pc t = .finish res) :
    ∃ j, i ≤ j ∧ x.event j = some (.go t, .returned res) := by
  obtain ⟨j, hij, hj, e, o, rfl, hev⟩ := InfiniteRun.happens_of_enabled hfair
    (Q := fun s => s.pc t = .finish res) (n := i) hpc
    (fun j _ hj hnot => by
      cases hev : x.event j with
      | none => rwa [x.idle j hev]
      | some en =>
          obtain ⟨e, o⟩ := en
          rcases step_cases (x.step j e o hev).2 with ⟨v, c, rfl, hv, -, -, hs⟩ |
            ⟨v, r', pc', rfl, -, hs⟩
          · have hvt : v ≠ t := by
              rintro rfl
              rw [hj] at hv
              cases hv
            rw [hs]
            simpa [hvt.symm] using hj
          · have hvt : v ≠ t := by
              rintro rfl
              exact hnot ⟨_, o, rfl, hev⟩
            rw [hs]
            simpa [hvt.symm] using hj)
    fun j _ hj => (hx j).enabled (by rw [hj]; simp)
  refine ⟨j, hij, ?_⟩
  rcases step_cases (x.step j _ o hev).2 with ⟨v, c, hv, -⟩ | ⟨v, r', pc', hv, hmove, -⟩
  · cases hv
  · cases hv
    rw [hj] at hmove
    cases hmove
    exact hev

/-- A call that has its block comes to the end of it. -/
theorem finishes_of_ticket (hx : Throughout k cap x) (sd : Side)
    (hfair : ∀ u, x.StronglyFair (· = .go u))
    (ht : ((x.state i).pc t).ticket ((positions (x.history i)).seen t) sd = some (a, n)) :
    ∃ j res, i ≤ j ∧ (x.state j).pc t = .finish res := by
  by_contra hnever
  have hkept : ∀ j, i ≤ j →
      ((x.state j).pc t).ticket ((positions (x.history j)).seen t) sd = some (a, n) := by
    intro j hj
    induction j, hj using Nat.le_induction with
    | base => exact ht
    | succ j hj ih =>
        rcases ticket_succ x ih with hkept | ⟨-, -, res, -, -, -, hres⟩
        · exact hkept
        · exact absurd ⟨j + 1, res, by omega, hres⟩ hnever
  -- the tail does not go past the block, so in the end it stands still
  obtain ⟨m, hm, hconst⟩ := InfiniteRun.eventually_const
    (m := fun j => a - (positions (x.history j)).tail sd) (n := i) fun j _ => by
      have := tail_mono x sd j
      omega
  have htail : ∀ j, m ≤ j →
      (positions (x.history j)).tail sd = (positions (x.history m)).tail sd := fun j hj => by
    have h₁ := ((hx j).tickets sd).within (hkept j (by omega))
    have h₂ := ((hx m).tickets sd).within (hkept m hm)
    have h₃ := hconst j hj
    omega
  -- whoever holds the block at the tail holds it for ever
  have hin := ((hx m).tickets sd).within (hkept m hm)
  obtain ⟨u, l, hu⟩ := ((hx m).tickets sd).exists_lowest (by omega)
  have hstill : ∀ j, m ≤ j → ((x.state j).pc u).ticket ((positions (x.history j)).seen u) sd =
      some ((positions (x.history m)).tail sd, l) := by
    intro j hj
    induction j, hj using Nat.le_induction with
    | base => exact hu
    | succ j hj ih =>
        rcases ticket_succ x ih with hkept | ⟨c, w, -, hev, rfl, rfl, -⟩
        · exact hkept
        · -- it would have moved the tail
          have hpos := (((hx j).tickets c.side).within ih).2.1
          have hnow := htail j hj
          have hnext := htail (j + 1) (by omega)
          rw [InfiniteRun.history, hev, Option.toList_some, positions_snoc] at hnext
          simp [Positions.after] at hnext
          omega
  -- but its own accesses use up its rank, and nobody else's concern it
  have hrank : ∀ j, m ≤ j → ∀ e o, x.event j = some (e, o) →
      (e ≠ .go u ∧ (x.state (j + 1)).pc u = (x.state j).pc u) ∨
        ((x.state (j + 1)).pc u).rank < ((x.state j).pc u).rank := by
    intro j hj e o hev
    have hticket := hstill j hj
    rcases step_cases (x.step j e o hev).2 with ⟨v, c, rfl, hv, -, -, hs⟩ |
      ⟨v, r', pc', rfl, hmove, hs⟩
    · have hvu : v ≠ u := by
        rintro rfl
        rw [hv] at hticket
        cases hticket
      refine .inl ⟨by simp, ?_⟩
      rw [hs]
      exact Function.update_of_ne hvu.symm _ _
    · by_cases hvu : v = u
      · subst hvu
        rw [← htail j hj] at hticket
        refine .inr ?_
        rw [hs]
        simpa using (hx j).rank_lt hticket hmove
      · refine .inl ⟨by simpa using hvu, ?_⟩
        rw [hs]
        exact Function.update_of_ne (Ne.symm hvu) _ _
  obtain ⟨j, hj, hquiet⟩ := InfiniteRun.eventually_disabled (hfair u)
    (fun s => (s.pc u).rank) (n := m)
    (fun j hj => by
      cases hev : x.event j with
      | none => rw [x.idle j hev]
      | some en =>
          rcases hrank j hj en.1 en.2 hev with ⟨-, heq⟩ | hlt
          · rw [heq]
          · exact Nat.le_of_lt hlt)
    (fun j hj hhap => by
      obtain ⟨e, o, he, hev⟩ := hhap
      rcases hrank j hj e o hev with ⟨hne, -⟩ | hlt
      · exact absurd he hne
      · exact hlt)
  refine (hquiet j (Nat.le_refl j)).2 ((hx j).enabled fun hidle => ?_)
  have := hstill j hj
  rw [hidle] at this
  cases this

end Throughout

/-- The call has its block of the ring, or its answer. -/
def Pc.served : Pc α → Bool
  | .copy _ _ _ _ | .storeTail _ _ _ | .finish _ => true
  | _ => false

/-- If every thread gets its turns, every call that has its block returns:
    whatever the other threads do, it waits only for calls that return too. -/
theorem ring_call_returns {x : RingExecution τ α} {name : List Char} {count flags : BitVec 32}
    (hinit : rteRingInit α name count flags = .ok r) (hsize : r.size ≠ 0)
    (hstart : x.state 0 = State.start r)
    (hlap : ∀ i, AtEveryEntry (NotLapped r.capacity.toNat) (x.history i))
    (hfair : ∀ t, x.StronglyFair (· = .go t)) {i : Nat}
    (hserved : ((x.state i).pc t).served = true) :
    ∃ j res, i ≤ j ∧ x.event j = some (.go t, .returned res) := by
  obtain ⟨k, hsound⟩ := (sound_iff_of_init hinit).mpr hsize
  have hx : Throughout k r.capacity.toNat x := fun i => by
    have hrun := x.run_history i
    rw [hstart] at hrun
    exact inv_of_run hinit hsound hrun (hlap i)
  have hfinish : ∃ j res, i ≤ j ∧ (x.state j).pc t = .finish res := by
    cases hpc : (x.state i).pc t with
    | copy c l n table =>
        exact hx.finishes_of_ticket c.side hfair (by rw [hpc]; exact ticket_copy ..)
    | storeTail c l table =>
        exact hx.finishes_of_ticket c.side hfair (by rw [hpc]; exact ticket_storeTail ..)
    | finish res => exact ⟨i, res, Nat.le_refl i, hpc⟩
    | idle | loadHead c | loadTail c oldHead | moveHead c l =>
        rw [hpc] at hserved
        cases hserved
  obtain ⟨j, res, hij, hpc⟩ := hfinish
  obtain ⟨j', hj', hev⟩ := hx.returns_of_finish (hfair t) hpc
  exact ⟨j', res, Nat.le_trans hij hj', hev⟩

/-- Two producers: up to where both have their blocks, and the second waits
    for the first. -/
def secondWaits : List (Event Bool Nat) :=
  [.call false (rteRingMpEnqueue 7), .call true (rteRingMpEnqueue 8), .go false, .go false,
    .go false, .go true, .go true, .go true, .go true, .go true]

/-- From there on. -/
def secondReturns : List (Event Bool Nat) :=
  [.go true, .go false, .go false, .go false, .go true, .go false, .go true, .go true]

/-- A thread without a call makes no access. -/
theorem not_enabled_of_idle (hpc : s.pc t = .idle) :
    ¬ Enabled (Guarded Exclusive (StepsOf step)) (fun e => e = .go t) s := by
  rintro ⟨e, o, s', rfl, -, hstep⟩
  simp [StepsOf, step, advance, hpc, Except.map] at hstep

/-- A call that can only wait returns all the same. -/
theorem waiting_call_returns : ∃ (x : RingExecution Bool Nat) (i j : Nat) (s' : State Bool Nat)
    (res : Result Nat), ((x.state i).pc true).served = true ∧
    step (x.state i) (.go true) = .ok (s', .waited (rteRingMpEnqueue 8)) ∧ i ≤ j ∧
    x.event j = some (.go true, .returned res) := by
  obtain ⟨r, hinit, hsize, hcap⟩ : ∃ r, rteRingInit Nat ['q'] 4 0 = .ok r ∧ r.size ≠ 0 ∧
      r.capacity.toNat = 3 := ⟨_, rfl, by decide, by decide⟩
  have hclaims : execsTo (guardStep Exclusive .refused step) (State.start r) secondWaits
      (fun _ s => (s.pc true).served && decide ((step s (.go true)).map Prod.snd =
        .ok (.waited (rteRingMpEnqueue 8)))) = true := by
    cases hinit
    decide +kernel
  have hall : execsTo (guardStep Exclusive .refused step) (State.start r)
      (secondWaits ++ secondReturns) (fun hist s => decide (AtEveryEntry (NotLapped 3) hist) &&
        decide (∀ t, s.pc t = .idle)) = true := by
    cases hinit
    decide +kernel
  obtain ⟨hist, s, hexec, hP⟩ := exec_of_execsTo hall
  obtain ⟨hist₁, mid, hexec₁, hwaits⟩ := exec_of_execsTo hclaims
  obtain ⟨hist₁', mid', hist₂, hexec₁', hexec₂, rfl⟩ := exec_append_ok hexec
  obtain ⟨rfl, rfl⟩ := Prod.mk.inj (Except.ok.inj (hexec₁.symm.trans hexec₁'))
  simp only [Bool.and_eq_true, decide_eq_true_eq] at hP hwaits
  obtain ⟨hserved, hwaits⟩ := hwaits
  obtain ⟨⟨s', o⟩, hstep, rfl⟩ : ∃ p, step mid (.go true) = .ok p ∧
      p.2 = .waited (rteRingMpEnqueue 8) := by
    cases hstep : step mid (.go true) with
    | error x => rw [hstep] at hwaits; cases hwaits
    | ok p => rw [hstep] at hwaits; exact ⟨p, rfl, Except.ok.inj hwaits⟩
  obtain ⟨x, hstart, hmid, hhist, hfair⟩ :=
    InfiniteRun.exists_idle_after (guarded_of_exec hexec₁) (guarded_of_exec hexec₂)
  rw [← hmid] at hserved hstep
  obtain ⟨j, res, hij, hev⟩ := ring_call_returns (x := x) (i := hist₁.length) (t := true) hinit
    hsize hstart (fun i => hcap.symm ▸ AtEveryEntry.of_prefix hP.1 (hhist i))
    (fun t => hfair _ (not_enabled_of_idle (hP.2 t))) hserved
  exact ⟨x, _, j, s', res, hserved, hstep, hij, hev⟩

/-! ## The loop around the compare-and-set -/

/-- `t` has read no head. -/
def NoRead (mid : History τ α) (t : τ) : Prop := ∀ c, (Event.go t, Act.readHead c) ∉ mid

/-- Another thread has moved the head of the side of `c`. -/
def Overtaken (mid : History τ α) (t : τ) (c : Call α) : Prop :=
  ∃ u d n, u ≠ t ∧ (Event.go u, Act.movedHead d n) ∈ mid ∧ d.side = c.side

omit [DecidableEq τ] in
theorem Overtaken.append {mid more : History τ α} {c : Call α} (h : Overtaken mid t c) :
    Overtaken (mid ++ more) t c := by
  obtain ⟨u, d, n, hu, hmem, hside⟩ := h
  exact ⟨u, d, n, hu, List.mem_append_left _ hmem, hside⟩

omit [DecidableEq τ] in
theorem NoRead.snoc {mid : History τ α} {o : Act α} (h : NoRead mid t)
    (ho : ∀ c, (e, o) ≠ (.go t, .readHead c)) : NoRead (mid ++ [(e, o)]) t := by
  intro c hmem
  rcases List.mem_append.mp hmem with hold | hnew
  · exact h c hold
  · exact ho c (List.mem_singleton.mp hnew).symm

omit [DecidableEq τ] in
/-- Only a move of a head changes it. -/
theorem head_of_move {r' : RteRing α} {pc pc' : Pc α} {o : Act α} (hmove : Move r pc r' pc' o)
    (sd : Side) : (r'.ht sd).head = (r.ht sd).head ∨ ∃ c n, o = .movedHead c n ∧ c.side = sd := by
  cases hmove with
  | @moveHead c l =>
      by_cases hsd : sd = c.side
      · exact .inr ⟨c, l.n, rfl, hsd.symm⟩
      · exact .inl (by rw [ht_setHead_head, if_neg hsd])
  | put => exact .inl (by rw [ht_setSlot])
  | storeTail => exact .inl (ht_setTail_head ..)
  | readHead | nothing _ | readTail _ _ | retry _ _ | get _ _ | wait _ _ | reach _ _ | finish =>
      exact .inl rfl

/-- Every head that was read and is not there any more has been moved by
    another thread since it was last read. -/
theorem read_or_overtaken (hrun : RingRun r hist s) {t : τ} {c : Call α} {oldHead : BitVec 32}
    (hread : (s.pc t).reading? = some (c, oldHead)) :
    ∃ pre mid, hist = pre ++ (.go t, .readHead c) :: mid ∧ NoRead mid t ∧
      (Overtaken mid t c ∨ (s.ring.ht c.side).head = oldHead) := by
  induction hrun generalizing oldHead with
  | start => cases hread
  | @step hist s e o s' _ hR ih =>
      -- threads other than the one that moves
      have hother : ∀ {v r' pc'}, v ≠ t → e.thread = v → (s.pc t).reading? = some (c, oldHead) →
          (∀ sd, (r'.ht sd).head = (s.ring.ht sd).head ∨
            ∃ d n, (e, o) = (Event.go v, Act.movedHead d n) ∧ d.side = sd) →
          ∃ pre mid, hist ++ [(e, o)] = pre ++ (.go t, .readHead c) :: mid ∧ NoRead mid t ∧
            (Overtaken mid t c ∨
              (((⟨r', pc'⟩ : State τ α).ring).ht c.side).head = oldHead) := by
        intro v r' pc' hv hthread hread hhead
        obtain ⟨pre, mid, rfl, hnone, hmid⟩ := ih hread
        have hne : ∀ d, (e, o) ≠ (.go t, .readHead d) := by
          intro d hen
          rw [(Prod.mk.inj hen).1] at hthread
          exact hv hthread.symm
        refine ⟨pre, mid ++ [(e, o)], by simp, hnone.snoc hne, ?_⟩
        rcases hmid with hover | hsame
        · exact .inl hover.append
        · rcases hhead c.side with heq | ⟨d, n, hen, hside⟩
          · exact .inr (heq.trans hsame)
          · exact .inl ⟨v, d, n, hv, by rw [hen]; simp, hside⟩
      rcases step_cases hR.2 with ⟨v, d, rfl, hpc, -, rfl, rfl⟩ | ⟨v, r', pc', rfl, hmove, rfl⟩
      · by_cases hv : v = t
        · subst hv
          simp [Pc.reading?] at hread
        · exact hother hv rfl (by simpa [Ne.symm hv] using hread) fun sd => .inl rfl
      · by_cases hv : v = t
        · subst hv
          simp only [Function.update_self] at hread
          generalize hpc : s.pc v = pc at hmove
          cases hmove with
          | readHead =>
              obtain ⟨rfl, rfl⟩ := Prod.mk.inj (Option.some.inj hread)
              exact ⟨hist, [], rfl, fun c hmem => (List.not_mem_nil hmem).elim, .inr rfl⟩
          | readTail hn hne =>
              obtain ⟨rfl, rfl⟩ := Prod.mk.inj (Option.some.inj hread)
              obtain ⟨pre, mid, rfl, hnone, hmid⟩ := ih (by rw [hpc]; rfl)
              exact ⟨pre, _, List.append_assoc .., hnone.snoc (by simp),
                hmid.imp_left Overtaken.append⟩
          | nothing _ | moveHead _ | retry _ _ | put _ _ | get _ _ | wait _ _ | reach _ _
          | storeTail | finish => cases hread
        · refine hother hv rfl (by simpa [Ne.symm hv] using hread) fun sd => ?_
          rcases head_of_move hmove sd with heq | ⟨d, n, rfl, hside⟩
          · exact .inl heq
          · exact .inr ⟨d, n, rfl, hside⟩

/-- A compare-and-set fails only if, since the caller last read the head,
    another thread has moved it and so has got its block. -/
theorem ring_lock_free (hrun : RingRun r hist s) :
    AtEveryEntry (fun past en => ∀ t c, en = (.go t, .retried c) →
      ∃ pre mid, past = pre ++ (.go t, .readHead c) :: mid ∧ NoRead mid t ∧
        Overtaken mid t c) hist := by
  induction hrun with
  | start => exact atEveryEntry_nil _
  | @step hist s e o s' hrun hR ih =>
      refine atEveryEntry_snoc.mpr ⟨ih, fun t c hen => ?_⟩
      obtain ⟨rfl, rfl⟩ := Prod.mk.inj hen
      rcases step_cases hR.2 with ⟨v, d, hev, -⟩ | ⟨v, r', pc', hev, hmove, -⟩
      · cases hev
      · cases hev
        generalize hpc : s.pc t = pc at hmove
        cases hmove with
        | @retry c l hsingle hne =>
            have hread : (s.pc t).reading? = some (c, l.oldHead) := by
              rw [hpc]
              rfl
            obtain ⟨pre, mid, hpast, hnone, hmid⟩ := read_or_overtaken hrun hread
            exact ⟨pre, mid, hpast, hnone, hmid.resolve_right hne⟩

theorem twoProducers_lock_free : ∃ (r : RteRing Nat) (past rest : History Bool Nat)
    (s : State Bool Nat), rteRingInit Nat ['q'] 4 0 = .ok r ∧
    RingRun r (past ++ (.go false, .retried (rteRingMpEnqueue 10)) :: rest) s ∧
    trace visible (past ++ (.go false, .retried (rteRingMpEnqueue 10)) :: rest) =
      twoProducersTrace ∧
    ∃ pre mid, past = pre ++ (.go false, .readHead (rteRingMpEnqueue 10)) :: mid ∧
      NoRead mid false ∧ Overtaken mid false (rteRingMpEnqueue 10) := by
  obtain ⟨r, hist, s, hinit, -, -, hrun, -, htrace, hmem⟩ := exists_twoProducers_run
  obtain ⟨past, rest, rfl⟩ := List.append_of_mem hmem
  exact ⟨r, past, rest, s, hinit, hrun, htrace,
    ring_lock_free hrun past _ rest rfl false _ rfl⟩

end LinuxLearning.Ring
