/-
  LinuxLearning.Ring.Sequential

  The ring of the stack's model.  The model of the stack puts and takes
  objects in one step, from rings of `RING_SIZE - 1` places.  This is what
  `rte_ring_mp_enqueue` and `rte_ring_mc_dequeue` do on a ring created with
  `RING_SIZE`, as long as no call is made while another is under way.
-/

import LinuxLearning.Ring.Linearizable
import LinuxLearning.Ustack.State

namespace LinuxLearning.Ring

open Lib

variable {τ α : Type}

/-- A call on a ring of the stack's model.  `rte_ring_mp_enqueue` and
    `rte_ring_mc_dequeue` return 0 just if `n` is not 0. -/
def stackAnswers (q : Ustack.RteRing α) (c : Call α) (r : Result α) (q' : Ustack.RteRing α) :
    Prop :=
  (∃ x, c = rteRingMpEnqueue x ∧ q.mpEnqueue x = (q', decide (r.n ≠ 0))) ∨
    (c = rteRingMcDequeue ∧ match q.mcDequeue with
      | none => r.n = 0 ∧ q' = q
      | some (x, rest) => r.n = 1 ∧ r.objs = [some x] ∧ q' = rest)

/-- The same on a list of at most `cap` objects. -/
def listAnswers (cap : Nat) (items : List α) (c : Call α) (r : Result α) (items' : List α) :
    Prop :=
  (∀ x, c = rteRingMpEnqueue x →
    (r.n = 0 ∧ cap ≤ items.length ∧ items' = items) ∨
      (r.n ≠ 0 ∧ items.length < cap ∧ items' = items ++ [x])) ∧
    (c = rteRingMcDequeue →
      (r.n = 0 ∧ items = [] ∧ items' = []) ∨
        ∃ x, r.n = 1 ∧ r.objs = [some x] ∧ items = x :: items')

/-- A fixed request for one object gets it or nothing. -/
theorem grant_one {e : BitVec 32} :
    (grant .fixed 1 e = 0 ∧ e = 0) ∨ (grant .fixed 1 e = 1 ∧ e ≠ 0) := by
  unfold grant
  split
  · rename_i hlt
    rw [BitVec.lt_def] at hlt
    exact .inl ⟨rfl, BitVec.eq_of_toNat_eq (by simpa using hlt)⟩
  · rename_i hlt
    rw [BitVec.lt_def] at hlt
    refine .inr ⟨rfl, ?_⟩
    rintro rfl
    exact hlt (by decide)

/-- Alone on the ring, the queue answers as the list does. -/
theorem listAnswers_of_spec [Fintype τ] [DecidableEq τ] {cap : Nat}
    {status : τ → Status (Call α) (Result α)} {items items' : List α} {t : τ} {c : Call α}
    {r : Result α} (halone : ∀ u, u ≠ t → status u = .idle)
    (h : queueSpec cap status items t c r items') : listAnswers cap items c r items' := by
  obtain ⟨hgrant, hrest⟩ := h
  have hflight : inFlight status t = 0 :=
    Finset.sum_eq_zero fun u hu => by rw [halone u (Finset.ne_of_mem_erase hu)]; rfl
  constructor
  · rintro x rfl
    obtain ⟨-, hitems, hcount⟩ := hrest
    change r.n = grant .fixed 1 (r.n + r.rest) at hgrant
    rcases grant_one (e := r.n + r.rest) with ⟨hzero, hsum⟩ | ⟨hone, -⟩
    · have hn : r.n = 0 := hgrant.trans hzero
      have hr : r.rest = 0 := by
        rw [hn] at hsum
        simpa using hsum
      rw [if_pos hn, hflight, hr] at hcount
      refine .inl ⟨hn, by simpa using hcount, ?_⟩
      rw [hitems, hn]
      simp
    · have hn : r.n = 1 := hgrant.trans hone
      have hne : r.n ≠ 0 := by rw [hn]; decide
      rw [if_neg hne] at hcount
      rw [hn] at hitems
      have hlist : items' = items ++ [x] := hitems
      rw [hlist, List.length_append, List.length_singleton] at hcount
      exact .inr ⟨hne, by omega, hlist⟩
  · rintro rfl
    obtain ⟨hobjs, hitems, hcount⟩ := hrest
    change r.n = grant .fixed 1 (r.n + r.rest) at hgrant
    rcases grant_one (e := r.n + r.rest) with ⟨hzero, hsum⟩ | ⟨hone, -⟩
    · have hn : r.n = 0 := hgrant.trans hzero
      have hr : r.rest = 0 := by
        rw [hn] at hsum
        simpa using hsum
      rw [if_pos hn, hr] at hcount
      have hempty : items = [] := by simpa using hcount
      exact .inl ⟨hn, hempty, by rw [hitems, hempty]; simp⟩
    · have hn : r.n = 1 := hgrant.trans hone
      rw [if_neg (by rw [hn]; decide), hn] at hcount
      rw [hn] at hobjs hitems
      cases items with
      | nil => simp at hcount
      | cons x rest => exact .inr ⟨x, hn, hobjs, by rw [hitems]; rfl⟩

/-- On a ring of the model with these objects and this capacity. -/
theorem stackAnswers_of_list {q : Ustack.RteRing α} {c : Call α} {r : Result α} {items' : List α}
    (hcall : (∃ x, c = rteRingMpEnqueue x) ∨ c = rteRingMcDequeue)
    (h : listAnswers q.queue.capacity q.items c r items') :
    ∃ q', stackAnswers q c r q' ∧ q'.items = items' ∧ q'.queue.capacity = q.queue.capacity := by
  rcases hcall with ⟨x, rfl⟩ | rfl
  · rcases h.1 x rfl with ⟨hn, hfull, rfl⟩ | ⟨hn, hroom, rfl⟩
    · have hput : q.mpEnqueue x = (q, false) :=
        Ustack.RteRing.mpEnqueue_of_full (Nat.not_lt.mpr hfull)
      exact ⟨q, .inl ⟨x, rfl, by rw [hput, hn]; rfl⟩, rfl, rfl⟩
    · obtain ⟨hitems, hstored⟩ := Ustack.RteRing.mpEnqueue_of_hasRoom (r := q) (x := x) hroom
      refine ⟨(q.mpEnqueue x).1, .inl ⟨x, rfl, ?_⟩, hitems, Ustack.RteRing.capacity_mpEnqueue q x⟩
      rw [decide_eq_true hn, ← hstored]
  · rcases h.2 rfl with ⟨hn, hempty, rfl⟩ | ⟨x, hn, hobjs, hitems⟩
    · have hpop : q.mcDequeue = none := Ustack.RteRing.mcDequeue_eq_none_iff.mpr hempty
      exact ⟨q, .inr ⟨rfl, by rw [hpop]; exact ⟨hn, rfl⟩⟩, hempty, rfl⟩
    · obtain ⟨rest, hpop⟩ : ∃ rest, q.queue.pop? = some (x, rest) := by
        cases hq : q.queue.pop? with
        | none =>
            rw [BoundedQueue.pop?_eq_none_iff] at hq
            have : q.items = [] := hq
            rw [this] at hitems
            cases hitems
        | some y =>
            obtain ⟨hy, -⟩ := BoundedQueue.pop?_eq_some_iff.mp hq
            obtain ⟨rfl, -⟩ := List.cons.inj ((show q.queue.items = _ from hitems).symm.trans hy)
            exact ⟨y.2, rfl⟩
      obtain ⟨hfront, hcap⟩ := BoundedQueue.pop?_eq_some_iff.mp hpop
      have hdeq : q.mcDequeue = some (x, { q with queue := rest }) := by
        rw [Ustack.RteRing.mcDequeue, hpop]
      refine ⟨{ q with queue := rest }, .inr ⟨rfl, by rw [hdeq]; exact ⟨hn, hobjs, rfl⟩⟩, ?_, hcap⟩
      exact (List.cons.inj ((show q.queue.items = _ from hitems).symm.trans hfront)).2.symm

/-- A run on lists is one on rings of the model. -/
theorem sequential_stack {q : Ustack.RteRing α}
    {tr : List (External τ (Call α) (Result α))} {items : List α}
    (hcalls : ∀ t c, (t, .inl c) ∈ tr → (∃ x, c = rteRingMpEnqueue x) ∨ c = rteRingMcDequeue)
    (h : Sequential (listAnswers q.queue.capacity) q.items tr items) :
    ∃ q', Sequential stackAnswers q tr q' ∧ q'.items = items ∧
      q'.queue.capacity = q.queue.capacity := by
  induction h with
  | nil => exact ⟨q, .nil, rfl, rfl⟩
  | @snoc tr w w' t c r _ hanswer ih =>
      obtain ⟨q', hseq, rfl, hcap⟩ :=
        ih fun t c hmem => hcalls t c (List.mem_append_left _ hmem)
      rw [← hcap] at hanswer
      obtain ⟨q'', hstack, rfl, hcap'⟩ := stackAnswers_of_list
        (hcalls t c (List.mem_append_right _ (by simp))) hanswer
      exact ⟨q'', hseq.snoc t hstack, rfl, hcap'.trans hcap⟩

/-! ## One call at a time -/

/-- Calls have not overlapped: no thread is in a call but `o`, whose call is
    under way, and a head that was read and not moved yet is still there. -/
structure Alone [DecidableEq τ] (hist : History τ α) (s : State τ α) (o : Option τ) : Prop where
  pending_eq : pending (trace visible hist) = some o
  idle : ∀ t, o ≠ some t → s.pc t = .idle
  seen : ∀ t c oldHead, (s.pc t).reading? = some (c, oldHead) →
    (positions hist).seen t = (positions hist).head c.side

section

variable [DecidableEq τ] {hist : History τ α} {s : State τ α} {t : τ} {o o' : Option τ}
  {r' : RteRing α} {pc' : Pc α} {act : Act α}

/-- Only the thread whose call is under way has an access to make. -/
theorem Alone.eq_of_move (h : Alone hist s o) (hmove : Move s.ring (s.pc t) r' pc' act) :
    o = some t := by
  by_contra ho
  rw [h.idle t ho] at hmove
  cases hmove

/-- A call that is no overlap is made while no other is under way. -/
theorem Alone.call {c : Call α} (h : Alone hist s o)
    (hserial : Serial (trace visible (hist ++ [(.call t c, .called c)]))) :
    Alone (hist ++ [(.call t c, .called c)]) ⟨s.ring, Function.update s.pc t (.loadHead c)⟩
      (some t) := by
  have htrace : trace visible (hist ++ [(.call t c, .called c)]) =
      trace visible hist ++ [(t, .inl c)] := trace_snoc ..
  rw [htrace] at hserial
  obtain ⟨o₁, o', hpend, hnext, hpend'⟩ := serial_snoc hserial
  obtain rfl := Option.some.inj (hpend.symm.trans h.pending_eq)
  cases o₁ with
  | some u => simp [serialNext] at hnext
  | none =>
      obtain rfl : some t = o' := by simpa [serialNext] using hnext
      have hothers : ∀ u, u ≠ t → Function.update s.pc t (.loadHead c) u = .idle :=
        fun u hu => by rw [Function.update_of_ne hu, h.idle u (by simp)]
      refine ⟨by rw [htrace, hpend'], fun u hu => hothers u fun heq => hu (heq ▸ rfl),
        fun u d oldHead hread => ?_⟩
      by_cases hu : u = t
      · subst hu
        simp [Pc.reading?] at hread
      · simp only [hothers u hu] at hread
        cases hread

/-- What an access of the thread in the call has to keep. -/
theorem Alone.go (h : Alone hist s (some t))
    (hpend : pending (trace visible (hist ++ [(.go t, act)])) = some o')
    (hleft : o' = some t ∨ pc' = .idle)
    (hseen : ∀ c oldHead, pc'.reading? = some (c, oldHead) →
      (positions (hist ++ [(.go t, act)])).seen t =
        (positions (hist ++ [(.go t, act)])).head c.side) :
    Alone (hist ++ [(.go t, act)]) ⟨r', Function.update s.pc t pc'⟩ o' := by
  have hothers : ∀ u, u ≠ t → Function.update s.pc t pc' u = .idle := fun u hu => by
    rw [Function.update_of_ne hu, h.idle u fun heq => hu (Option.some.inj heq).symm]
  refine ⟨hpend, fun u hu => ?_, fun u c oldHead hread => ?_⟩
  · by_cases hut : u = t
    · subst hut
      rcases hleft with rfl | rfl
      · exact absurd rfl hu
      · exact Function.update_self ..
    · exact hothers u hut
  · by_cases hut : u = t
    · subst hut
      simp only [Function.update_self] at hread
      exact hseen c oldHead hread
    · simp only [hothers u hut] at hread
      cases hread

theorem Alone.move (h : Alone hist s (some t)) (hmove : Move s.ring (s.pc t) r' pc' act) :
    ∃ o', Alone (hist ++ [(.go t, act)]) ⟨r', Function.update s.pc t pc'⟩ o' := by
  have hgoesOn : visible (Event.go t, act) = none →
      pending (trace visible (hist ++ [(.go t, act)])) = some (some t) := fun hv => by
    rw [trace_snoc, hv, Option.toList_none, List.append_nil, h.pending_eq]
  generalize hpc : s.pc t = pc at hmove
  cases hmove with
  | readHead =>
      refine ⟨some t, h.go (hgoesOn rfl) (.inl rfl) fun c oldHead hread => ?_⟩
      cases hread
      rw [positions_snoc]
      exact Function.update_self ..
  | readTail hn hzero =>
      refine ⟨some t, h.go (hgoesOn rfl) (.inl rfl) fun c oldHead hread => ?_⟩
      cases hread
      rw [positions_snoc]
      exact h.seen t _ _ (by rw [hpc]; rfl)
  | nothing _ | moveHead _ | retry _ _ | put _ _ | get _ _ | wait _ _ | reach _ _ | storeTail =>
      exact ⟨some t, h.go (hgoesOn rfl) (.inl rfl) fun c oldHead hread => by cases hread⟩
  | finish =>
      refine ⟨none, h.go ?_ (.inr rfl) fun c oldHead hread => by cases hread⟩
      rw [trace_snoc]
      change pending (trace visible hist ++ [(t, .inr _)]) = _
      rw [pending_snoc, h.pending_eq]
      simp [serialNext]

/-- While calls do not overlap, each is alone on the ring. -/
theorem alone_of_serial {r : RteRing α} (hrun : RingRun r hist s)
    (hserial : Serial (trace visible hist)) : ∃ o, Alone hist s o := by
  induction hrun with
  | start => exact ⟨none, rfl, fun _ _ => rfl, fun _ _ _ h => by cases h⟩
  | @step hist s e act s' _ hR ih =>
      obtain ⟨o, h⟩ := ih (serial_of_trace_snoc hserial)
      rcases step_cases hR.2 with ⟨t, c, rfl, -, -, rfl, rfl⟩ | ⟨t, r', pc', rfl, hmove, rfl⟩
      · exact ⟨some t, h.call hserial⟩
      · obtain rfl := h.eq_of_move hmove
        exact h.move hmove

/-- So no call is ever overtaken, let alone by a whole turn of the indexes. -/
theorem notLapped_of_serial {r : RteRing α} {cap : Nat} (hcap : cap < 2 ^ 32)
    (hrun : RingRun r hist s) (hserial : Serial (trace visible hist)) :
    AtEveryEntry (NotLapped cap) hist := by
  induction hrun with
  | start => exact atEveryEntry_nil _
  | @step hist s e act s' hrun hR ih =>
      have hpast : Serial (trace visible hist) := serial_of_trace_snoc hserial
      obtain ⟨o, halone⟩ := alone_of_serial hrun hpast
      refine atEveryEntry_snoc.mpr ⟨ih hpast, ?_⟩
      rcases step_cases hR.2 with ⟨t, c, rfl, -, -, rfl, -⟩ | ⟨t, r', pc', rfl, hmove, -⟩
      · trivial
      · have hnear : ∀ c oldHead, (s.pc t).reading? = some (c, oldHead) →
            (positions hist).head c.side + cap < (positions hist).seen t + 2 ^ 32 := by
          intro c oldHead hread
          rw [halone.seen t c oldHead hread]
          omega
        generalize s.pc t = pc at hmove hnear
        cases hmove with
        | nothing _ | readTail _ _ | moveHead _ => exact hnear _ _ rfl
        | readHead | retry _ _ | put _ _ | get _ _ | wait _ _ | reach _ _ | storeTail | finish =>
            trivial

end

/-- On a ring created as the stack creates its rings, calls of
    `rte_ring_mp_enqueue` and `rte_ring_mc_dequeue` that do not overlap have
    the answers of the stack's model. -/
theorem stack_ring_sequential [Fintype τ] [DecidableEq τ] {name : List Char}
    {flags : BitVec 32} {r : RteRing α} {hist : History τ α} {s : State τ α}
    (ringName : List Char)
    (hinit : rteRingInit α name (BitVec.ofNat 32 Ustack.RING_SIZE) flags = .ok r)
    (hexact : hasFlag flags RING_F_EXACT_SZ = false) (hrun : RingRun r hist s)
    (hserial : Serial (trace visible hist))
    (hcalls : ∀ t c, (t, .inl c) ∈ trace visible hist →
      (∃ x, c = rteRingMpEnqueue x) ∨ c = rteRingMcDequeue) :
    ∃ done q, Sequential stackAnswers (Ustack.RteRing.init ringName) done q ∧
      (trace visible hist = done ∨ ∃ t c, trace visible hist = done ++ [(t, .inl c)]) := by
  obtain ⟨-, -, -, hargs⟩ := rteRingInit_ok hinit
  rw [hexact, if_neg (by decide)] at hargs
  obtain ⟨-, -, hsize, hcap⟩ := hargs
  obtain ⟨acts, hacts, htrace⟩ := exists_queue_run hinit (by rw [hsize]; decide) hrun
    (notLapped_of_serial r.capacity.isLt hrun hserial)
  rw [← htrace] at hserial hcalls ⊢
  have hanswers : ∀ (status : τ → Status (Call α) (Result α)) v t c res v',
      (∀ u, u ≠ t → status u = .idle) → queueSpec r.capacity.toNat status v t c res v' →
        listAnswers r.capacity.toNat v c res v' :=
    fun _ _ _ _ _ _ halone h => listAnswers_of_spec halone h
  obtain ⟨done, w, hseq, hshape⟩ := sequential_of_serial hanswers hacts hserial
  have hcap' : r.capacity.toNat = Ustack.RING_SIZE - 1 := by
    rw [hcap]
    decide
  rw [hcap'] at hseq
  obtain ⟨q, hstack, -⟩ := sequential_stack (q := Ustack.RteRing.init ringName)
    (fun t c hmem => hcalls t c (by
      rcases hshape with heq | ⟨u, d, heq⟩ <;> rw [heq]
      · exact hmem
      · exact List.mem_append_left _ hmem)) hseq
  exact ⟨done, q, hstack, hshape⟩

/-- One thread puts an object, then another takes it and finds no second. -/
def handOver : List (Event Bool Nat) :=
  [.call false (rteRingMpEnqueue 7), .go false, .go false, .go false, .go false, .go false,
    .go false, .go false, .call true rteRingMcDequeue, .go true, .go true, .go true, .go true,
    .go true, .go true, .go true, .call true rteRingMcDequeue, .go true, .go true, .go true]

/-- What the two see. -/
def handOverTrace : List (External Bool (Call Nat) (Result Nat)) :=
  [(false, .inl (rteRingMpEnqueue 7)), (false, .inr ⟨1, 1022, []⟩),
    (true, .inl rteRingMcDequeue), (true, .inr ⟨1, 0, [some 7]⟩), (true, .inl rteRingMcDequeue),
    (true, .inr ⟨0, 0, []⟩)]

theorem handOver_sequential : ∃ q,
    Sequential stackAnswers (Ustack.RteRing.init ['q']) handOverTrace q := by
  obtain ⟨r, hinit⟩ : ∃ r, rteRingInit Nat ['q'] (BitVec.ofNat 32 Ustack.RING_SIZE) 0 =
      .ok r := ⟨_, rfl⟩
  have hexec : execsTo (guardStep Exclusive .refused step) (State.start r) handOver
      (fun hist _ => decide (trace visible hist = handOverTrace)) = true := by
    cases hinit
    decide +kernel
  obtain ⟨hist, s, hrun, hP⟩ := exec_of_execsTo hexec
  rw [decide_eq_true_eq] at hP
  obtain ⟨done, q, hseq, hshape⟩ := stack_ring_sequential ['q'] hinit (by decide)
    (guarded_of_exec hrun) (by rw [hP]; decide) (by
      rw [hP]
      intro t c hmem
      simp only [handOverTrace, List.mem_cons, Prod.mk.injEq, Sum.inl.injEq, reduceCtorEq,
        and_false, false_or, or_false, List.not_mem_nil] at hmem
      rcases hmem with ⟨-, rfl⟩ | ⟨-, rfl⟩ | ⟨-, rfl⟩
      · exact .inl ⟨7, rfl⟩
      · exact .inr rfl
      · exact .inr rfl)
  rw [hP] at hshape
  rcases hshape with rfl | ⟨t, c, heq⟩
  · exact ⟨q, hseq⟩
  · have hlast := congrArg List.getLast? heq
    simp [handOverTrace] at hlast

end LinuxLearning.Ring
