/-
  LinuxLearning.ThreadServer.HandOff

  Each thread serves the connection it was created for just if it reads the
  variable of `main` while that connection is the one accepted last.  Every
  step keeps this: it is stated step by step as an equivalence, so that a run
  shows it just if all of its first reads are in time.
-/

import LinuxLearning.ThreadServer.Server

namespace LinuxLearning.ThreadServer

open Lib

variable {s s' : Server} {i j fd c : Nat} {t t' : Thread}

/-! ## What a step can do -/

/-- The descriptor that a thread has copied and not closed. -/
def Thread.fd? : Thread → Option Nat
  | .receiving fd | .sending fd | .closing fd => some fd
  | .created | .returned _ => none

/-- What a thread that has returned closed. -/
def Thread.closed? : Thread → Option (Option Nat)
  | .returned c => some c
  | .created | .receiving _ | .sending _ | .closing _ => none

/-- A thread that calls `recv` or `send` keeps its descriptor. -/
inductive Moves (s : Server) (i : Nat) : Server → Prop
  | mk {fd : Nat} {t t' : Thread} : s.threads[i]? = some t → t.fd? = some fd → t'.fd? = some fd →
      Moves s i ((s.call i fd).goOn i t')

theorem moves_of_recv {eof : Bool} (h : step s (.recv i eof) = some s') : Moves s i s' := by
  obtain ⟨t, ht, h⟩ := Option.bind_eq_some_iff.mp h
  cases t with
  | receiving fd =>
      simp only [] at h
      split at h
      · cases h
      · cases h
        refine .mk ht rfl ?_
        cases eof <;> rfl
  | created => cases h
  | sending fd => cases h
  | closing fd => cases h
  | returned c => cases h

theorem moves_of_send (h : step s (.send i) = some s') : Moves s i s' := by
  obtain ⟨t, ht, h⟩ := Option.bind_eq_some_iff.mp h
  cases t with
  | sending fd =>
      cases h
      exact .mk ht rfl rfl
  | created => cases h
  | receiving fd => cases h
  | closing fd => cases h
  | returned c => cases h

theorem close_of_step (h : step s (.close i) = some s') :
    ∃ fd, s.threads[i]? = some (.closing fd) ∧ s' = s.close i fd := by
  obtain ⟨t, ht, h⟩ := Option.bind_eq_some_iff.mp h
  cases t with
  | closing fd => exact ⟨fd, ht, (Option.some.inj h).symm⟩
  | created => cases h
  | receiving fd => cases h
  | sending fd => cases h
  | returned c => cases h

/-! ## What holds in every run -/

/-- The descriptor of an open connection is the one it was accepted with, and
    no later one was accepted with it; the variable has that of the last one;
    and no thread is there before its connection. -/
structure WellFormed (s : Server) : Prop where
  table : ∀ fd c, s.table fd = some c →
    s.accepted[c]? = some fd ∧ ∀ j, c < j → s.accepted[j]? ≠ some fd
  clientfd : ∀ fd, s.accepted.getLast? = some fd → s.clientfd = fd
  count : s.threads.length + (if s.pc = .creating then 1 else 0) = s.accepted.length

theorem WellFormed.length_le (h : WellFormed s) : s.threads.length ≤ s.accepted.length := by
  have := h.count
  omega

theorem wellFormed_init (clientfd : Nat) : WellFormed (.init clientfd) where
  table := by
    intro fd c hc
    cases hc
  clientfd := by
    intro fd hfd
    cases hfd
  count := rfl

theorem WellFormed.accept (h : WellFormed s) (hpc : s.pc = .accepting) (hfree : s.table fd = none) :
    WellFormed (s.accept fd) where
  table := by
    intro fd' c hc
    simp only [Server.accept, Function.update_apply] at hc
    split at hc
    · -- the connection that is accepted now is the last one
      rename_i heq
      obtain rfl := heq
      obtain rfl := Option.some.inj hc
      refine ⟨List.getElem?_concat_length .., fun j hj => ?_⟩
      have hnone : (s.accepted ++ [fd'])[j]? = none := by
        rw [List.getElem?_eq_none_iff, List.length_append, List.length_singleton]
        omega
      exact fun heq => Option.some_ne_none _ (heq.symm.trans hnone)
    · -- the new one has a descriptor under which nothing was open
      rename_i hne
      obtain ⟨hacc, hlater⟩ := h.table fd' c hc
      have hlt := (List.getElem?_eq_some_iff.mp hacc).1
      refine ⟨(List.getElem?_append_left hlt).trans hacc, fun j hj heq => ?_⟩
      rw [Server.accept, List.getElem?_append] at heq
      split at heq
      · exact hlater j hj heq
      · rw [List.getElem?_singleton] at heq
        split at heq
        · exact hne (Option.some.inj heq).symm
        · cases heq
  clientfd := by
    intro fd' hlast
    rw [Server.accept, List.getLast?_concat] at hlast
    exact Option.some.inj hlast
  count := by
    have hcount := h.count
    rw [hpc, if_neg (by decide)] at hcount
    rw [Server.accept, if_pos rfl, List.length_append, List.length_singleton, ← hcount]

theorem WellFormed.create (h : WellFormed s) (hpc : s.pc = .creating) : WellFormed s.create where
  table := h.table
  clientfd := h.clientfd
  count := by
    have hcount := h.count
    rw [hpc, if_pos rfl] at hcount
    simp only [Server.create, List.length_append, List.length_singleton]
    exact hcount

/-- A thread's step leaves the variable and what was accepted. -/
theorem WellFormed.goOn (h : WellFormed s) (i : Nat) (t : Thread) : WellFormed (s.goOn i t) where
  table := h.table
  clientfd := h.clientfd
  count := by
    rw [Server.goOn, List.length_set]
    exact h.count

theorem WellFormed.call (h : WellFormed s) (i fd : Nat) : WellFormed (s.call i fd) :=
  ⟨h.table, h.clientfd, h.count⟩

theorem WellFormed.close (h : WellFormed s) (i fd : Nat) : WellFormed (s.close i fd) where
  table := by
    intro fd' c hc
    simp only [Server.close, Function.update_apply] at hc
    split at hc
    · cases hc
    · exact h.table fd' c hc
  clientfd := h.clientfd
  count := ((h.call i fd).goOn i _).count

theorem WellFormed.step {e : Event} (h : WellFormed s) (hstep : step s e = some s') :
    WellFormed s' := by
  cases e with
  | accept fd =>
      simp only [ThreadServer.step] at hstep
      split at hstep
      · rename_i hguard
        exact Option.some.inj hstep ▸ h.accept hguard.1 hguard.2
      · cases hstep
  | create =>
      simp only [ThreadServer.step] at hstep
      split at hstep
      · rename_i hpc
        exact Option.some.inj hstep ▸ h.create hpc
      · cases hstep
  | start i =>
      simp only [ThreadServer.step] at hstep
      split at hstep
      · exact Option.some.inj hstep ▸ h.goOn i _
      · cases hstep
  | recv i eof =>
      obtain @⟨fd, t, t', -, -, -⟩ := moves_of_recv hstep
      exact (h.call i fd).goOn i t'
  | send i =>
      obtain @⟨fd, t, t', -, -, -⟩ := moves_of_send hstep
      exact (h.call i fd).goOn i t'
  | close i =>
      obtain ⟨fd, -, rfl⟩ := close_of_step hstep
      exact h.close i fd

/-! ## Threads by their number -/

def Server.copyOf (s : Server) (i : Nat) : Option Nat := (s.threads[i]?).bind Thread.fd?

def Server.closedBy (s : Server) (i : Nat) : Option (Option Nat) :=
  (s.threads[i]?).bind Thread.closed?

theorem threads_goOn (ht : s.threads[i]? = some t) (t' : Thread) (j : Nat) :
    (s.goOn i t').threads[j]? = if j = i then some t' else s.threads[j]? := by
  have hlt := (List.getElem?_eq_some_iff.mp ht).1
  rw [Server.goOn, List.getElem?_set]
  by_cases heq : j = i
  · rw [if_pos heq, if_pos heq.symm, if_pos hlt]
  · rw [if_neg heq, if_neg (Ne.symm heq)]

theorem copyOf_goOn (ht : s.threads[i]? = some t) (t' : Thread) (j : Nat) :
    (s.goOn i t').copyOf j = if j = i then t'.fd? else s.copyOf j := by
  rw [Server.copyOf, threads_goOn ht, apply_ite (Option.bind · Thread.fd?)]
  rfl

theorem closedBy_goOn (ht : s.threads[i]? = some t) (t' : Thread) (j : Nat) :
    (s.goOn i t').closedBy j = if j = i then t'.closed? else s.closedBy j := by
  rw [Server.closedBy, threads_goOn ht, apply_ite (Option.bind · Thread.closed?)]
  rfl

/-- A thread that was just created has copied and closed nothing. -/
theorem bind_threads_create {α : Type} (f : Thread → Option α) (hf : f .created = none) (j : Nat) :
    (s.create.threads[j]?).bind f = (s.threads[j]?).bind f := by
  rw [Server.create, List.getElem?_append]
  split
  · rfl
  · rename_i hge
    rw [List.getElem?_eq_none (Nat.le_of_not_lt hge), List.getElem?_singleton]
    split
    · exact hf
    · rfl

theorem copyOf_lt (h : WellFormed s) (hcopy : s.copyOf i = some fd) : i < s.accepted.length := by
  obtain ⟨t, ht, -⟩ := Option.bind_eq_some_iff.mp hcopy
  exact Nat.lt_of_lt_of_le (List.getElem?_eq_some_iff.mp ht).1 h.length_le

/-! ## The hand-off -/

/-- Every thread holds the descriptor of its own connection and closes that;
    every call is by the thread of its connection; and a connection is open
    under its descriptor until its thread has closed it. -/
structure HandedOff (s : Server) : Prop where
  copies : ∀ i fd, s.copyOf i = some fd → s.table fd = some i
  closed : ∀ i c, s.closedBy i = some c → c = some i
  calls : ∀ call ∈ s.calls, call.2 = some call.1
  connections : ∀ i fd, s.accepted[i]? = some fd →
    s.table fd = some i ∨ s.closedBy i = some (some i)

theorem handedOff_init (clientfd : Nat) : HandedOff (.init clientfd) where
  copies := by simp [Server.init, Server.copyOf]
  closed := by simp [Server.init, Server.closedBy]
  calls := by simp [Server.init]
  connections := by simp [Server.init]

/-- A thread takes its first step while its connection is the last one that was
    accepted. -/
def StartsInTime (s : Server) : Event → Prop
  | .start i => i + 1 = s.accepted.length
  | _ => True

instance (s : Server) : (e : Event) → Decidable (StartsInTime s e)
  | .start i => inferInstanceAs (Decidable (i + 1 = s.accepted.length))
  | .accept _ | .create | .recv _ _ | .send _ | .close _ => .isTrue trivial

theorem handedOff_accept_iff (h : WellFormed s) (hfree : s.table fd = none) :
    HandedOff (s.accept fd) ↔ HandedOff s := by
  -- below the number of the new connection, the table says the same
  have htable : ∀ {i fd'}, i < s.accepted.length →
      ((s.accept fd).table fd' = some i ↔ s.table fd' = some i) := by
    intro i fd' hlt
    simp only [Server.accept, Function.update_apply]
    split
    · rename_i heq
      rw [heq, hfree, Option.some.injEq]
      exact iff_of_false (Nat.ne_of_gt hlt) (Option.some_ne_none _ ·.symm)
    · rfl
  constructor
  · intro hs
    refine ⟨fun i fd' hcopy => (htable (copyOf_lt h hcopy)).mp (hs.copies i fd' hcopy), hs.closed,
      hs.calls, fun i fd' hacc => ?_⟩
    have hlt := (List.getElem?_eq_some_iff.mp hacc).1
    exact (hs.connections i fd' ((List.getElem?_append_left hlt).trans hacc)).imp_left
      (htable hlt).mp
  · intro hs
    refine ⟨fun i fd' hcopy => (htable (copyOf_lt h hcopy)).mpr (hs.copies i fd' hcopy), hs.closed,
      hs.calls, fun i fd' hacc => ?_⟩
    simp only [Server.accept, List.getElem?_append] at hacc
    split at hacc
    · rename_i hlt
      exact (hs.connections i fd' hacc).imp_left (htable hlt).mpr
    · -- the new connection is open, its thread is not there yet
      rw [List.getElem?_singleton] at hacc
      split at hacc
      · obtain rfl := Option.some.inj hacc
        have heq : i = s.accepted.length := by omega
        exact .inl (heq ▸ Function.update_self ..)
      · cases hacc

/-- The hand-off does not depend on which threads were created but have not
    started, nor on what `main` does next. -/
theorem HandedOff.congr (hs : HandedOff s) (hcopy : ∀ i, s'.copyOf i = s.copyOf i)
    (hclosed : ∀ i, s'.closedBy i = s.closedBy i) (hcalls : s'.calls = s.calls)
    (htable : s'.table = s.table) (haccepted : s'.accepted = s.accepted) : HandedOff s' where
  copies i fd h := by
    rw [htable]
    exact hs.copies i fd ((hcopy i).symm.trans h)
  closed i c h := hs.closed i c ((hclosed i).symm.trans h)
  calls := by
    rw [hcalls]
    exact hs.calls
  connections i fd h := by
    rw [htable, hclosed]
    exact hs.connections i fd (haccepted ▸ h)

theorem handedOff_create_iff : HandedOff s.create ↔ HandedOff s := by
  have hcopy : ∀ i, s.create.copyOf i = s.copyOf i := bind_threads_create Thread.fd? rfl
  have hclosed : ∀ i, s.create.closedBy i = s.closedBy i := bind_threads_create Thread.closed? rfl
  exact ⟨fun hs => hs.congr (fun i => (hcopy i).symm) (fun i => (hclosed i).symm) rfl rfl rfl,
    fun hs => hs.congr hcopy hclosed rfl rfl rfl⟩

theorem handedOff_call_iff :
    HandedOff (s.call i fd) ↔ HandedOff s ∧ s.table fd = some i := by
  have hcalls : (∀ call ∈ (s.call i fd).calls, call.2 = some call.1) ↔
      (∀ call ∈ s.calls, call.2 = some call.1) ∧ s.table fd = some i := by
    simp [Server.call, or_imp, forall_and]
  constructor
  · intro hs
    obtain ⟨hbefore, hown⟩ := hcalls.mp hs.calls
    exact ⟨⟨hs.copies, hs.closed, hbefore, hs.connections⟩, hown⟩
  · rintro ⟨hs, hown⟩
    exact ⟨hs.copies, hs.closed, hcalls.mpr ⟨hs.calls, hown⟩, hs.connections⟩

theorem closed?_of_fd? (h : t.fd? = some fd) : t.closed? = none := by
  cases t with
  | returned c => cases h
  | created => rfl
  | receiving fd => rfl
  | sending fd => rfl
  | closing fd => rfl

/-- A thread that keeps its descriptor uses its own connection if it has it. -/
theorem handedOff_moves_iff (h : Moves s i s') : HandedOff s' ↔ HandedOff s := by
  obtain @⟨fd, t, t', ht, hfd, hfd'⟩ := h
  have hcalling : (s.call i fd).threads[i]? = some t := ht
  have hcopy : ∀ j, ((s.call i fd).goOn i t').copyOf j = (s.call i fd).copyOf j := by
    intro j
    rw [copyOf_goOn hcalling]
    split
    · rename_i heq
      rw [heq, hfd', ← hfd]
      exact (congrArg (Option.bind · Thread.fd?) ht).symm
    · rfl
  have hclosed : ∀ j, ((s.call i fd).goOn i t').closedBy j = (s.call i fd).closedBy j := by
    intro j
    rw [closedBy_goOn hcalling]
    split
    · rename_i heq
      rw [heq, closed?_of_fd? hfd', ← closed?_of_fd? hfd]
      exact (congrArg (Option.bind · Thread.closed?) ht).symm
    · rfl
  have hown : HandedOff s → s.table fd = some i := fun hs =>
    hs.copies i fd ((congrArg (Option.bind · Thread.fd?) ht).trans hfd)
  constructor
  · intro hs
    have hcall := hs.congr (fun j => (hcopy j).symm) (fun j => (hclosed j).symm) rfl rfl rfl
    exact (handedOff_call_iff.mp hcall).1
  · intro hs
    exact (handedOff_call_iff.mpr ⟨hs, hown hs⟩).congr hcopy hclosed rfl rfl rfl

/-- A thread that closes its own connection leaves the others. -/
theorem handedOff_close_iff (h : WellFormed s) (ht : s.threads[i]? = some (.closing fd)) :
    HandedOff (s.close i fd) ↔ HandedOff s := by
  have hold : s.copyOf i = some fd := congrArg (Option.bind · Thread.fd?) ht
  have hnew : s.closedBy i = none := congrArg (Option.bind · Thread.closed?) ht
  have hcopy : ∀ j, (s.close i fd).copyOf j = if j = i then none else s.copyOf j :=
    copyOf_goOn (s := s.call i fd) ht _
  have hclosed : ∀ j, (s.close i fd).closedBy j =
      if j = i then some (s.table fd) else s.closedBy j :=
    closedBy_goOn (s := s.call i fd) ht _
  have hcalls : (s.close i fd).calls = s.calls ++ [(i, s.table fd)] := rfl
  have htable : ∀ fd', (s.close i fd).table fd' = if fd' = fd then none else s.table fd' :=
    fun _ => Function.update_apply ..
  constructor
  · intro hs
    have hown : s.table fd = some i := hs.closed i _ ((hclosed i).trans (if_pos rfl))
    have hopen : ∀ {fd' j}, (s.close i fd).table fd' = some j → s.table fd' = some j := by
      intro fd' j hj
      rw [htable] at hj
      split at hj
      · cases hj
      · exact hj
    refine ⟨fun j fd' hj => ?_, fun j c hj => ?_, ?_, fun j fd' hj => ?_⟩
    · by_cases heq : j = i
      · obtain rfl : fd = fd' := Option.some.inj (hold.symm.trans (heq ▸ hj))
        rw [heq, hown]
      · exact hopen (hs.copies j fd' ((hcopy j).trans ((if_neg heq).trans hj)))
    · have hne : j ≠ i := by
        rintro rfl
        exact Option.some_ne_none _ (hj.symm.trans hnew)
      exact hs.closed j c ((hclosed j).trans ((if_neg hne).trans hj))
    · exact fun call hcall => hs.calls call (List.mem_append_left _ hcall)
    · by_cases heq : j = i
      · -- the connection that is closed now is still open under its descriptor
        have hacc := (h.table fd i hown).1
        obtain rfl : fd = fd' := Option.some.inj (hacc.symm.trans (heq ▸ hj))
        exact .inl (heq ▸ hown)
      · exact (hs.connections j fd' hj).imp hopen fun hj' => by
          rwa [hclosed, if_neg heq] at hj'
  · intro hs
    have hown : s.table fd = some i := hs.copies i fd hold
    refine ⟨fun j fd' hj => ?_, fun j c hj => ?_, ?_, fun j fd' hj => ?_⟩
    · -- no other thread has that descriptor, as it is the one of connection `i`
      rw [hcopy] at hj
      split at hj
      · cases hj
      · rename_i hne
        have htab := hs.copies j fd' hj
        rw [htable, if_neg, htab]
        rintro rfl
        exact hne (Option.some.inj (htab.symm.trans hown))
    · rw [hclosed] at hj
      split at hj
      · rename_i heq
        rw [heq, ← hown]
        exact (Option.some.inj hj).symm
      · exact hs.closed j c hj
    · exact (handedOff_call_iff.mpr ⟨hs, hown⟩).calls
    · rw [htable, hclosed]
      by_cases heq : j = i
      · rw [if_pos heq, heq, hown]
        exact .inr rfl
      · rw [if_neg heq]
        refine (hs.connections j fd' hj).imp_left fun hopen => ?_
        rw [if_neg, hopen]
        rintro rfl
        exact heq (Option.some.inj (hopen.symm.trans hown))

/-- What the variable holds is the descriptor of the last connection. -/
theorem WellFormed.clientfd_last (h : WellFormed s) (hlast : i + 1 = s.accepted.length) :
    s.accepted[i]? = some s.clientfd := by
  have hlt : i < s.accepted.length := by omega
  have hne : s.accepted ≠ [] := List.ne_nil_of_length_pos (by omega)
  have hget : s.accepted.getLast? = s.accepted[i]? := by
    rw [List.getLast?_eq_getElem?, ← hlast, Nat.add_sub_cancel]
  have hsome := List.getElem?_eq_getElem hlt
  rw [hsome, h.clientfd _ (hget.trans hsome)]

/-- The first step of a thread. -/
theorem handedOff_start_iff (h : WellFormed s) (ht : s.threads[i]? = some .created) :
    HandedOff (s.goOn i (.receiving s.clientfd)) ↔
      HandedOff s ∧ i + 1 = s.accepted.length := by
  have hold : s.copyOf i = none := congrArg (Option.bind · Thread.fd?) ht
  have hopen : s.closedBy i = none := congrArg (Option.bind · Thread.closed?) ht
  have hcopy := copyOf_goOn ht (.receiving s.clientfd)
  have hclosed : ∀ j, (s.goOn i (.receiving s.clientfd)).closedBy j = s.closedBy j := by
    intro j
    rw [closedBy_goOn ht]
    split
    · rename_i heq
      exact heq ▸ hopen.symm
    · rfl
  have hlt : i < s.accepted.length :=
    Nat.lt_of_lt_of_le (List.getElem?_eq_some_iff.mp ht).1 h.length_le
  constructor
  · intro hs
    refine ⟨⟨fun j fd hj => ?_, fun j c hj => hs.closed j c ((hclosed j).trans hj), hs.calls,
      fun j fd hj => (hs.connections j fd hj).imp_right ((hclosed j).symm.trans ·)⟩, ?_⟩
    · have hne : j ≠ i := by
        rintro rfl
        exact Option.some_ne_none _ (hj.symm.trans hold)
      exact hs.copies j fd ((hcopy j).trans ((if_neg hne).trans hj))
    · -- a connection accepted later has a descriptor of its own
      have hown : s.table s.clientfd = some i := hs.copies i _ ((hcopy i).trans (if_pos rfl))
      by_contra hlate
      have hlast : s.accepted.length - 1 + 1 = s.accepted.length := by omega
      exact (h.table _ i hown).2 _ (by omega) (h.clientfd_last hlast)
  · rintro ⟨hs, hlast⟩
    -- nobody has closed the connection, its own thread has not started
    have hown : s.table s.clientfd = some i :=
      (hs.connections i _ (h.clientfd_last hlast)).resolve_right fun hret =>
        Option.some_ne_none _ (hret.symm.trans hopen)
    refine ⟨fun j fd hj => ?_, fun j c hj => hs.closed j c ((hclosed j).symm.trans hj), hs.calls,
      fun j fd hj => (hs.connections j fd hj).imp_right ((hclosed j).trans ·)⟩
    rw [hcopy] at hj
    split at hj
    · rename_i heq
      obtain rfl := Option.some.inj hj
      exact heq ▸ hown
    · exact hs.copies j fd hj

/-- What a step does to the hand-off. -/
theorem handedOff_step_iff {e : Event} (h : WellFormed s) (hstep : step s e = some s') :
    HandedOff s' ↔ HandedOff s ∧ StartsInTime s e := by
  cases e with
  | accept fd =>
      simp only [step] at hstep
      split at hstep
      · rename_i hguard
        obtain rfl := Option.some.inj hstep
        exact (handedOff_accept_iff h hguard.2).trans (and_iff_left trivial).symm
      · cases hstep
  | create =>
      simp only [step] at hstep
      split at hstep
      · obtain rfl := Option.some.inj hstep
        exact handedOff_create_iff.trans (and_iff_left trivial).symm
      · cases hstep
  | start i =>
      simp only [step] at hstep
      split at hstep
      · rename_i ht
        obtain rfl := Option.some.inj hstep
        exact handedOff_start_iff h ht
      · cases hstep
  | recv i eof =>
      exact (handedOff_moves_iff (moves_of_recv hstep)).trans (and_iff_left trivial).symm
  | send i =>
      exact (handedOff_moves_iff (moves_of_send hstep)).trans (and_iff_left trivial).symm
  | close i =>
      obtain ⟨fd, ht, rfl⟩ := close_of_step hstep
      exact (handedOff_close_iff h ht).trans (and_iff_left trivial).symm

theorem wellFormed_of_run {clientfd : Nat} {hist : List (Event × Unit)}
    (hrun : Run (MovesOf step) (.init clientfd) hist s) : WellFormed s :=
  hrun.invariant (P := fun _ => WellFormed) (wellFormed_init clientfd)
    fun _ _ _ _ _ h hstep => h.step hstep

/-- In every run there is a thread for each connection, but for one that `main`
    is about to create; and a run hands every connection to its thread just if
    all threads start in time. -/
theorem hand_off_iff {clientfd : Nat} {hist : List (Event × Unit)}
    (hrun : Run (MovesOf step) (.init clientfd) hist s) :
    s.threads.length + (if s.pc = .creating then 1 else 0) = s.accepted.length ∧
      (HandedOff s ↔ Run (Guarded StartsInTime (MovesOf step)) (.init clientfd) hist s) :=
  ⟨(wellFormed_of_run hrun).count,
    hrun.iff_guarded (wellFormed_init clientfd) (handedOff_init clientfd)
      (fun _ _ _ _ h hstep => h.step hstep) fun _ _ _ _ h hstep => handedOff_step_iff h hstep⟩

/-- Two clients that are there at the same time, each served by its own thread,
    which starts before the next client is accepted. -/
theorem hand_off_of_two_clients : ∃ hist s,
    Run (Guarded StartsInTime (MovesOf step)) (.init 0) hist s ∧
      s.threads = [.returned (some 0), .returned (some 1)] ∧ HandedOff s ∧
      (s.threads.length + (if s.pc = .creating then 1 else 0) = s.accepted.length ∧
        (HandedOff s ↔ Run (Guarded StartsInTime (MovesOf step)) (.init 0) hist s)) := by
  have hmoves : movesTo (guardMove StartsInTime step) (.init 0) [.accept 4, .create, .start 0,
      .accept 5, .create, .start 1, .recv 1 false, .recv 0 false, .send 0, .send 1, .recv 0 true,
      .recv 1 true, .close 1, .close 0]
      (fun s => s.threads == [.returned (some 0), .returned (some 1)]) = true := by decide
  obtain ⟨s, hguarded, hthreads⟩ := guarded_of_movesTo hmoves
  have hiff := hand_off_iff hguarded.of_guarded
  exact ⟨_, s, hguarded, eq_of_beq hthreads, hiff.2.mpr hguarded, hiff⟩

/-- Two clients that come one behind the other, before the first thread runs:
    it reads the descriptor of the second. -/
theorem second_client_taken : ∃ hist s, Run (MovesOf step) (.init 0) hist s ∧ ¬ HandedOff s := by
  have hmoves : movesTo step (.init 0) [.accept 4, .create, .accept 5, .create, .start 0, .start 1]
      (fun s => s.copyOf 0 == some 5 && s.table 5 == some 1) = true := by decide
  obtain ⟨s, hrun, hs⟩ := run_of_movesTo hmoves
  simp only [Bool.and_eq_true, beq_iff_eq] at hs
  refine ⟨_, s, hrun, fun hand => ?_⟩
  have hown := hand.copies 0 5 hs.1
  rw [hs.2] at hown
  cases hown

end LinuxLearning.ThreadServer
