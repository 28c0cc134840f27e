/-
  LinuxLearning.TcpServer.UnreadData

  Data that nothing will be reported of.  A report is answered with one `recv`
  of at most 1024 bytes: as long as a client never has more when it is read,
  or something arrives between its report and its turn, each client has an
  empty queue or a report pending whenever the loop comes to `epoll_wait`.
-/

import LinuxLearning.TcpServer.EventLoop

namespace LinuxLearning.TcpServer

open Lib

variable {p : Program} {s s' : Server} {e : Event} {fd : Fd} {c : Client}

/-! ## Clients that are taken care of -/

/-- There is nothing to read, or a report is pending. -/
def Client.Covered (c : Client) : Prop := c.queue = 0 ∨ c.pending = true

instance (c : Client) : Decidable c.Covered := inferInstanceAs (Decidable (_ ∨ _))

/-- Whenever the loop is about to call `epoll_wait`, this is so of each client
    that is open. -/
def NothingLeft (s : Server) : Prop :=
  s.events = [] → ∀ fd c, s.clients fd = some c → c.Covered

/-- At its turn, a client has no more than one `recv` takes, or a new report
    pending. -/
def TakesAll (s : Server) : Event → Prop
  | .recv => ∀ fd ∈ s.events.head?, ∀ c ∈ s.clients fd,
      c.queue ≤ bufferSize ∨ c.pending = true
  | _ => True

instance : ∀ (s : Server) (e : Event), Decidable (TakesAll s e)
  | s, .recv => inferInstanceAs (Decidable (∀ fd ∈ s.events.head?, ∀ c ∈ s.clients fd, _ ∨ _))
  | _, .arrive .. => inferInstanceAs (Decidable True)
  | _, .finish .. => inferInstanceAs (Decidable True)
  | _, .epollWait _ => inferInstanceAs (Decidable True)
  | _, .accept _ => inferInstanceAs (Decidable True)

/-- The condition is about the client whose turn it is. -/
theorem takesAll_recv_iff {events : List Fd} (hevents : s.events = fd :: events)
    (hc : s.clients fd = some c) :
    TakesAll s .recv ↔ c.queue ≤ bufferSize ∨ c.pending = true := by
  simp [TakesAll, hevents, hc]

/-- Between two calls of `epoll_wait`, a client may also have its turn before
    it. -/
structure Tended (s : Server) : Prop where
  client : ∀ {fd c}, s.clients fd = some c → fd ∈ s.events ∨ c.Covered
  listening : ∀ fd ∈ s.listening, s.clients fd = none

theorem covered_registered (queue : Nat) (ending : Option Ending) :
    (Client.registered queue ending).Covered := by
  rcases Nat.eq_zero_or_pos queue with hzero | hpos
  · exact .inl hzero
  · exact .inr (by simp [Client.registered, hpos])

theorem tended_start (listening : List Fd) (accepted : Fd → Option (Nat × Option Ending)) :
    Tended (.start listening accepted) where
  client {fd c} hc := by
    simp only [Server.start] at hc
    split at hc
    · cases hc
    · obtain ⟨conn, -, rfl⟩ := Option.map_eq_some_iff.mp hc
      exact .inr (covered_registered _ _)
  listening fd hfd := if_pos hfd

theorem Tended.nothingLeft (h : Tended s) : NothingLeft s := by
  intro hevents fd c hc
  rcases h.client hc with hmem | hcovered
  · rw [hevents] at hmem
    cases hmem
  · exact hcovered

/-! ## Steps -/

theorem clients_setClient_of_ne {fd' : Fd} (h : fd' ≠ fd) :
    (s.setClient fd c).clients fd' = s.clients fd' := Function.update_of_ne h ..

theorem clients_setClient_self : (s.setClient fd c).clients fd = some c :=
  Function.update_self ..

/-- A client that changes is not a listening descriptor. -/
theorem Tended.notMem (h : Tended s) (hc : s.clients fd = some c) : fd ∉ s.listening :=
  fun hmem => by
    rw [h.listening fd hmem] at hc
    cases hc

/-- Putting a client where there was one, or where there may be one. -/
theorem Tended.setClient {events : List Fd} (h : Tended s) (hfd : fd ∉ s.listening)
    (hothers : ∀ fd' ∈ s.events, fd' ≠ fd → s.clients fd' ≠ none → fd' ∈ events)
    (hc : fd ∈ events ∨ c.Covered) : Tended { s.setClient fd c with events := events } where
  client {fd' c'} hc' := by
    by_cases heq : fd' = fd
    · subst heq
      obtain rfl := Option.some.inj (clients_setClient_self.symm.trans hc')
      exact hc
    · have hold : s.clients fd' = some c' := (clients_setClient_of_ne heq).symm.trans hc'
      exact (h.client hold).imp_left fun hmem => hothers fd' hmem heq (by rw [hold]; simp)
  listening fd' hfd' := by
    have hne : fd' ≠ fd := ne_of_mem_of_not_mem hfd' hfd
    exact (clients_setClient_of_ne hne).trans (h.listening fd' hfd')

/-- The event of a descriptor is dropped that is no client any more. -/
theorem Tended.drop {events : List Fd} (h : Tended s) (hevents : s.events = fd :: events)
    (hnone : s.clients fd = none) : Tended { s with events := events } where
  client {fd' c'} hc' := by
    refine (h.client hc').imp_left fun hmem => ?_
    rw [hevents] at hmem
    rcases List.mem_cons.mp hmem with rfl | hmem
    · rw [hnone] at hc'
      cases hc'
    · exact hmem
  listening := h.listening

/-- The events behind the one of `fd`. -/
theorem mem_of_mem_of_ne {events : List Fd} (hevents : s.events = fd :: events) {fd' : Fd}
    (hmem : fd' ∈ s.events) (hne : fd' ≠ fd) : fd' ∈ events := by
  rw [hevents] at hmem
  exact (List.mem_cons.mp hmem).resolve_left hne

/-- Each step keeps the clients tended, if the client whose turn it is has no
    more than is read. -/
theorem Move.tended (hmove : Move p s e s') (h : Tended s) (htakes : TakesAll s e) :
    Tended s' := by
  cases hmove with
  | arrive hc _ _ => exact h.setClient (h.notMem hc) (fun _ hmem _ _ => hmem) (.inr (.inr rfl))
  | finish hc _ => exact h.setClient (h.notMem hc) (fun _ hmem _ _ => hmem) (.inr (.inr rfl))
  | @report ready hevents _ _ _ =>
      refine ⟨fun {fd c} hc => ?_, fun fd hfd => ?_⟩
      · by_cases hmem : fd ∈ ready
        · exact .inl hmem
        · have hsame : (s.report ready).clients fd = s.clients fd := if_neg hmem
          exact .inr (h.nothingLeft hevents fd c (hsame.symm.trans hc))
      · simp only [Server.report, h.listening fd hfd]
        exact ite_self _
  | acceptFails hevents hlistening => exact h.drop hevents (h.listening _ hlistening)
  -- a client that is registered is reported for the data it has
  | accept hevents hlistening hfree hnone =>
      refine h.setClient hfree (fun fd' hmem _ hsome => ?_) (.inr (covered_registered _ _))
      refine mem_of_mem_of_ne hevents hmem ?_
      rintro rfl
      exact hsome (h.listening _ hlistening)
  | gone hevents _ hnone => exact h.drop hevents hnone
  | @recv fd events c hevents hclient hc _ =>
      refine h.setClient hclient (fun fd' hmem hne _ => mem_of_mem_of_ne hevents hmem hne)
        (.inr ?_)
      rcases (takesAll_recv_iff hevents hc).mp htakes with hle | hpending
      · exact .inl (Nat.sub_eq_zero_of_le hle)
      · exact .inr hpending
  | @close fd events c hevents hclient hc _ _ =>
      refine ⟨fun {fd' c'} hc' => ?_, fun fd' hfd' => ?_⟩
      · have hne : fd' ≠ fd := by
          rintro rfl
          have hnone : (s.closeClient fd').clients fd' = none := Function.update_self ..
          exact Option.some_ne_none _ (hc'.symm.trans hnone)
        have hold : s.clients fd' = some c' := (Function.update_of_ne hne ..).symm.trans hc'
        exact (h.client hold).imp_left fun hmem => mem_of_mem_of_ne hevents hmem hne
      · have hne : fd' ≠ fd := ne_of_mem_of_not_mem hfd' hclient
        exact (Function.update_of_ne hne ..).trans (h.listening fd' hfd')

/-- In every run in which no client has more to read at its turn than one
    `recv` takes, or has a new report pending then, no data is left without a
    report. -/
theorem nothingLeft_of_takesAll (p : Program) (listening : List Fd)
    (accepted : Fd → Option (Nat × Option Ending)) {hist : List (Event × Unit)} {s : Server}
    (hrun : Run (Guarded TakesAll (MovesOf (step p))) (.start listening accepted) hist s) :
    NothingLeft s := by
  have htended : Tended s := hrun.invariant (P := fun _ => Tended)
    (tended_start listening accepted) fun _ _ _ _ _ h hstep =>
      (move_of_step hstep.2).tended h hstep.1
  exact htended.nothingLeft

/-- Two messages, one of which arrives between the report and the turn of the
    client. -/
def messages : List Event :=
  [.epollWait [3], .accept (some (4, 0, none)), .arrive 4 1000, .epollWait [4], .arrive 4 500,
    .recv, .epollWait [4], .recv]

theorem nothingLeft_of_messages :
    ∃ s, Run (Guarded TakesAll (MovesOf (step .tcpSer))) (.start [3] fun _ => none)
      (messages.map (·, ())) s ∧ NothingLeft s := by
  obtain ⟨s, hrun, -⟩ := guarded_of_movesTo (C := TakesAll) (f := step .tcpSer)
    (s := .start [3] fun _ => none) (l := messages) (P := fun _ => true) (by decide)
  exact ⟨s, hrun, nothingLeft_of_takesAll .tcpSer [3] (fun _ => none) hrun⟩

/-- A client sends 2000 bytes before its turn. -/
def longMessage : List Event :=
  [.epollWait [3], .accept (some (4, 0, none)), .arrive 4 2000, .epollWait [4], .recv]

/-- 976 of them are left when the loop comes to `epoll_wait`. -/
theorem longMessage_leaves_data :
    ∃ s, Run (MovesOf (step .tcpSer)) (.start [3] fun _ => none) (longMessage.map (·, ())) s ∧
      ¬ NothingLeft s := by
  obtain ⟨s, hrun, hleft⟩ := run_of_movesTo (f := step .tcpSer) (s := .start [3] fun _ => none)
    (l := longMessage) (P := fun s => s.events = [] ∧ s.clients 4 = some ⟨976, none, false⟩)
    (by decide)
  obtain ⟨hevents, hclient⟩ := of_decide_eq_true hleft
  exact ⟨s, hrun, fun h => absurd (h hevents 4 _ hclient) (by decide)⟩

/-! ## No weaker condition -/

/-- Each descriptor is reported once, and a client whose turn is to come can be
    read. -/
structure Served (s : Server) : Prop where
  nodup : s.events.Nodup
  readable : ∀ fd ∈ s.events, fd ∉ s.listening → ∃ c, s.clients fd = some c ∧ c.readable = true

theorem Served.tail {s s' : Server} {events : List Fd} (h : Served s)
    (hevents : s.events = fd :: events) (hevents' : s'.events = events)
    (hlistening : s'.listening = s.listening)
    (hsame : ∀ fd' ∈ events, fd' ∉ s.listening → s'.clients fd' = s.clients fd') : Served s' where
  nodup := by
    rw [hevents']
    exact (hevents ▸ h.nodup).of_cons
  readable fd' hfd' hclient := by
    rw [hevents'] at hfd'
    rw [hlistening] at hclient
    rw [hsame fd' hfd' hclient]
    exact h.readable fd' (hevents ▸ List.mem_cons_of_mem _ hfd') hclient

/-- Something arrives for a client. -/
theorem Served.setClient (h : Served s) (hc : c.readable = true) : Served (s.setClient fd c) where
  nodup := h.nodup
  readable fd' hfd' hclient := by
    by_cases heq : fd' = fd
    · subst heq
      exact ⟨c, clients_setClient_self, hc⟩
    · rw [clients_setClient_of_ne heq]
      exact h.readable fd' hfd' hclient

/-- The turn of a descriptor changes at most its own client, or one that has
    no event. -/
theorem Move.served (hmove : Move p s e s') (h : Served s) : Served s' := by
  cases hmove with
  | arrive hc hn _ => exact h.setClient (by simp [Client.readable]; omega)
  | finish hc _ => exact h.setClient (by simp [Client.readable])
  | @report ready hevents hnodup _ hall =>
      refine ⟨hnodup, fun fd hfd hclient => ?_⟩
      have hnotListening : fd ∉ s.listening := hclient
      have hreport := hall fd hfd
      cases hc : s.clients fd with
      | none => simp [Server.reportable, hnotListening, hc] at hreport
      | some c =>
          have hready : c.pending = true ∧ c.readable = true := by
            simpa [Server.reportable, hnotListening, hc] using hreport
          refine ⟨{ c with pending := false }, ?_, hready.2⟩
          have hmem : fd ∈ ready := hfd
          simp [Server.report, hmem, hc]
  | acceptFails hevents _ => exact h.tail hevents rfl rfl fun _ _ _ => rfl
  | accept hevents hlistening hfree hnone =>
      refine h.tail hevents rfl rfl fun fd' hfd' hclient => clients_setClient_of_ne ?_
      rintro rfl
      obtain ⟨c, hc, -⟩ := h.readable _ (hevents ▸ List.mem_cons_of_mem _ hfd') hclient
      rw [hnone] at hc
      cases hc
  | gone hevents _ _ => exact h.tail hevents rfl rfl fun _ _ _ => rfl
  | @recv fd events c hevents _ _ _ =>
      have hnotMem : fd ∉ events := (List.nodup_cons.mp (hevents ▸ h.nodup)).1
      exact h.tail hevents rfl rfl fun fd' hfd' _ =>
        clients_setClient_of_ne (ne_of_mem_of_not_mem hfd' hnotMem)
  | @close fd events c hevents _ _ _ _ =>
      have hnotMem : fd ∉ events := (List.nodup_cons.mp (hevents ▸ h.nodup)).1
      exact h.tail hevents rfl rfl fun fd' hfd' _ =>
        Function.update_of_ne (ne_of_mem_of_not_mem hfd' hnotMem) ..

theorem served_start (listening : List Fd) (accepted : Fd → Option (Nat × Option Ending)) :
    Served (.start listening accepted) where
  nodup := List.nodup_nil
  readable _ hfd := absurd hfd List.not_mem_nil

/-- A turn of the loop can always be taken, and leaves the other clients. -/
theorem Served.exists_turn {events : List Fd} (h : Served s) (hevents : s.events = fd :: events) :
    ∃ e s', step p s e = some s' ∧ s'.events = events ∧
      ∀ fd' ≠ fd, s'.clients fd' = s.clients fd' := by
  by_cases hlistening : fd ∈ s.listening
  · obtain ⟨sockfd, hsockfd⟩ : ∃ sockfd, p.acceptFd s.listening fd = some sockfd :=
      Option.ne_none_iff_exists'.mp fun hnone => acceptFd_eq_none_iff.mp hnone hlistening
    refine ⟨.accept none, { s with events := events }, ?_, rfl, fun _ _ => rfl⟩
    simp only [step, hevents, hsockfd]
  · have hclient : p.acceptFd s.listening fd = none := acceptFd_eq_none_iff.mpr hlistening
    obtain ⟨c, hc, hreadable⟩ := h.readable fd (hevents ▸ List.mem_cons_self) hlistening
    obtain ⟨len, hlen⟩ : ∃ len, c.recv = some len := by
      unfold Client.recv
      split
      · exact ⟨_, rfl⟩
      · rename_i hzero
        have hending : c.ending.isSome = true := by simpa [Client.readable, hzero] using hreadable
        obtain ⟨ending, heq⟩ := Option.isSome_iff_exists.mp hending
        cases ending <;> simp [heq]
    refine ⟨.recv, { s.received fd c len with events := events }, ?_, rfl, fun fd' hne => ?_⟩
    · simp only [step, hevents, hclient, hc, hlen, Option.map_some]
    · unfold Server.received
      split_ifs
      · exact Function.update_of_ne hne ..
      · exact Function.update_of_ne hne ..
      · exact clients_setClient_of_ne hne

/-- The loop comes to its next `epoll_wait`, and leaves the clients that it has
    no event of. -/
theorem Served.exists_run {events : List Fd} (h : Served s) (hevents : s.events = events) :
    ∃ hist s', Run (MovesOf (step p)) s hist s' ∧ s'.events = [] ∧
      ∀ fd' ∉ events, s'.clients fd' = s.clients fd' := by
  induction events generalizing s with
  | nil => exact ⟨[], s, .start, hevents, fun _ _ => rfl⟩
  | cons fd events ih =>
      obtain ⟨e, s₁, hstep, hevents₁, hsame₁⟩ := h.exists_turn (p := p) hevents
      obtain ⟨hist, s', hrun, hwait, hsame⟩ := ih ((move_of_step hstep).served h) hevents₁
      refine ⟨_, s', Run.append (.step .start (o := ()) hstep) hrun, hwait, fun fd' hfd' => ?_⟩
      obtain ⟨hne, hnotMem⟩ := not_or.mp (List.mem_cons.not.mp hfd')
      exact (hsame fd' hnotMem).trans (hsame₁ fd' hne)

/-- A turn that does not meet the condition leaves data without a report, as
    soon as the loop has come to `epoll_wait` before anything else arrives. -/
theorem exists_left_of_not_takesAll {listening : List Fd}
    {accepted : Fd → Option (Nat × Option Ending)} {hist : List (Event × Unit)}
    (hrun : Run (MovesOf (step p)) (.start listening accepted) hist s)
    (hstep : step p s e = some s') (htakes : ¬ TakesAll s e) :
    ∃ hist' s'', Run (MovesOf (step p)) s' hist' s'' ∧ ¬ NothingLeft s'' := by
  have hserved : Served s := hrun.invariant (P := fun _ => Served)
    (served_start listening accepted) fun _ _ _ _ _ h hstep => (move_of_step hstep).served h
  have hmove := move_of_step hstep
  have hserved' : Served s' := hmove.served hserved
  cases hmove with
  | arrive => exact absurd trivial htakes
  | finish => exact absurd trivial htakes
  | report => exact absurd trivial htakes
  | acceptFails => exact absurd trivial htakes
  | accept => exact absurd trivial htakes
  | gone hevents _ hnone => exact absurd (by simp [TakesAll, hevents, hnone]) htakes
  | close hevents _ hc hzero _ =>
      refine absurd ((takesAll_recv_iff hevents hc).mpr (.inl ?_)) htakes
      rw [hzero]
      exact Nat.zero_le _
  | @recv fd events c hevents _ hc _ =>
      rw [takesAll_recv_iff hevents hc] at htakes
      -- what this turn leaves is still there when the loop is back
      obtain ⟨hlong, hpending⟩ := not_or.mp htakes
      obtain ⟨hist', s'', hrun', hwait, hsame⟩ := hserved'.exists_run (p := p) rfl
      have hnotMem : fd ∉ events := (List.nodup_cons.mp (hevents ▸ hserved.nodup)).1
      have hclient := (hsame fd hnotMem).trans clients_setClient_self
      refine ⟨hist', s'', hrun', fun h => ?_⟩
      rcases h hwait fd _ hclient with hzero | hreport
      · exact Nat.sub_ne_zero_of_lt (Nat.lt_of_not_le hlong) hzero
      · exact hpending hreport

end LinuxLearning.TcpServer
