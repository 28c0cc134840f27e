/-
  LinuxLearning.Reactor.ResponseOrder

  What stands on a connection while the kernel takes whatever it is given and
  `index.html` stays as it is: one complete response for each request that was
  answered, and the header of the one that is under way.
-/

import LinuxLearning.Reactor.Conversation

namespace LinuxLearning.Reactor

open Lib

/-! ## What happened since the connection was accepted -/

/-- The events of a descriptor since it was last accepted. -/
def sinceAccept (own : List Own) : List Own := (own.reverse.takeWhile (· ≠ .accepted)).reverse

theorem sinceAccept_snoc (own : List Own) {x : Own} (hx : x ≠ .accepted) :
    sinceAccept (own ++ [x]) = sinceAccept own ++ [x] := by
  simp [sinceAccept, hx]

theorem sinceAccept_accepted (own : List Own) : sinceAccept (own ++ [.accepted]) = [] := by
  simp [sinceAccept]

/-- What was there before the connection does not matter. -/
theorem conversation_sinceAccept (own : List Own) :
    conversation (sinceAccept own) = conversation own := by
  induction own using List.reverseRecOn with
  | nil => rfl
  | append_singleton own x ih =>
      by_cases hx : x = .accepted
      · subst hx
        rw [sinceAccept_accepted, conversation_append]
        rfl
      · rw [sinceAccept_snoc own hx, conversation_append, conversation_append, ih]

/-- The calls of `recv` that returned data since the connection was
    accepted. -/
def reads (own : List Own) : Nat :=
  (sinceAccept own).countP fun x => x matches .received _

/-- The requests of a conversation. -/
def Client.requests (c : Client) : Nat :=
  c.rounds.length + if c.phase = .reading then 0 else 1

/-- Each call of `recv` that returned data began a round. -/
theorem reads_snoc {own : List Own} {x : Own} (hx : x.Allowed (conversation own).phase)
    (h : reads own = (conversation own).requests) :
    reads (own ++ [x]) = (conversation (own ++ [x])).requests := by
  rw [conversation_append]
  unfold reads at h ⊢
  cases x with
  | accepted => simp [sinceAccept_accepted, Client.next, Client.fresh, Client.requests]
  | received request =>
      have hreading : (conversation own).phase = .reading := hx
      rw [sinceAccept_snoc own (by simp), List.countP_append, h]
      simp [Client.next, Client.requests, hreading]
  | hungUp =>
      rw [sinceAccept_snoc own (by simp), List.countP_append, h]
      simp [Client.next]
  | responded a =>
      have hdue : (conversation own).phase ≠ .reading := hx
      rw [sinceAccept_snoc own (by simp), List.countP_append, h]
      cases hphase : (conversation own).phase with
      | reading => exact absurd hphase hdue
      | headerDue request => simp [Client.next, Client.requests, hphase]
      | bodyDue request first => simp [Client.next, Client.requests, hphase]

theorem reads_of_run {listeners : List Fd} {hist : List (EpollEvent × List (Fd × Own))}
    {s : Server} (hrun : Run EventStep (start listeners) hist s) (k : Fd) :
    reads (ownEvents hist k) = (conversation (ownEvents hist k)).requests := by
  have hguarded : Run (Guarded (fun _ _ => True) EventStep) (start listeners) hist s :=
    hrun.mono fun _ _ _ _ h => ⟨trivial, h⟩
  exact own_invariant (C := fun _ _ => True) (Q := fun _ => True) (fun _ _ _ _ => trivial)
    (P := fun own => reads own = (conversation own).requests) rfl
    (fun own x h hallowed _ => reads_snoc hallowed h) hguarded k

/-! ## An undisturbed server -/

/-- The answers while `index.html` holds `file`, and `send` and `sendfile` take
    whatever they are given. -/
structure Undisturbed (file : List UInt8) (a : SendAnswers) : Prop where
  file_eq : a.file = file
  size_eq : a.stSize.toInt = file.length
  send_all : transferred a.send (header file.length) = header file.length
  sendfile_all : transferred a.sendfile file = file

instance (file : List UInt8) (a : SendAnswers) : Decidable (Undisturbed file a) :=
  decidable_of_iff (a.file = file ∧ a.stSize.toInt = file.length ∧
      transferred a.send (header file.length) = header file.length ∧
      transferred a.sendfile file = file)
    ⟨fun h => ⟨h.1, h.2.1, h.2.2.1, h.2.2.2⟩,
      fun h => ⟨h.file_eq, h.size_eq, h.send_all, h.sendfile_all⟩⟩

/-- The steps of an undisturbed server. -/
abbrev UndisturbedStep (file : List UInt8) : StepRel Server EpollEvent (List (Fd × Own)) :=
  Guarded (fun _ e => e.epollout = true → Undisturbed file e.answers.response) EventStep

/-- A complete response. -/
def response (file : List UInt8) : List UInt8 := header file.length ++ file

/-- Complete responses, one behind the other. -/
def responses (file : List UInt8) (n : Nat) : List UInt8 :=
  (List.replicate n (response file)).flatten

/-- The bytes of a list of writes. -/
def bytesOf (ws : List Write) : List UInt8 := ws.flatMap Write.bytes

/-- The bytes on a connection. -/
def Server.bytes (s : Server) (fd : Fd) : List UInt8 := bytesOf (s.written fd)

variable {file : List UInt8} {a : SendAnswers}

theorem Undisturbed.headerWrite (h : Undisturbed file a) :
    a.headerWrite = .send (header file.length) := by
  rw [SendAnswers.headerWrite, h.size_eq, h.send_all]

theorem Undisturbed.bodyWrite (h : Undisturbed file a) : a.bodyWrite = .sendfile file := by
  have hsize : a.stSize.toNat = file.length := by
    have := h.size_eq
    have hlt := a.stSize.isLt
    rw [BitVec.toInt_eq_toNat_cond] at this
    split at this <;> omega
  rw [SendAnswers.bodyWrite, h.file_eq, hsize, List.take_length, h.sendfile_all]

/-- Every answer in the conversation is one of an undisturbed server. -/
def Client.AllUndisturbed (file : List UInt8) (c : Client) : Prop :=
  (∀ r ∈ c.rounds, Undisturbed file r.first ∧ Undisturbed file r.second) ∧
  ∀ request first, c.phase = .bodyDue request first → Undisturbed file first

theorem Client.AllUndisturbed.next {c : Client} {x : Own} (hc : c.AllUndisturbed file)
    (hx : ∀ a, x = .responded a → Undisturbed file a) : (c.next x).AllUndisturbed file := by
  obtain ⟨hrounds, hphase⟩ := hc
  cases x with
  | accepted => exact ⟨by simp [Client.next, Client.fresh], by simp [Client.next, Client.fresh]⟩
  | received request => exact ⟨hrounds, by simp [Client.next]⟩
  | hungUp => exact ⟨hrounds, hphase⟩
  | responded a =>
      have ha := hx a rfl
      cases hp : c.phase with
      | reading =>
          rw [show c.next (.responded a) = c by simp [Client.next, hp]]
          exact ⟨hrounds, hphase⟩
      | headerDue request =>
          refine ⟨by simpa [Client.next, hp] using hrounds, fun request' first h => ?_⟩
          obtain ⟨-, rfl⟩ : request = request' ∧ a = first := by simpa [Client.next, hp] using h
          exact ha
      | bodyDue request first =>
          refine ⟨fun r hr => ?_, fun request' first' h => by simp [Client.next, hp] at h⟩
          simp only [Client.next, hp, List.mem_append, List.mem_singleton] at hr
          rcases hr with hr | rfl
          · exact hrounds r hr
          · exact ⟨hphase request first hp, ha⟩

theorem undisturbed_of_run {listeners : List Fd} {hist : List (EpollEvent × List (Fd × Own))}
    {s : Server} (hrun : Run (UndisturbedStep file) (start listeners) hist s) (k : Fd) :
    (conversation (ownEvents hist k)).AllUndisturbed file := by
  refine own_invariant (Q := Undisturbed file) (fun _ _ h => h)
    (P := fun own => (conversation own).AllUndisturbed file) ⟨by simp [conversation, Client.fresh],
      by simp [conversation, Client.fresh]⟩ (fun own x h _ hx => ?_) hrun k
  rw [conversation_append]
  exact h.next hx

theorem responses_succ (file : List UInt8) (n : Nat) :
    responses file (n + 1) = response file ++ responses file n := by
  simp [responses, List.replicate_succ]

theorem bytesOf_append (ws ws' : List Write) : bytesOf (ws ++ ws') = bytesOf ws ++ bytesOf ws' :=
  List.flatMap_append ..

/-- The bytes of the rounds of an undisturbed conversation. -/
theorem bytesOf_rounds {rounds : List Round}
    (h : ∀ r ∈ rounds, Undisturbed file r.first ∧ Undisturbed file r.second) :
    bytesOf (rounds.flatMap Round.writes) = responses file rounds.length := by
  induction rounds with
  | nil => rfl
  | cons r rounds ih =>
      rw [List.forall_mem_cons] at h
      rw [List.flatMap_cons, bytesOf_append, ih h.2, List.length_cons, responses_succ]
      simp [Round.writes, h.1.1.headerWrite, h.1.2.bodyWrite, bytesOf, Write.bytes, response]

/-- The three things that can stand on a connection. -/
theorem Client.AllUndisturbed.bytes {c : Client} (h : c.AllUndisturbed file) :
    (c.phase = .reading ∧ bytesOf c.writes = responses file c.requests) ∨
    (c.phase ≠ .reading ∧ 0 < c.requests ∧
      (bytesOf c.writes = responses file (c.requests - 1) ∨
        bytesOf c.writes = responses file (c.requests - 1) ++ header file.length)) := by
  obtain ⟨hrounds, hphase⟩ := h
  rw [Client.writes, bytesOf_append, bytesOf_rounds hrounds]
  cases hp : c.phase with
  | reading => simp [Client.requests, hp, Phase.writes, bytesOf]
  | headerDue request => simp [Client.requests, hp, Phase.writes, bytesOf]
  | bodyDue request first =>
      have hfirst := hphase request first hp
      simp [Client.requests, hp, Phase.writes, bytesOf, hfirst.headerWrite, Write.bytes]

theorem length_responses (n : Nat) :
    (responses file n).length = n * ((header file.length).length + file.length) := by
  simp [responses, response]

/-- With a file that is not empty, the last response is not complete before
    the file is on the connection. -/
theorem not_complete {k : Nat} {bytes : List UInt8} (hfile : file ≠ []) (hk : 0 < k)
    (h : bytes = responses file (k - 1) ∨ bytes = responses file (k - 1) ++ header file.length) :
    bytes ≠ responses file k := by
  intro heq
  have hlen := congrArg List.length heq
  have hpos : 0 < file.length := List.length_pos_iff.mpr hfile
  obtain ⟨n, rfl⟩ : ∃ n, k = n + 1 := Nat.exists_eq_succ_of_ne_zero hk.ne'
  rw [length_responses, Nat.add_sub_cancel] at *
  rcases h with h | h
  · rw [h, length_responses, Nat.succ_mul] at hlen
    omega
  · rw [h, List.length_append, length_responses, Nat.succ_mul] at hlen
    omega

theorem bytes_of_run {listeners : List Fd} {hist : List (EpollEvent × List (Fd × Own))}
    {s : Server} (hrun : Run EventStep (start listeners) hist s) (fd : Fd) :
    s.bytes fd = bytesOf (conversation (ownEvents hist fd)).writes :=
  congrArg bytesOf (tracks_of_run hrun fd).written

/-- A client's `sate` is 0 or 1 while its interest is `EPOLLOUT`. What stands on
    its connection follows from its own events since it was accepted: with
    `k` calls of `recv` that returned data, `k` complete responses while the
    interest is `EPOLLIN` and, unless the file is empty, only then, and
    otherwise `k - 1` complete responses or these and a header. -/
theorem responses_in_order {listeners : List Fd} {hist : List (EpollEvent × List (Fd × Own))}
    {s : Server} (hrun : Run (UndisturbedStep file) (start listeners) hist s) (fd : Fd) :
    (s.interest fd = some .epollout → (s.connList fd).sate = 0 ∨ (s.connList fd).sate = 1) ∧
    s.bytes fd = bytesOf (conversation (sinceAccept (ownEvents hist fd))).writes ∧
    (let k := reads (ownEvents hist fd)
     (s.bytes fd = responses file k ∨
       0 < k ∧ (s.bytes fd = responses file (k - 1) ∨
         s.bytes fd = responses file (k - 1) ++ header file.length)) ∧
     (s.interest fd = some .epollin → s.bytes fd = responses file k) ∧
     (file ≠ [] → s.interest fd ≠ none →
       (s.bytes fd = responses file k ↔ s.interest fd = some .epollin))) := by
  have ht := tracks_of_run hrun.of_guarded fd
  have hbytes := bytes_of_run hrun.of_guarded fd
  have hcases := (undisturbed_of_run hrun fd).bytes
  rw [← reads_of_run hrun.of_guarded fd, ← hbytes] at hcases
  have hcomplete : s.interest fd = some .epollin →
      s.bytes fd = responses file (reads (ownEvents hist fd)) := by
    intro hin
    rcases hcases with ⟨-, h⟩ | ⟨hdue, -⟩
    · exact h
    · exact absurd (ht.reading (by simp [Server.view, hin])) hdue
  refine ⟨fun hout => ?_, by rw [conversation_sinceAccept, hbytes], ?_, hcomplete,
    fun hfile hreg => ⟨fun h => ?_, hcomplete⟩⟩
  · obtain ⟨-, -, -, ⟨-, -, hsate⟩ | ⟨-, -, -, hsate⟩⟩ := sendCb_cases ht hout
    · exact .inl hsate
    · exact .inr hsate
  · rcases hcases with ⟨-, h⟩ | ⟨-, hpos, h⟩
    · exact .inl h
    · exact .inr ⟨hpos, h⟩
  · obtain ⟨interest, hsome⟩ := Option.ne_none_iff_exists'.mp hreg
    cases interest with
    | epollin => exact hsome
    | epollout =>
        rcases hcases with ⟨hreading, -⟩ | ⟨-, hpos, hparts⟩
        · exact absurd hreading (ht.out.mp hsome)
        · exact absurd h (not_complete hfile hpos hparts)

/-! ## Runs on fixed events -/

/-- An undisturbed step, evaluated. -/
def undisturbedHandle (file : List UInt8) :
    Server → EpollEvent → Except Fault (Server × List (Fd × Own)) :=
  guardStep (fun s e => Reported s e ∧ (e.epollout = true → Undisturbed file e.answers.response))
    .nullCallback handle

theorem run_of_undisturbed {s s' : Server} {es : List EpollEvent}
    {hist : List (EpollEvent × List (Fd × Own))}
    (h : exec (undisturbedHandle file) s es = .ok (hist, s')) :
    Run (UndisturbedStep file) s hist s' :=
  (guarded_of_exec h).mono fun _ _ _ _ hstep => ⟨hstep.1.2, hstep.1.1, hstep.2⟩

/-- The kernel takes everything that is given to it, and `index.html` holds
    `file`. -/
def answersWith (file : List UInt8) (accept : Option Fd) (recv : Option (List UInt8)) : Answers :=
  ⟨accept, recv, ⟨BitVec.ofNat 64 file.length, file, some 1024, some 1024⟩⟩

/-- The listening socket 3 accepts 4, and a request arrives there and is
    answered for as many events as `outs` says. -/
def oneRequest (file : List UInt8) (outs : Nat) : List EpollEvent :=
  ⟨3, true, false, answersWith file (some 4) none⟩ ::
    ⟨4, true, false, answersWith file none (some [71])⟩ ::
    List.replicate outs ⟨4, false, true, answersWith file none none⟩

/-- With an empty `index.html` the header is a complete response, before the
    interest is back to `EPOLLIN`. -/
theorem empty_file_complete_early :
    ∃ hist s, Run (UndisturbedStep []) (start [3]) hist s ∧
      reads (ownEvents hist 4) = 1 ∧ s.bytes 4 = responses [] 1 ∧
      s.interest 4 = some .epollout := by
  obtain ⟨hist, s, hexec, hP⟩ := exec_of_execsTo (f := undisturbedHandle []) (s := start [3])
    (l := oneRequest [] 1) (P := fun hist s => decide (reads (ownEvents hist 4) = 1 ∧
      bytesOf (conversation (ownEvents hist 4)).writes = responses [] 1 ∧
      s.interest 4 = some .epollout)) (by decide)
  have hrun := run_of_undisturbed hexec
  obtain ⟨hreads, hbytes, hout⟩ := of_decide_eq_true hP
  exact ⟨hist, s, hrun, hreads, (bytes_of_run hrun.of_guarded 4).trans hbytes, hout⟩

/-- One request, answered with a file of one byte. -/
theorem responses_in_order_one_request :
    ∃ s : Server, s.interest 4 = some .epollin ∧ s.bytes 4 = responses [65] 1 := by
  obtain ⟨hist, s, hexec, hP⟩ := exec_of_execsTo (f := undisturbedHandle [65]) (s := start [3])
    (l := oneRequest [65] 2) (P := fun hist s => decide (reads (ownEvents hist 4) = 1 ∧
      s.interest 4 = some .epollin)) (by decide)
  obtain ⟨hreads, hin⟩ := of_decide_eq_true hP
  exact ⟨s, hin, hreads ▸ (responses_in_order (run_of_undisturbed hexec) 4).2.2.2.1 hin⟩

end LinuxLearning.Reactor
