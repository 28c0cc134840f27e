/-
  LinuxLearning.Reactor.Framing

  Whether a response is a header and just as many bytes as the header
  announces.  `send_cb` calls `send` once for the header and `sendfile` once
  for the file, and does not look at what they return: what is left over is
  never sent, and the size in the header is the one that `index.html` had a
  callback earlier.
-/

import LinuxLearning.Reactor.ResponseOrder

namespace LinuxLearning.Reactor

open Lib

/-- A complete header that announces `n` bytes, and `n` bytes of the file. -/
def Framed (ws : List Write) : Prop :=
  ∃ (n : Nat) (body : List UInt8), ws = [.send (header n), .sendfile body] ∧ body.length = n

/-- The number of bytes that `sendfile` puts on the connection. -/
def SendAnswers.bodyLength (a : SendAnswers) : Nat :=
  min (a.sendfile.getD 0) (min a.stSize.toNat a.file.length)

/-- The kernel takes the whole header, and then as many bytes of the file as
    the header has announced. -/
def Round.Whole (r : Round) : Prop :=
  (header r.first.stSize.toInt).length ≤ r.first.send.getD 0 ∧
  (r.second.bodyLength : Int) = r.first.stSize.toInt

/-- Bytes in front of a carriage return are read up to it. -/
theorem eq_of_prefix_cr {x y rest rest' : List UInt8} (hx : 13 ∉ x) (hy : 13 ∉ y)
    (h : x ++ 13 :: rest <+: y ++ 13 :: rest') : x = y := by
  obtain ⟨tail, heq⟩ := h
  have hstop : ∀ {z w : List UInt8}, 13 ∉ z → (z ++ 13 :: w).takeWhile (· ≠ 13) = z := by
    intro z w hz
    rw [List.takeWhile_append_of_pos fun b hb => by simpa using fun h : b = 13 => hz (h ▸ hb)]
    simp
  have htake := congrArg (List.takeWhile (· ≠ 13)) heq
  rwa [List.append_assoc, List.cons_append, hstop hx, hstop hy] at htake

/-- No header is the beginning of another one. -/
theorem header_prefix {m n : Int} (h : header m <+: header n) : m = n := by
  have hcr : ∀ k : Int, 13 ∉ printInt k := fun k hk => by
    have := (toNat_mem_printInt hk).1
    simp at this
  unfold header at h
  rw [List.append_assoc, List.append_assoc, List.prefix_append_right_inj] at h
  exact printInt_injective (eq_of_prefix_cr (hcr m) (hcr n) h)

/-- When the bytes of a response are framed. -/
theorem framed_iff (r : Round) : Framed r.writes ↔ r.Whole := by
  have hbody : (transferred r.second.sendfile
      (r.second.file.take r.second.stSize.toNat)).length = r.second.bodyLength := by
    simp [transferred, SendAnswers.bodyLength]
  constructor
  · rintro ⟨n, body, hws, hlen⟩
    obtain ⟨hheader, rfl⟩ : transferred r.first.send (header r.first.stSize.toInt) = header n ∧
        transferred r.second.sendfile (r.second.file.take r.second.stSize.toNat) = body := by
      simpa [Round.writes, SendAnswers.headerWrite, SendAnswers.bodyWrite] using hws
    have hn : (n : Int) = r.first.stSize.toInt :=
      header_prefix (hheader ▸ List.take_prefix ..)
    refine ⟨?_, by rw [← hn, ← hbody, hlen]⟩
    rw [← hn]
    rw [hn, transferred, List.take_eq_self_iff, ← hn] at hheader
    exact hheader
  · rintro ⟨hsend, hlen⟩
    refine ⟨r.second.bodyLength, _, ?_, hbody⟩
    rw [hlen, Round.writes, SendAnswers.headerWrite, SendAnswers.bodyWrite, transferred,
      List.take_of_length_le hsend]

/-! ## The end of a response -/

theorem sate_of_view {s s' : Server} {fd : Fd} (h : s'.view fd = s.view fd) :
    (s'.connList fd).sate = (s.connList fd).sate :=
  congrArg (·.conn.sate) h

/-- `accept_cb` leaves every `sate` as it was. -/
theorem acceptCb_sate {s s' : Server} {a : Answers} {o : List (Fd × Own)}
    (h : acceptCb a s = .ok (s', o)) (fd : Fd) :
    (s'.connList fd).sate = (s.connList fd).sate := by
  obtain ⟨-, rfl, -⟩ | ⟨clientfd, -, rfl, -⟩ := acceptCb_cases h
  · rfl
  · by_cases hfd : fd = clientfd
    · subst hfd
      unfold Server.setEvent
      split <;> simp [Server.setConn]
    · exact sate_of_view (by simp [hfd])

/-- A `sate` becomes 2 only when the file was due and is on the connection
    now. -/
theorem handle_sate_two {s s' : Server} {e : EpollEvent} {o : List (Fd × Own)}
    {conv : Fd → Client} (hr : Reported s e) (ht : ∀ k, Tracks k (conv k) (s.view k))
    (h : handle s e = .ok (s', o)) {fd : Fd} (hsate : (s.connList fd).sate ≠ 2)
    (hsate' : (s'.connList fd).sate = 2) :
    (∃ request first, (conv fd).phase = .bodyDue request first) ∧
    ownOps o fd = [.responded e.answers.response] ∧ s'.interest fd = some .epollin := by
  have hkept : (s'.connList fd).sate ≠ (s.connList fd).sate := fun heq => hsate (heq ▸ hsate')
  obtain ⟨rfl, -⟩ | ⟨hin, ⟨-, hcall⟩ | ⟨-, rfl, -⟩⟩ | ⟨-, hout, rfl, rfl⟩ := handle_cases hr h
  · exact absurd rfl hkept
  · exact absurd (acceptCb_sate hcall fd) hkept
  · by_cases hfd : fd = e.fd
    · subst hfd
      by_cases hdata : (e.answers.recv.getD []).take bufferSize = []
      · rw [recvCb_hungUp hdata] at hkept
        exact absurd rfl hkept
      · obtain ⟨c, c', heq, hzero, -⟩ := recvCb_received s e.fd hdata
        rw [heq] at hsate'
        simp [Server.setConn, hzero] at hsate'
    · exact absurd (sate_of_view (recvCb_of_ne hfd).1) hkept
  · by_cases hfd : fd = e.fd
    · subst hfd
      have hreg : s.interest e.fd ≠ none := by simp [hout]
      obtain ⟨hfd, -, -, ⟨-, -, hzero⟩ | ⟨request, first, hphase, hone⟩⟩ :=
        sendCb_cases (ht e.fd) hout
      · obtain ⟨c', hsent, hc'⟩ := sendCb_header (a := e.answers.response) hfd hreg hzero
        have hconn := congrArg (·.conn.sate) hsent.view
        exact absurd (hsate'.symm.trans (hconn.trans hc')) (by decide)
      · obtain ⟨c', hsent, -⟩ := sendCb_body (a := e.answers.response) hfd hreg hone
        exact ⟨⟨request, first, hphase⟩, by rw [sendCb_ops, ownOps_self],
          congrArg (·.interest) hsent.view⟩
    · exact absurd (sate_of_view (sendCb_of_ne (ht e.fd) hout hfd)) hkept

/-- When a `sate` becomes 2 the interest is back to `EPOLLIN` and one more
    round is over.  The bytes that were written in it are a header and just
    as many bytes as it announces exactly when the kernel took the whole
    header, and then as many bytes of `index.html` as the header had
    announced. -/
theorem response_framed_iff {listeners : List Fd} {hist : List (EpollEvent × List (Fd × Own))}
    {s s' : Server} {e : EpollEvent} {o : List (Fd × Own)}
    (hrun : Run EventStep (start listeners) hist s) (hstep : EventStep s e o s') {fd : Fd}
    (hsate : (s.connList fd).sate ≠ 2) (hsate' : (s'.connList fd).sate = 2) :
    s'.interest fd = some .epollin ∧
    ∃ r : Round,
      (conversation (ownEvents (hist ++ [(e, o)]) fd)).rounds =
        (conversation (ownEvents hist fd)).rounds ++ [r] ∧
      s'.written fd = (conversation (ownEvents hist fd)).rounds.flatMap Round.writes ++ r.writes ∧
      (Framed r.writes ↔ r.Whole) := by
  obtain ⟨⟨request, first, hphase⟩, hops, hin⟩ :=
    handle_sate_two hstep.1 (tracks_of_run hrun) hstep.2 hsate hsate'
  have hnext : conversation (ownEvents (hist ++ [(e, o)]) fd) =
      ⟨(conversation (ownEvents hist fd)).rounds ++ [⟨request, first, e.answers.response⟩],
        .reading⟩ := by
    rw [ownEvents_snoc, hops, conversation_append]
    simp [Client.next, hphase]
  have hwritten : s'.written fd = (conversation (ownEvents (hist ++ [(e, o)]) fd)).writes :=
    (tracks_of_run (hrun.step hstep) fd).written
  rw [hnext] at hwritten
  refine ⟨hin, ⟨request, first, e.answers.response⟩, by rw [hnext], ?_, framed_iff _⟩
  simpa [Client.writes, Phase.writes] using hwritten

/-- A step on an event that can be reported, evaluated. -/
def reportedHandle : Server → EpollEvent → Except Fault (Server × List (Fd × Own)) :=
  guardStep Reported .nullCallback handle

/-- The kernel has room for 10 bytes of the header only. -/
def shortAnswers (accept : Option Fd) (recv : Option (List UInt8)) : Answers :=
  ⟨accept, recv, ⟨1, [65], some 1024, some 10⟩⟩

/-- A request on the connection 4, and the first call of `send_cb` for it. -/
def shortSend : List EpollEvent :=
  [⟨3, true, false, shortAnswers (some 4) none⟩, ⟨4, true, false, shortAnswers none (some [71])⟩,
    ⟨4, false, true, shortAnswers none none⟩]

/-- The second one. -/
def shortSendEnd : EpollEvent := ⟨4, false, true, shortAnswers none none⟩

/-- The response with a short `send`. -/
theorem response_framed_iff_short :
    ∃ hist s s' o r, Run EventStep (start [3]) hist s ∧ EventStep s shortSendEnd o s' ∧
      (conversation (ownEvents (hist ++ [(shortSendEnd, o)]) 4)).rounds =
        (conversation (ownEvents hist 4)).rounds ++ [r] ∧
      (Framed r.writes ↔ r.Whole) := by
  obtain ⟨hist, s, hexec, hP⟩ := exec_of_execsTo (f := reportedHandle) (s := start [3])
    (l := shortSend) (P := fun _ s => (reportedHandle s shortSendEnd).toOption.any
      fun r : Server × List (Fd × Own) =>
        decide ((s.connList 4).sate ≠ 2 ∧ (r.1.connList 4).sate = 2)) (by decide)
  cases hstep : reportedHandle s shortSendEnd with
  | error x => simp [hstep, Except.toOption] at hP
  | ok next =>
      rw [hstep] at hP
      obtain ⟨hsate, hsate'⟩ := of_decide_eq_true hP
      have hrun : Run EventStep (start [3]) hist s := guarded_of_exec hexec
      have hnext : EventStep s shortSendEnd next.2 next.1 := guarded_of_guardStep hstep
      obtain ⟨-, r, hrounds, -, hiff⟩ := response_framed_iff hrun hnext hsate hsate'
      exact ⟨hist, s, next.1, next.2, r, hrun, hnext, hrounds, hiff⟩

/-- With a short `send` the rest of the header is never sent: the interest is
    back to `EPOLLIN` with a response that is not framed. -/
theorem short_send_cuts_header :
    ∃ hist s, Run EventStep (start [3]) hist s ∧ (s.connList 4).sate = 2 ∧
      s.interest 4 = some .epollin ∧ ¬ Framed (s.written 4) := by
  obtain ⟨hist, s, hexec, hP⟩ := exec_of_execsTo (f := reportedHandle) (s := start [3])
    (l := shortSend ++ [shortSendEnd]) (P := fun hist s => decide ((s.connList 4).sate = 2 ∧
      s.interest 4 = some .epollin ∧ conversation (ownEvents hist 4) =
        ⟨[⟨[71], ⟨1, [65], some 1024, some 10⟩, ⟨1, [65], some 1024, some 10⟩⟩], .reading⟩))
    (by decide)
  obtain ⟨hsate, hin, hconv⟩ := of_decide_eq_true hP
  have hrun : Run EventStep (start [3]) hist s := guarded_of_exec hexec
  refine ⟨hist, s, hrun, hsate, hin, ?_⟩
  have hwritten : s.written 4 = _ := (tracks_of_run hrun 4).written
  have hcut : ¬ Round.Whole ⟨[71], ⟨1, [65], some 1024, some 10⟩, ⟨1, [65], some 1024, some 10⟩⟩ :=
    fun h => absurd h.1 (by decide)
  rw [hwritten, hconv]
  exact fun h => hcut ((framed_iff _).mp h)

end LinuxLearning.Reactor
