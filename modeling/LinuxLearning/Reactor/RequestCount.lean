/-
  LinuxLearning.Reactor.RequestCount

  How many responses a client gets.  `http_request` does not look for the end
  of a request: whatever one call of `recv` returns is answered with one
  response, be it a part of a request or several of them.
-/

import LinuxLearning.Reactor.Framing

namespace LinuxLearning.Reactor

open Lib

/-! ## Requests in a stream of bytes -/

/-- The number of requests in a stream, each ended by an empty line. -/
def requestCount : List UInt8 → Nat
  | 13 :: 10 :: 13 :: 10 :: rest => requestCount rest + 1
  | _ :: rest => requestCount rest
  | [] => 0

/-- A complete request: its empty line is at its end, and nowhere before. -/
structure IsRequest (request : List UInt8) : Prop where
  ends : emptyLine <:+ request
  first : ∀ pre post, request = pre ++ emptyLine ++ post → post = []

theorem requestCount_emptyLine (rest : List UInt8) :
    requestCount (emptyLine ++ rest) = requestCount rest + 1 := by
  simp [emptyLine, requestCount]

/-- A byte that begins no empty line does not count. -/
theorem requestCount_cons {b : UInt8} {rest : List UInt8} (h : ¬ emptyLine <+: b :: rest) :
    requestCount (b :: rest) = requestCount rest := by
  rw [requestCount]
  rintro tail rfl rfl
  exact h ⟨tail, rfl⟩

/-- A complete request counts as one. -/
theorem requestCount_append {request : List UInt8} (h : IsRequest request) (rest : List UInt8) :
    requestCount (request ++ rest) = requestCount rest + 1 := by
  obtain ⟨⟨pre, rfl⟩, hfirst⟩ := h
  induction pre with
  | nil => exact requestCount_emptyLine rest
  | cons b pre ih =>
      have hb : ¬ emptyLine <+: b :: (pre ++ emptyLine ++ rest) := by
        intro hprefix
        have hlong : b :: pre ++ emptyLine <+: b :: (pre ++ emptyLine ++ rest) :=
          ⟨rest, by simp⟩
        obtain ⟨post, hpost⟩ := List.prefix_of_prefix_length_le hprefix hlong (by simp; omega)
        obtain rfl := hfirst [] post hpost.symm
        have hlen := congrArg List.length hpost
        simp only [List.append_nil, List.length_cons, List.length_append, List.cons_append] at hlen
        omega
      rw [List.cons_append, List.cons_append, requestCount_cons hb]
      exact ih fun pre' post heq => hfirst (b :: pre') post (congrArg _ heq)

/-- A stream of complete requests counts as many as there are. -/
theorem requestCount_flatten {requests : List (List UInt8)} (h : ∀ r ∈ requests, IsRequest r) :
    requestCount requests.flatten = requests.length := by
  induction requests with
  | nil => rfl
  | cons r requests ih =>
      rw [List.forall_mem_cons] at h
      rw [List.flatten_cons, requestCount_append h.1, ih h.2, List.length_cons]

/-! ## Responses -/

/-- The bytes that `recv` returned since the connection was accepted. -/
def receivedBytes (own : List Own) : List UInt8 :=
  (sinceAccept own).flatMap fun
    | .received request => request
    | _ => []

def Write.isSend : Write → Bool
  | send _ => true
  | sendfile _ => false

/-- The number of responses on a connection: each begins with one `send`. -/
def Server.responseCount (s : Server) (fd : Fd) : Nat := (s.written fd).countP Write.isSend

theorem countP_isSend_rounds (rounds : List Round) :
    (rounds.flatMap Round.writes).countP Write.isSend = rounds.length := by
  induction rounds with
  | nil => rfl
  | cons r rounds ih =>
      rw [List.flatMap_cons, List.countP_append, ih, List.length_cons]
      show 1 + rounds.length = rounds.length + 1
      exact Nat.add_comm 1 rounds.length

/-- The responses that stand on a connection while none is under way are as
    many as the calls of `recv` that returned data. -/
theorem responseCount_eq_reads {listeners : List Fd}
    {hist : List (EpollEvent × List (Fd × Own))} {s : Server}
    (hrun : Run EventStep (start listeners) hist s) {fd : Fd}
    (hrest : s.interest fd ≠ some .epollout) :
    s.responseCount fd = reads (ownEvents hist fd) := by
  have ht := tracks_of_run hrun fd
  have hreading : (conversation (ownEvents hist fd)).phase = .reading := ht.reading hrest
  have hwritten : s.written fd = (conversation (ownEvents hist fd)).writes := ht.written
  have hrounds : (conversation (ownEvents hist fd)).writes =
      (conversation (ownEvents hist fd)).rounds.flatMap Round.writes := by
    simp [Client.writes, hreading, Phase.writes]
  rw [reads_of_run hrun, Server.responseCount, hwritten, hrounds, countP_isSend_rounds,
    Client.requests, if_pos hreading, Nat.add_zero]

/-- A stream of complete requests, delivered on two connections, each in its
    own pieces: both get as many responses as there are requests exactly when
    both deliver it in as many pieces as there are requests in it. -/
theorem responses_eq_requests_iff {listeners₁ listeners₂ : List Fd}
    {hist₁ hist₂ : List (EpollEvent × List (Fd × Own))} {s₁ s₂ : Server}
    (hrun₁ : Run EventStep (start listeners₁) hist₁ s₁)
    (hrun₂ : Run EventStep (start listeners₂) hist₂ s₂) {fd₁ fd₂ : Fd}
    {requests : List (List UInt8)} (hrequests : ∀ r ∈ requests, IsRequest r)
    (hstream₁ : receivedBytes (ownEvents hist₁ fd₁) = requests.flatten)
    (hstream₂ : receivedBytes (ownEvents hist₂ fd₂) = requests.flatten)
    (hrest₁ : s₁.interest fd₁ ≠ some .epollout) (hrest₂ : s₂.interest fd₂ ≠ some .epollout) :
    (s₁.responseCount fd₁ = s₂.responseCount fd₂ ∧ s₁.responseCount fd₁ = requests.length) ↔
    (reads (ownEvents hist₁ fd₁) = requestCount (receivedBytes (ownEvents hist₁ fd₁)) ∧
      reads (ownEvents hist₂ fd₂) = requestCount (receivedBytes (ownEvents hist₂ fd₂))) := by
  rw [responseCount_eq_reads hrun₁ hrest₁, responseCount_eq_reads hrun₂ hrest₂, hstream₁,
    hstream₂, requestCount_flatten hrequests]
  constructor
  · rintro ⟨hsame, hcount⟩
    exact ⟨hcount, hsame ▸ hcount⟩
  · rintro ⟨h₁, h₂⟩
    exact ⟨h₁.trans h₂.symm, h₁⟩

/-! ## A request in two pieces -/

/-- Text without a carriage return and an empty line behind it. -/
theorem isRequest_of_no_cr {text : List UInt8} (h : 13 ∉ text) : IsRequest (text ++ emptyLine) := by
  refine ⟨List.suffix_append .., fun pre post heq => ?_⟩
  have hcount := congrArg (List.count 13) heq
  have hpre : 13 ∉ pre := by
    rw [← List.count_eq_zero]
    rw [List.count_append, List.count_append, List.count_append, List.count_eq_zero_of_not_mem h]
      at hcount
    omega
  have hprefix : text ++ 13 :: [10, 13, 10] <+: pre ++ 13 :: ([10, 13, 10] ++ post) :=
    ⟨[], by simpa [emptyLine] using heq⟩
  obtain rfl := eq_of_prefix_cr h hpre hprefix
  simpa using heq

/-- The listening socket 3 accepts 4, where the pieces arrive one by one and
    are answered. -/
def deliver (pieces : List (List UInt8)) : List EpollEvent :=
  ⟨3, true, false, answersWith [65] (some 4) none⟩ ::
    pieces.flatMap fun piece =>
      [⟨4, true, false, answersWith [65] none (some piece)⟩,
        ⟨4, false, true, answersWith [65] none none⟩,
        ⟨4, false, true, answersWith [65] none none⟩]

/-- What is asked of a run that delivers the request `G` in some pieces. -/
def delivers (count : Nat) (hist : List (EpollEvent × List (Fd × Own))) (s : Server) : Bool :=
  decide (receivedBytes (ownEvents hist 4) = [71] ++ emptyLine ∧
    reads (ownEvents hist 4) = count ∧ s.interest 4 ≠ some .epollout)

theorem exists_delivery (pieces : List (List UInt8)) (count : Nat)
    (h : execsTo reportedHandle (start [3]) (deliver pieces) (delivers count) = true) :
    ∃ hist s, Run EventStep (start [3]) hist s ∧
      receivedBytes (ownEvents hist 4) = [[71] ++ emptyLine].flatten ∧
      reads (ownEvents hist 4) = count ∧ s.interest 4 ≠ some .epollout := by
  obtain ⟨hist, s, hexec, hP⟩ := exec_of_execsTo h
  obtain ⟨hbytes, hreads, hrest⟩ := of_decide_eq_true hP
  exact ⟨hist, s, guarded_of_exec hexec, by simpa using hbytes, hreads, hrest⟩

theorem isRequest_g : ∀ r ∈ [[71] ++ emptyLine], IsRequest r := by
  rw [List.forall_mem_singleton]
  exact isRequest_of_no_cr (by decide)

/-- The request `G`, delivered whole and in two pieces. -/
theorem responses_eq_requests_iff_pieces :
    ∃ hist₁ s₁ hist₂ s₂, Run EventStep (start [3]) hist₁ s₁ ∧ Run EventStep (start [3]) hist₂ s₂ ∧
      ((s₁.responseCount 4 = s₂.responseCount 4 ∧ s₁.responseCount 4 = 1) ↔
        (reads (ownEvents hist₁ 4) = requestCount (receivedBytes (ownEvents hist₁ 4)) ∧
          reads (ownEvents hist₂ 4) = requestCount (receivedBytes (ownEvents hist₂ 4)))) := by
  obtain ⟨hist₁, s₁, hrun₁, hbytes₁, -, hrest₁⟩ :=
    exists_delivery [[71, 13, 10, 13, 10]] 1 (by decide)
  obtain ⟨hist₂, s₂, hrun₂, hbytes₂, -, hrest₂⟩ :=
    exists_delivery [[71, 13], [10, 13, 10]] 2 (by decide)
  exact ⟨hist₁, s₁, hist₂, s₂, hrun₁, hrun₂,
    responses_eq_requests_iff hrun₁ hrun₂ isRequest_g hbytes₁ hbytes₂ hrest₁ hrest₂⟩

/-- In two pieces the one request gets two responses. -/
theorem split_request_answered_twice :
    ∃ hist₁ s₁ hist₂ s₂, Run EventStep (start [3]) hist₁ s₁ ∧ Run EventStep (start [3]) hist₂ s₂ ∧
      (∀ r ∈ [[71] ++ emptyLine], IsRequest r) ∧
      receivedBytes (ownEvents hist₁ 4) = [[71] ++ emptyLine].flatten ∧
      receivedBytes (ownEvents hist₂ 4) = [[71] ++ emptyLine].flatten ∧
      s₁.responseCount 4 = 1 ∧ s₂.responseCount 4 = 2 := by
  obtain ⟨hist₁, s₁, hrun₁, hbytes₁, hreads₁, hrest₁⟩ :=
    exists_delivery [[71, 13, 10, 13, 10]] 1 (by decide)
  obtain ⟨hist₂, s₂, hrun₂, hbytes₂, hreads₂, hrest₂⟩ :=
    exists_delivery [[71, 13], [10, 13, 10]] 2 (by decide)
  exact ⟨hist₁, s₁, hist₂, s₂, hrun₁, hrun₂, isRequest_g, hbytes₁, hbytes₂,
    (responseCount_eq_reads hrun₁ hrest₁).trans hreads₁,
    (responseCount_eq_reads hrun₂ hrest₂).trans hreads₂⟩

end LinuxLearning.Reactor
