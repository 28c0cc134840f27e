/-
  LinuxLearning.Echo.Interchange

  One pass of the three echo servers after the same history of clients.  The
  server of `epoll.c` serves every readable client.  That of `select.c` does
  not come to the highest descriptor, and takes the end of a stream for data;
  that of `poll.c` does not even look at the highest descriptor.
-/

import LinuxLearning.Echo.Servers
import LinuxLearning.Lib.Transition
import Mathlib.Data.List.Nodup
import Mathlib.Data.List.Perm.Subperm

namespace LinuxLearning.Echo

open Lib

variable {sockfd : Nat} {h : History sockfd} {events : List Event} {fd : Nat}

/-! ## Histories -/

theorem isOpen_accept {i : Nat} : isOpen (.accept i :: events) fd =
    if fd = i then true else isOpen events fd := Function.update_apply ..

theorem isOpen_close {i : Nat} : isOpen (.close i :: events) fd =
    if fd = i then false else isOpen events fd := Function.update_apply ..

/-- Clients are above the listening descriptor. -/
theorem IsHistory.bounds (hh : IsHistory sockfd events) (hopen : isOpen events fd = true) :
    sockfd < fd ∧ fd < 1024 := by
  induction hh with
  | nil => cases hopen
  | accept _ hlt hbound _ ih =>
      rw [isOpen_accept] at hopen
      split at hopen
      · rename_i heq
        exact heq ▸ ⟨hlt, hbound⟩
      · exact ih hopen
  | close _ _ ih =>
      rw [isOpen_close] at hopen
      split at hopen
      · cases hopen
      · exact ih hopen

/-- The highest descriptor that was ever accepted. -/
def highest (sockfd : Nat) : List Event → Nat :=
  after sockfd (fun maxfd fd => if maxfd < fd then fd else maxfd) fun maxfd _ => maxfd

theorem lt_highest_iff (hlt : sockfd < fd) :
    fd < highest sockfd events ↔ ∃ c, .accept c ∈ events ∧ fd < c := by
  induction events with
  | nil => simp [highest, after]; omega
  | cons e events ih =>
      cases e with
      | accept c =>
          have hstep : highest sockfd (.accept c :: events) =
              if highest sockfd events < c then c else highest sockfd events := rfl
          have hcons : (∃ c', Event.accept c' ∈ Event.accept c :: events ∧ fd < c') ↔
              fd < c ∨ ∃ c', Event.accept c' ∈ events ∧ fd < c' := by
            simp [or_and_right, exists_or]
          rw [hcons, ← ih, hstep]
          split <;> omega
      | close c =>
          have hcons : (∃ c', Event.accept c' ∈ Event.close c :: events ∧ fd < c') ↔
              ∃ c', Event.accept c' ∈ events ∧ fd < c' := by
            simp
          rw [hcons, ← ih]
          rfl

theorem le_highest (hh : IsHistory sockfd events) (hopen : isOpen events fd = true) :
    fd ≤ highest sockfd events := by
  induction hh with
  | nil => cases hopen
  | accept _ _ _ _ ih =>
      rw [isOpen_accept] at hopen
      simp only [highest, after] at ih ⊢
      split at hopen
      · split <;> omega
      · have := ih hopen
        split <;> omega
  | close _ _ ih =>
      rw [isOpen_close] at hopen
      split at hopen
      · cases hopen
      · exact ih hopen

/-! ## The servers after a history -/

/-- The three servers, before the pass. -/
def selectAt (h : History sockfd) : Select :=
  after (Select.init sockfd) Select.accept Select.close h.events

def pollAt (fds : Nat → PollFd) (h : History sockfd) : Poll :=
  after (Poll.init sockfd fds) Poll.accept Poll.close h.events

def epollAt (h : History sockfd) : Epoll :=
  after (Epoll.init sockfd) Epoll.accept Epoll.close h.events

theorem maxfd_select : (after (Select.init sockfd) Select.accept Select.close events).maxfd =
    highest sockfd events := by
  induction events with
  | nil => rfl
  | cons e events ih =>
      cases e with
      | accept c =>
          simp only [after, Select.accept, highest, ih]
      | close c => exact ih

theorem maxfd_poll {fds : Nat → PollFd} :
    (after (Poll.init sockfd fds) Poll.accept Poll.close events).maxfd = highest sockfd events := by
  induction events with
  | nil => rfl
  | cons e events ih =>
      cases e with
      | accept c =>
          simp only [after, Poll.accept, highest, ih]
      | close c => exact ih

/-- Above the listening descriptor, the set holds the clients. -/
theorem rfds_select (hne : fd ≠ sockfd) :
    (after (Select.init sockfd) Select.accept Select.close events).rfds fd = isOpen events fd := by
  induction events with
  | nil =>
      show Function.update (fun _ => false) sockfd true fd = false
      exact Function.update_of_ne hne ..
  | cons e events ih =>
      cases e with
      | accept c => rw [isOpen_accept, ← ih]; exact Function.update_apply ..
      | close c => rw [isOpen_close, ← ih]; exact Function.update_apply ..

/-- The entries of the listening descriptor and of the clients are their own. -/
theorem fds_poll {fds : Nat → PollFd} (hh : IsHistory sockfd events)
    (hsocket : fd = sockfd ∨ isOpen events fd = true) :
    ∃ revents, (after (Poll.init sockfd fds) Poll.accept Poll.close events).fds fd =
      ⟨fd, pollin, revents⟩ := by
  induction hh with
  | nil =>
      obtain rfl := hsocket.resolve_right Bool.false_ne_true
      exact ⟨_, Function.update_self ..⟩
  | @accept events c _ hlt _ _ ih =>
      -- the entry is overwritten, whatever it held before
      rw [isOpen_accept] at hsocket
      simp only [after, Poll.accept, Function.update_apply]
      split
      · rename_i heq
        exact ⟨_, by rw [heq]⟩
      · rename_i hne
        exact ih (by rwa [if_neg hne] at hsocket)
  | @close events c hh hopen ih =>
      have hlt := (hh.bounds hopen).1
      -- what is closed is a client, and not open behind that
      have hne : fd ≠ c := by
        rintro rfl
        rw [isOpen_close, if_pos rfl] at hsocket
        exact Nat.ne_of_gt hlt (hsocket.resolve_right Bool.false_ne_true)
      rw [isOpen_close, if_neg hne] at hsocket
      simp only [after, Poll.close, Function.update_of_ne hne]
      exact ih hsocket

/-- Above the listening descriptor, the interest list holds the clients. -/
theorem mem_interest_epoll (hne : fd ≠ sockfd) :
    fd ∈ (after (Epoll.init sockfd) Epoll.accept Epoll.close events).interest ↔
      isOpen events fd = true := by
  induction events with
  | nil => simp [after, Epoll.init, isOpen, hne]
  | cons e events ih =>
      cases e with
      | accept c =>
          rw [isOpen_accept]
          simp only [after, Epoll.accept, List.mem_insert_iff, ih]
          split <;> simp [*]
      | close c =>
          rw [isOpen_close]
          simp only [after, Epoll.close, List.mem_filter, ih, bne_iff_ne]
          split <;> simp [*]

theorem nodup_interest_epoll :
    (after (Epoll.init sockfd) Epoll.accept Epoll.close events).interest.Nodup := by
  induction events with
  | nil => exact List.nodup_singleton _
  | cons e events ih =>
      cases e with
      | accept c => exact ih.insert
      | close c => exact ih.filter _

/-! ## The calls of a turn -/

theorem callsOn_append (log log' : Log) (fd : Nat) :
    callsOn (log ++ log') fd = callsOn log fd ++ callsOn log' fd := by
  simp [callsOn]

/-- The calls on one descriptor. -/
theorem callsOn_pair (i : Nat) (c c' : Call) (fd : Nat) :
    callsOn [(i, c), (i, c')] fd = if fd = i then [c, c'] else [] := by
  by_cases heq : fd = i
  · simp [callsOn, heq]
  · simp [callsOn, heq, Ne.symm heq]

/-- The calls and the outcome that the readable clients are to get. -/
def echoed : Option Input → List Call × Bool
  | none => ([], true)
  | some .eof => ([.recv, .close], false)
  | some (.data b bs) => ([.recv, .send (buffer ((b :: bs).take 1024))], true)

namespace Kernel

variable {k : Kernel h}

theorem recv_of_eof (heof : k.input fd = some .eof) : k.recv fd = (0, []) := by
  rw [recv, heof]
  rfl

theorem recv_of_data {b : Byte} {bs : List Byte} (hdata : k.input fd = some (.data b bs)) :
    k.recv fd = ((((b :: bs).take 1024).length : Int), (b :: bs).take 1024) := by
  rw [recv, hdata]
  rfl

/-- A batch is not taken for the end of the stream. -/
theorem length_batch_ne_zero (b : Byte) (bs : List Byte) :
    (((b :: bs).take 1024).length : Int) ≠ 0 := by
  rw [List.take_succ_cons, List.length_cons]
  exact Int.natCast_ne_zero.mpr (Nat.succ_ne_zero _)

theorem send_ne_zero (k : Kernel h) (fd : Nat) : k.send fd ≠ 0 := by
  unfold send
  split <;> decide

theorem readable_of_isClient {pending : Option Nat} (hfd : h.IsClient fd) :
    k.readable pending fd = (k.input fd).isSome := if_pos hfd

/-- Where nobody is pending, the listening descriptor is not readable. -/
theorem readable_sockfd (k : Kernel h) : k.readable none sockfd = false := by
  have hclosed : ¬ h.IsClient sockfd := fun hopen =>
    Nat.lt_irrefl _ (h.isHistory.bounds hopen).1
  rw [readable, if_neg hclosed, if_pos rfl]
  rfl

end Kernel

/-- A turn of `poll.c` or `epoll.c` calls on its own descriptor. -/
theorem callsOn_echo {σ : Type*} (k : Kernel h) (close : σ → Nat → σ) (r : σ × Log) (i fd : Nat) :
    callsOn (echo k close r i).2 fd = callsOn r.2 fd ++
      if fd = i then
        if (k.recv i).1 = 0 then [.recv, .close] else [.recv, .send (buffer (k.recv i).2)]
      else [] := by
  unfold echo
  simp only []
  split
  · rw [callsOn_append, callsOn_pair]
  · rw [callsOn_append, callsOn_pair]

/-- It closes at the end of a stream. -/
theorem echo_fst {σ : Type*} (k : Kernel h) (close : σ → Nat → σ) (r : σ × Log) (i : Nat) :
    (echo k close r i).1 = if (k.recv i).1 = 0 then close r.1 i else r.1 := by
  unfold echo
  simp only []
  split <;> rfl

/-! ## `select.c` -/

/-- What a pass does to a descriptor: the calls on it, and whether the server
    watches it behind the pass. -/
abbrev Effect := Nat → List Call × Bool

def Select.effect (r : Select × Log) : Effect := fun fd => (callsOn r.2 fd, r.1.watches fd)

def Poll.effect (r : Poll × Log) : Effect := fun fd => (callsOn r.2 fd, r.1.watches fd)

def Epoll.effect (r : Epoll × Log) : Effect := fun fd => (callsOn r.2 fd, r.1.watches fd)

/-- A turn of `select.c` never closes: `send` has not sent 0 bytes. -/
theorem Select.serve_eq (k : Kernel h) (r : Select × Log) (i : Nat) :
    serve k r i = (r.1, r.2 ++ [(i, .recv), (i, .send (buffer (k.recv i).2))]) :=
  if_neg (k.send_ne_zero i)

theorem Select.sweep (k : Kernel h) (rset : Nat → Bool) :
    Sweep effect (fun r i => if rset i then serve k r i else r) fun i v =>
      if rset i then (v.1 ++ [.recv, .send (buffer (k.recv i).2)], v.2) else v where
  self r i := by
    cases hset : rset i with
    | false => rfl
    | true =>
        simp only [effect, if_true, serve_eq, callsOn_append, callsOn_pair]
  other r i j hne := by
    cases hset : rset i with
    | false => rfl
    | true =>
        simp only [effect, if_true, serve_eq, callsOn_append, callsOn_pair, if_neg hne,
          List.append_nil]

/-- The clients below the highest descriptor. -/
theorem mem_clients_iff (hh : IsHistory sockfd events) (hopen : isOpen events fd = true)
    (maxfd : Nat) : fd ∈ List.range' (sockfd + 1) (maxfd - (sockfd + 1)) ↔ fd < maxfd := by
  have hlt := (hh.bounds hopen).1
  rw [List.mem_range'_1]
  omega

/-- Below the highest descriptor, a readable client is sent what it sent, or
    zeros at its end; the client with the highest one is left alone. -/
theorem Select.effect_pass (k : Kernel h) (hfd : h.IsClient fd) :
    effect ((selectAt h).pass k none) fd =
      if fd < highest sockfd h.events ∧ (k.input fd).isSome then
        ([.recv, .send (buffer (k.recv fd).2)], true)
      else ([], true) := by
  have hlt := (h.isHistory.bounds hfd).1
  have hle := le_highest h.isHistory hfd
  have hmax : (selectAt h).maxfd = highest sockfd h.events := maxfd_select
  have hrfds : (selectAt h).rfds fd = true := (rfds_select (Nat.ne_of_gt hlt)).trans hfd
  have hwatched : (selectAt h).watches fd = true := by
    rw [watches, hrfds, hmax, decide_eq_true (Nat.lt_succ_of_le hle)]
    rfl
  -- `select` reports the client if it is readable, whatever its descriptor is
  have hset : (selectAt h).rset k none fd = (k.input fd).isSome := by
    rw [rset, hwatched, Kernel.readable_of_isClient hfd]
    rfl
  have hpass : (selectAt h).pass k none =
      (List.range' (sockfd + 1) (highest sockfd h.events - (sockfd + 1))).foldl
        (fun r i => if (selectAt h).rset k none i then serve k r i else r) (selectAt h, []) := by
    rw [← hmax]
    simp only [pass, Option.elim, ite_self]
  have hstart : effect (selectAt h, []) fd = ([], true) := Prod.ext rfl hwatched
  have hmem := mem_clients_iff h.isHistory hfd (highest sockfd h.events)
  rw [hpass]
  by_cases hbelow : fd < highest sockfd h.events
  · rw [(sweep k _).foldl_of_mem List.nodup_range' (hmem.mpr hbelow), hstart, hset]
    exact if_congr (and_iff_right hbelow).symm rfl rfl
  · rw [(sweep k _).foldl_of_notMem (hmem.not.mpr hbelow), hstart,
      if_neg (not_and_of_not_left _ hbelow)]

/-! ## `poll.c` -/

/-- The part of a descriptor: the calls on it, its entry, and the bound. -/
def Poll.part (r : Poll × Log) (i : Nat) : List Call × PollFd × Nat :=
  (callsOn r.2 i, r.1.fds i, r.1.maxfd)

/-- What a turn does to it. -/
def Poll.turn (k : Kernel h) (i : Nat) (v : List Call × PollFd × Nat) : List Call × PollFd × Nat :=
  if v.2.1.revents &&& pollin = 0 then v
  else if (k.recv i).1 = 0 then
    (v.1 ++ [.recv, .close], { v.2.1 with fd := -1, events := 0 }, v.2.2)
  else (v.1 ++ [.recv, .send (buffer (k.recv i).2)], v.2)

theorem Poll.sweep (k : Kernel h) : Sweep part
    (fun r i => if (r.1.fds i).revents &&& pollin = 0 then r else serve k r i) (turn k) where
  self r i := by
    by_cases hready : (r.1.fds i).revents &&& pollin = 0
    · rw [if_pos hready]
      exact (if_pos hready).symm
    · by_cases hcount : (k.recv i).1 = 0
      · simp only [part, turn, if_neg hready, serve, callsOn_echo, echo_fst, if_pos hcount, if_true,
          close, Function.update_self]
      · simp only [part, turn, if_neg hready, serve, callsOn_echo, echo_fst, if_neg hcount, if_true]
  other r i j hne := by
    by_cases hready : (r.1.fds i).revents &&& pollin = 0
    · simp only [part, if_pos hready]
    · by_cases hcount : (k.recv i).1 = 0
      · simp only [part, if_neg hready, serve, callsOn_echo, echo_fst, if_pos hcount, if_neg hne,
          List.append_nil, close, Function.update_of_ne hne]
      · simp only [part, if_neg hready, serve, callsOn_echo, echo_fst, if_neg hcount, if_neg hne,
          List.append_nil]

/-- The array behind the `poll` of a pass. -/
def Poll.polled (k : Kernel h) (s : Poll) : Poll :=
  { s with fds := fun i => if i < s.maxfd then answer k none (s.fds i) else s.fds i }

/-- Where nobody is pending, the pass is its inner loop, or waits. -/
theorem Poll.pass_none (k : Kernel h) (s : Poll) :
    s.pass k none = if ((s.polled k).fds sockfd).revents &&& pollin = 0 then
      (s.polled k).loop sockfd k else (s.polled k, []) := rfl

theorem Poll.effect_of_part {r : Poll × Log} {calls : List Call} {entry : PollFd} {maxfd : Nat}
    (h : part r fd = (calls, entry, maxfd)) :
    effect r fd =
      (calls, decide (fd < maxfd) && entry.fd == fd && entry.events &&& pollin != 0) := by
  obtain ⟨hcalls, hrest⟩ := Prod.mk.inj h
  obtain ⟨hentry, hmax⟩ := Prod.mk.inj hrest
  rw [effect, watches, hcalls, hentry, hmax]

/-- What the kernel answers for the entry of a client. -/
theorem Poll.answer_entry (k : Kernel h) (hfd : h.IsClient fd) (r : BitVec 16) :
    answer k none ⟨fd, pollin, r⟩ =
      ⟨fd, pollin, if (k.input fd).isSome then pollin else 0⟩ := by
  have hnonneg : (0 : Int) ≤ fd := Int.natCast_nonneg fd
  simp only [answer, Int.toNat_natCast, Kernel.readable_of_isClient hfd, hnonneg, true_and,
    BitVec.and_self]

/-- The turn of a client that was polled. -/
theorem Poll.turn_client (k : Kernel h) (fd maxfd : Nat) :
    ∃ entry : PollFd,
      turn k fd ([], ⟨fd, pollin, if (k.input fd).isSome then pollin else 0⟩, maxfd) =
        ((echoed (k.input fd)).1, entry, maxfd) ∧
      ((entry.fd == fd && entry.events &&& pollin != 0) = (echoed (k.input fd)).2) := by
  have hin : ¬ pollin &&& pollin = 0 := by decide
  have hzero : (0 : BitVec 16) &&& pollin = 0 := by decide
  cases hinput : k.input fd with
  | none =>
      refine ⟨⟨fd, pollin, 0⟩, ?_, by simp [echoed, pollin]⟩
      rw [Option.isSome_none, if_neg Bool.false_ne_true, turn, if_pos hzero]
      rfl
  | some input =>
      rw [Option.isSome_some, if_pos rfl]
      cases input with
      | data b bs =>
          refine ⟨⟨fd, pollin, pollin⟩, ?_, by simp [echoed, pollin]⟩
          rw [turn, if_neg hin, Kernel.recv_of_data hinput,
            if_neg (Kernel.length_batch_ne_zero b bs)]
          rfl
      | eof =>
          refine ⟨⟨-1, 0, pollin⟩, ?_, by simp [echoed]⟩
          rw [turn, if_neg hin, Kernel.recv_of_eof hinput, if_pos rfl]
          rfl

/-- Below the highest descriptor, a client is served as it should; the client
    with the highest one is not even watched. -/
theorem Poll.effect_pass (fds : Nat → PollFd) (k : Kernel h) (hfd : h.IsClient fd) :
    effect ((pollAt fds h).pass k none) fd =
      if fd < highest sockfd h.events then echoed (k.input fd) else ([], false) := by
  have hlt := (h.isHistory.bounds hfd).1
  have hle := le_highest h.isHistory hfd
  have hmax : (pollAt fds h).maxfd = highest sockfd h.events := maxfd_poll
  obtain ⟨r, hentry⟩ : ∃ r, (pollAt fds h).fds fd = ⟨fd, pollin, r⟩ :=
    fds_poll h.isHistory (.inr hfd)
  obtain ⟨r', hsocket⟩ : ∃ r, (pollAt fds h).fds sockfd = ⟨sockfd, pollin, r⟩ :=
    fds_poll h.isHistory (.inl rfl)
  have hpolled : ∀ i, ((pollAt fds h).polled k).fds i =
      if i < highest sockfd h.events then answer k none ((pollAt fds h).fds i)
      else (pollAt fds h).fds i := fun i => by rw [← hmax]; rfl
  -- there is a client, so the entry of the listening descriptor was polled
  have hquiet : (((pollAt fds h).polled k).fds sockfd).revents &&& pollin = 0 := by
    rw [hpolled, if_pos (Nat.lt_of_lt_of_le hlt hle), hsocket, answer]
    simp [k.readable_sockfd]
  have hloop : (pollAt fds h).pass k none =
      (List.range' (sockfd + 1) (highest sockfd h.events - (sockfd + 1))).foldl
        (fun r i => if (r.1.fds i).revents &&& pollin = 0 then r else serve k r i)
        ((pollAt fds h).polled k, []) := by
    rw [pass_none, if_pos hquiet, ← hmax]
    rfl
  have hmem := mem_clients_iff h.isHistory hfd (highest sockfd h.events)
  have hstart : part ((pollAt fds h).polled k, []) fd =
      ([], ((pollAt fds h).polled k).fds fd, highest sockfd h.events) := by
    rw [← hmax]
    rfl
  rw [hpolled, hentry] at hstart
  rw [hloop]
  by_cases hbelow : fd < highest sockfd h.events
  · rw [if_pos hbelow] at hstart ⊢
    have hend := (sweep k).foldl_of_mem List.nodup_range' (hmem.mpr hbelow)
      ((pollAt fds h).polled k, [])
    rw [hstart, answer_entry k hfd] at hend
    obtain ⟨entry, hturn, hwatched⟩ := turn_client k fd (highest sockfd h.events)
    rw [effect_of_part (hend.trans hturn), Bool.and_assoc, hwatched, decide_eq_true hbelow]
    rfl
  · rw [if_neg hbelow] at hstart ⊢
    have hend := ((sweep k).foldl_of_notMem (hmem.not.mpr hbelow)
      ((pollAt fds h).polled k, [])).trans hstart
    rw [effect_of_part hend, decide_eq_false hbelow]
    rfl

/-! ## `epoll.c` -/

/-- What a turn of a client does to the calls on it, and to whether it is
    watched. -/
def Epoll.turn (k : Kernel h) (fd : Nat) (v : List Call × Bool) : List Call × Bool :=
  if fd = sockfd then v
  else if (k.recv fd).1 = 0 then (v.1 ++ [.recv, .close], false)
  else (v.1 ++ [.recv, .send (buffer (k.recv fd).2)], v.2)

theorem Epoll.sweep (k : Kernel h) : Sweep effect
    (fun r fd => if fd = sockfd then (Option.elim none r.1 r.1.accept, r.2) else serve k r fd)
    (turn k) where
  self r i := by
    by_cases hsocket : i = sockfd
    · rw [if_pos hsocket, turn, if_pos hsocket]
      rfl
    · by_cases hcount : (k.recv i).1 = 0
      · simp only [effect, turn, if_neg hsocket, serve, callsOn_echo, echo_fst, if_pos hcount,
          if_true, watches, close]
        simp
      · simp only [effect, turn, if_neg hsocket, serve, callsOn_echo, echo_fst, if_neg hcount,
          if_true]
  other r i j hne := by
    by_cases hsocket : i = sockfd
    · rw [if_pos hsocket]
      rfl
    · by_cases hcount : (k.recv i).1 = 0
      · simp only [effect, if_neg hsocket, serve, callsOn_echo, echo_fst, if_pos hcount,
          if_neg hne, List.append_nil, watches, close]
        simp [hne]
      · simp only [effect, if_neg hsocket, serve, callsOn_echo, echo_fst, if_neg hcount,
          if_neg hne, List.append_nil]

/-- The kernel reports every readable client; there is room for all. -/
theorem Epoll.events_eq (k : Kernel h) :
    (k.order ((epollAt h).interest.filter (k.readable none))).take 1024 =
      k.order ((epollAt h).interest.filter (k.readable none)) := by
  have hbounds : ∀ fd ∈ (epollAt h).interest.filter (k.readable none), fd < 1024 := by
    intro fd hmem
    obtain ⟨hmem, hready⟩ := List.mem_filter.mp hmem
    have hne : fd ≠ sockfd := by
      rintro rfl
      rw [k.readable_sockfd] at hready
      cases hready
    exact (h.isHistory.bounds ((mem_interest_epoll hne).mp hmem)).2
  have hnodup : ((epollAt h).interest.filter (k.readable none)).Nodup :=
    nodup_interest_epoll.filter _
  -- no client has a descriptor from 1024 on, and none is on the list twice
  have hsub : (epollAt h).interest.filter (k.readable none) ⊆ List.range 1024 := fun fd hmem =>
    List.mem_range.mpr (hbounds fd hmem)
  have hlen := (List.subperm_of_subset hnodup hsub).length_le
  rw [List.length_range, ← (k.order_perm _).length_eq] at hlen
  exact List.take_of_length_le hlen

/-- Every client is served as it should. -/
theorem Epoll.effect_pass (k : Kernel h) (hfd : h.IsClient fd) :
    effect ((epollAt h).pass k none) fd = echoed (k.input fd) := by
  have hne : fd ≠ sockfd := Nat.ne_of_gt (h.isHistory.bounds hfd).1
  have hmem : fd ∈ (epollAt h).interest := (mem_interest_epoll hne).mpr hfd
  have hstart : effect (epollAt h, []) fd = ([], true) :=
    Prod.ext rfl (List.contains_iff_mem.mpr hmem)
  have hperm := k.order_perm ((epollAt h).interest.filter (k.readable none))
  have hnodup := hperm.nodup_iff.mpr (nodup_interest_epoll.filter _)
  have hevent : fd ∈ k.order ((epollAt h).interest.filter (k.readable none)) ↔
      (k.input fd).isSome := by
    rw [hperm.mem_iff, List.mem_filter, and_iff_right hmem, Kernel.readable_of_isClient hfd]
  rw [pass, events_eq]
  cases hinput : k.input fd with
  | none =>
      have hout := hevent.not.mpr (by rw [hinput]; exact Bool.false_ne_true)
      exact ((sweep k).foldl_of_notMem hout _).trans hstart
  | some input =>
      have hin := hevent.mpr (by rw [hinput]; rfl)
      refine ((sweep k).foldl_of_mem hnodup hin _).trans ?_
      rw [hstart, turn, if_neg hne]
      cases input with
      | data b bs =>
          rw [Kernel.recv_of_data hinput, if_neg (Kernel.length_batch_ne_zero b bs)]
          rfl
      | eof =>
          rw [Kernel.recv_of_eof hinput, if_pos rfl]
          rfl

/-! ## Interchangeability -/

/-- On every client, a pass of `select.c` and a pass of `poll.c` do what a pass
    of `epoll.c` does, and that is to echo. -/
def Interchangeable (fds : Nat → PollFd) (k : Kernel h) : Prop :=
  ∀ fd, h.IsClient fd →
    Select.effect ((selectAt h).pass k none) fd = Epoll.effect ((epollAt h).pass k none) fd ∧
    Poll.effect ((pollAt fds h).pass k none) fd = Epoll.effect ((epollAt h).pass k none) fd ∧
    Epoll.effect ((epollAt h).pass k none) fd = echoed (k.input fd)

/-- `select.c` fails a client that is at its end, and a readable client with
    the highest descriptor. -/
theorem select_iff (k : Kernel h) (hfd : h.IsClient fd) :
    Select.effect ((selectAt h).pass k none) fd = echoed (k.input fd) ↔
      k.input fd ≠ some .eof ∧ (fd < highest sockfd h.events ∨ k.input fd = none) := by
  rw [Select.effect_pass k hfd]
  cases hinput : k.input fd with
  | none => simp [echoed]
  | some input =>
      cases input with
      | data b bs =>
          rw [Kernel.recv_of_data hinput]
          by_cases hbelow : fd < highest sockfd h.events
          · simp [echoed, hbelow]
          · simp [echoed, hbelow]
      | eof =>
          by_cases hbelow : fd < highest sockfd h.events
          · simp [echoed, hbelow]
          · simp [echoed, hbelow]

/-- `poll.c` fails the client with the highest descriptor, always. -/
theorem poll_iff (fds : Nat → PollFd) (k : Kernel h) (hfd : h.IsClient fd) :
    Poll.effect ((pollAt fds h).pass k none) fd = echoed (k.input fd) ↔
      fd < highest sockfd h.events := by
  rw [Poll.effect_pass fds k hfd]
  by_cases hbelow : fd < highest sockfd h.events
  · rw [if_pos hbelow]
    exact iff_of_true rfl hbelow
  · rw [if_neg hbelow]
    refine iff_of_false ?_ hbelow
    rcases k.input fd with _ | _ | _ <;> simp [echoed]

/-- The servers are interchangeable as long as no client is at its end, and
    none has the highest descriptor that was ever accepted. -/
theorem interchangeable_iff (fds : Nat → PollFd) (k : Kernel h) :
    Interchangeable fds k ↔ ∀ fd, h.IsClient fd →
      k.input fd ≠ some .eof ∧ ∃ c, .accept c ∈ h.events ∧ fd < c := by
  refine forall₂_congr fun fd hfd => ?_
  rw [Epoll.effect_pass k hfd, select_iff k hfd, poll_iff fds k hfd,
    ← lt_highest_iff (h.isHistory.bounds hfd).1]
  constructor
  · rintro ⟨⟨hinput, -⟩, hbelow, -⟩
    exact ⟨hinput, hbelow⟩
  · rintro ⟨hinput, hbelow⟩
    exact ⟨⟨hinput, .inl hbelow⟩, hbelow, rfl⟩

/-- One client, which has sent a byte. -/
def oneClient : History 3 where
  events := [.accept 4]
  isHistory := .accept .nil (by decide) (by decide) rfl

def oneByte : Kernel oneClient where
  input fd := if fd = 4 then some (.data 0x61 []) else none
  isClient fd hinput := by
    by_cases hfd : fd = 4
    · rw [hfd]
      rfl
    · rw [if_neg hfd] at hinput
      cases hinput
  other _ := false
  order fds := fds
  order_perm _ := .refl _

/-- The byte is sent back by `epoll.c` only. -/
theorem only_client_not_served :
    ¬ Interchangeable (fun _ => ⟨0, 0, 0⟩) oneByte := by
  intro hsame
  obtain ⟨hselect, -, hepoll⟩ := hsame 4 rfl
  have hbelow := ((select_iff oneByte rfl).mp (hselect.trans hepoll)).2
  revert hbelow
  decide

end LinuxLearning.Echo
