/-
  LinuxLearning.Ustack.TcpServer

  The thread of `tcp_server_entry` on the stack, with the other threads.

  The server watches its sockets with the kernel's `epoll_wait`, which knows
  nothing of them; so what it reports is anybody's choice here.  What the
  server reads from a connection it sends back on it.  A byte that the stack
  accepted from a peer is then in one place, and in its turn: sent, on the
  send ring, in the server's hands, or on the receive ring.

  This asks for fragments that fit into the server's buffer: of a longer one
  `nrecv` returns the length that is left, and the server sends as many bytes.
  And `nsend` has to find the block that `nrecv` read, with memory and room.
-/

import LinuxLearning.Ustack.Atomicity
import LinuxLearning.Ustack.ByteStream
import LinuxLearning.Ustack.OutputProgress

namespace LinuxLearning.Ustack

open Lib

variable {env : Env} {st st' : State} {e : Event} {m : Mbuf} {o : Out} {a b : Addr}
  {t t' : NgTcpStream} {ops past : List StreamOp}

/-! ## The server -/

def BUFFER_SIZE : Nat := 1024

/-- The call the thread of `tcp_server_entry` makes next. -/
inductive TcpServerPc where
  | nsocket
  | nbind
  | nlisten
  /-- In the loop over what `epoll_wait` reported: descriptors, and whether
      with `EPOLLIN`.  At its end the thread is in `epoll_wait`. -/
  | turn (reported : List (Int × Bool))
  | nsend (connfd : Int) (buffer : List Byte) (count : Nat) (reported : List (Int × Bool))
  | nclose (connfd : Int) (reported : List (Int × Bool))
  | returned
deriving DecidableEq, Repr

/-- The stack, and the thread with its local variables. -/
structure TcpServerThread where
  stack : State
  pc : TcpServerPc
  listenfd : Int
  /-- What `epoll_ctl` added to `epfd`. -/
  watched : List Int
  /-- Ghost: the block that `nrecv` read last. -/
  source : Option Addr

/-- A step of the other threads, the thread's next call, or its return from
    `epoll_wait`. -/
inductive TcpServerEvent where
  | stack (e : Event)
  | call (env : Env)
  | epollWait (reported : List (Int × Bool))

/-- Why the thread does not go on. -/
inductive TcpServerHalt where
  | stack (h : Halt)
  /-- `nsend` would read past the end of `buffer`. -/
  | overrun
  | inEpollWait
  /-- The thread is not in `epoll_wait`, or nobody watches this descriptor. -/
  | unreported
  | returned
deriving DecidableEq, Repr

namespace TcpServerThread

/-- The call itself. -/
def next (s : TcpServerThread) (env : Env) : Except TcpServerHalt Event :=
  match s.pc with
  | .nsocket => .ok (.nsocket env SOCK_STREAM)
  | .nbind => .ok (.nbind s.listenfd 0 (htons 9999))
  | .nlisten => .ok (.nlisten s.listenfd)
  | .turn [] => .error .inEpollWait
  | .turn ((connfd, _) :: _) =>
      if connfd = s.listenfd then .ok (.naccept s.listenfd) else .ok (.nrecv connfd BUFFER_SIZE)
  | .nsend connfd buffer count _ =>
      if count ≤ buffer.length then .ok (.nsend env connfd (buffer.take count))
      else .error .overrun
  | .nclose connfd _ => .ok (.nclose env connfd)
  | .returned => .error .returned

/-- What the thread does with the result. -/
def resume (s : TcpServerThread) (o : Out) : TcpServerThread :=
  match s.pc with
  | .nsocket =>
      if o.ret = -1 then { s with pc := .returned } else { s with pc := .nbind, listenfd := o.ret }
  | .nbind => { s with pc := .nlisten }
  | .nlisten => { s with pc := .turn [], watched := [s.listenfd] }
  | .turn [] => s
  | .turn ((connfd, _) :: rest) =>
      if connfd = s.listenfd then
        -- `epoll_ctl` refuses −1, and what is watched already
        { s with
          pc := .turn rest
          watched := if o.ret = -1 then s.watched else s.watched.insert o.ret }
      else if o.ret = 0 then { s with pc := .nclose connfd rest }
      -- `nsend` of −1 bytes fails for want of memory
      else if o.ret < 0 then { s with pc := .turn rest }
      else
        { s with
          pc := .nsend connfd (o.buf ++ List.replicate (BUFFER_SIZE - o.buf.length) 0)
            o.ret.toNat rest
          source := o.ops.head?.map Prod.fst }
  | .nsend _ _ _ rest => { s with pc := .turn rest }
  | .nclose connfd rest => { s with pc := .turn rest, watched := s.watched.erase connfd }
  | .returned => s

/-- The thread as it starts. -/
def start (mac : List Byte) : TcpServerThread where
  stack := .init mac
  pc := .nsocket
  listenfd := -1
  watched := []
  source := none

/-- What the thread is about to send on the block that it read. -/
def hand (s : TcpServerThread) (a : Addr) : List Byte :=
  match s.pc with
  | .nsend _ buffer count _ => if s.source = some a then buffer.take count else []
  | _ => []

end TcpServerThread

/-- One step of the server's thread or of the others.  What is seen of it is
    what it did to the stack. -/
def tcpServerStep (s : TcpServerThread) :
    TcpServerEvent → Except TcpServerHalt (TcpServerThread × Option (Event × Out))
  | .stack e =>
      match step s.stack e with
      | .error h => .error (.stack h)
      | .ok (stack, o) => .ok ({ s with stack := stack }, some (e, o))
  | .call env =>
      match s.next env with
      | .error h => .error h
      | .ok e =>
          match step s.stack e with
          | .error h => .error (.stack h)
          | .ok (stack, o) => .ok ({ s.resume o with stack := stack }, some (e, o))
  | .epollWait reported =>
      if s.pc = .turn [] ∧ ∀ ev ∈ reported, ev.1 ∈ s.watched then
        -- the others are passed over
        .ok ({ s with pc := .turn (reported.filter fun ev => ev.1 = s.listenfd || ev.2) }, none)
      else .error .unreported

abbrev TcpServerHistory := List (TcpServerEvent × Option (Event × Out))

/-- What happened on the stack. -/
def stackHistory (hist : TcpServerHistory) : History := hist.filterMap Prod.snd

/-! ## Conditions -/

/-- A call that moves data of a connection. -/
def Event.isTcpData : Event → Bool
  | .nsend _ _ _ | .nrecv _ _ => true
  | _ => false

/-- `nrecv` takes no fragment that is longer than its buffer. -/
def ReadsWhole (st : State) : Event → Prop
  | .nrecv fd len =>
      ∀ info ∈ getHostinfoFromfd st fd, ∀ t ∈ info.stream?, ∀ f ∈ t.rcvItems.head?, f.length ≤ len
  | _ => True

instance (st : State) : (e : Event) → Decidable (ReadsWhole st e)
  | .nrecv fd _ => inferInstanceAs (Decidable (∀ info ∈ getHostinfoFromfd st fd, _))
  | .packet _ _ | .udpOut _ | .tcpOut _ | .nsocket _ _ | .nbind _ _ _ | .nlisten _ | .naccept _
  | .nsend _ _ _ | .nrecvfrom _ _ _ | .nsendto _ _ _ _ _ | .nclose _ _ => .isTrue trivial

/-- `nsend` finds the block `source`, memory, and room on the send ring. -/
def CanSend (st : State) (source : Option Addr) : Event → Prop
  | .nsend env fd _ =>
      env.malloc .sendFragment = true ∧ env.malloc .sendData = true ∧
        ∃ info ∈ getHostinfoFromfd st fd, source.map Sock.tcp = some info.sock ∧
          ∃ t ∈ info.stream?, ∃ r ∈ t.sndbuf, r.HasRoom
  | _ => True

instance (st : State) (source : Option Addr) : (e : Event) → Decidable (CanSend st source e)
  | .nsend _ fd _ =>
      inferInstanceAs (Decidable (_ ∧ _ ∧ ∃ info ∈ getHostinfoFromfd st fd, _ ∧ _))
  | .packet _ _ | .udpOut _ | .tcpOut _ | .nsocket _ _ | .nbind _ _ _ | .nlisten _ | .naccept _
  | .nrecv _ _ | .nrecvfrom _ _ _ | .nsendto _ _ _ _ _ | .nclose _ _ => .isTrue trivial

/-- The other threads leave the data of connections alone, and have the memory
    for ARP entries; the server reads whole fragments and can send them. -/
def KeepsUp (s : TcpServerThread) : TcpServerEvent → Prop
  | .stack e => LearnsSenders s.stack e ∧ e.isTcpData = false
  | .call env => ∀ e ∈ (s.next env).toOption, ReadsWhole s.stack e ∧ CanSend s.stack s.source e
  | .epollWait _ => True

instance (s : TcpServerThread) : (e : TcpServerEvent) → Decidable (KeepsUp s e)
  | .stack e => inferInstanceAs (Decidable (LearnsSenders s.stack e ∧ e.isTcpData = false))
  | .call env => inferInstanceAs (Decidable (∀ e ∈ (s.next env).toOption, _ ∧ _))
  | .epollWait _ => .isTrue trivial

/-- The runs of the server with the other threads. -/
abbrev TcpServerRun (mac : List Byte) (hist : TcpServerHistory) (s : TcpServerThread) : Prop :=
  Run (Guarded KeepsUp (StepsOf tcpServerStep)) (.start mac) hist s

/-! ## Runs of the stack -/

section Steps

variable {s s' : TcpServerThread} {ev : TcpServerEvent} {x : Option (Event × Out)}
  {hist : TcpServerHistory}

/-- A step of the server's system is one of the stack, after which the thread
    is where it was or has gone on, or the return from `epoll_wait`. -/
inductive ServerTurn (s : TcpServerThread) :
    TcpServerEvent → TcpServerThread → Option (Event × Out) → Prop where
  | other {e : Event} {st' : State} {o : Out} : step s.stack e = .ok (st', o) →
      ServerTurn s (.stack e) { s with stack := st' } (some (e, o))
  | call {env : Env} {e : Event} {st' : State} {o : Out} : s.next env = .ok e →
      step s.stack e = .ok (st', o) →
      ServerTurn s (.call env) { s.resume o with stack := st' } (some (e, o))
  | reported {reported rest : List (Int × Bool)} : s.pc = .turn [] →
      ServerTurn s (.epollWait reported) { s with pc := .turn rest } none

theorem serverTurn_of_step (h : tcpServerStep s ev = .ok (s', x)) : ServerTurn s ev s' x := by
  cases ev with
  | stack e =>
      simp only [tcpServerStep] at h
      split at h
      · cases h
      · rename_i hstep
        obtain ⟨rfl, rfl⟩ := Prod.mk.inj (Except.ok.inj h)
        exact .other hstep
  | call env =>
      simp only [tcpServerStep] at h
      split at h
      · cases h
      · rename_i hnext
        split at h
        · cases h
        · rename_i hstep
          obtain ⟨rfl, rfl⟩ := Prod.mk.inj (Except.ok.inj h)
          exact .call hnext hstep
  | epollWait reported =>
      simp only [tcpServerStep] at h
      split at h
      · rename_i hturn
        obtain ⟨rfl, rfl⟩ := Prod.mk.inj (Except.ok.inj h)
        exact .reported hturn.1
      · cases h

/-- The thread's calls are no packets. -/
theorem learnsSenders_of_next (h : s.next env = .ok e) : LearnsSenders st e := by
  unfold TcpServerThread.next at h
  repeat' split at h
  all_goals cases h
  all_goals trivial

theorem readsWhole_of_other (h : e.isTcpData = false) : ReadsWhole st e := by
  cases e with
  | nrecv => cases h
  | packet | udpOut | tcpOut | nsocket | nbind | nlisten | naccept | nsend | nrecvfrom | nsendto
  | nclose => trivial

/-- What the steps of the server's system do on the stack. -/
def ServesStack (st : State) (e : Event) : Prop := LearnsSenders st e ∧ ReadsWhole st e

theorem stackHistory_snoc (hist : TcpServerHistory) (ev : TcpServerEvent)
    (x : Option (Event × Out)) :
    stackHistory (hist ++ [(ev, x)]) = stackHistory hist ++ x.toList := by
  rw [stackHistory, List.filterMap_append]
  cases x <;> rfl

theorem stackRun_of_run {mac : List Byte} (hrun : TcpServerRun mac hist s) :
    GuardedRun ServesStack (State.init mac) (stackHistory hist) s.stack := by
  induction hrun with
  | start => exact .start
  | @step hist s ev x s' _ hR ih =>
      obtain ⟨hkeeps, hstep⟩ := hR
      rw [stackHistory_snoc]
      cases serverTurn_of_step hstep with
      | other hok => exact ih.step ⟨⟨hkeeps.1, readsWhole_of_other hkeeps.2⟩, hok⟩
      | call hnext hok =>
          have hreads := (hkeeps _ (by rw [hnext]; rfl)).1
          exact ih.step ⟨⟨learnsSenders_of_next hnext, hreads⟩, hok⟩
      | reported =>
          rw [Option.toList_none, List.append_nil]
          exact ih

end Steps

/-! ## The receive ring is a FIFO too -/

/-- The fragments stored on `rcvbuf` since the block was linked, after an
    operation. -/
def arrivedReplay (arrived : List NgTcpFragment) : StreamOp → List NgTcpFragment
  | .link _ | .unlink => []
  | .rcvPut f stored => arrived ++ if stored then [f] else []
  | .segment _ _ | .sndPut _ _ | .sent _ | .sndRequeue _ _ | .rcvGet _ | .rcvRequeue _ _
  | .accept _ | .signal => arrived

/-- The fragments `nrecv` took since the block was linked, after an
    operation. -/
def takenReplay (taken : List NgTcpFragment) : StreamOp → List NgTcpFragment
  | .link _ | .unlink => []
  | .rcvGet f => taken ++ [f]
  | .segment _ _ | .sndPut _ _ | .sent _ | .sndRequeue _ _ | .rcvPut _ _ | .rcvRequeue _ _
  | .accept _ | .signal => taken

/-- The fragments stored on `rcvbuf` since the block was linked. -/
def arrivedFragments (ops : List StreamOp) : List NgTcpFragment := ops.foldl arrivedReplay []

/-- The fragments `nrecv` took since the block was linked. -/
def takenFragments (ops : List StreamOp) : List NgTcpFragment := ops.foldl takenReplay []

/-- As long as nothing is put back, one operation keeps what was taken, with
    what is still there behind it, equal to what arrived. -/
theorem rcvFifo_replay {arrived taken items items' : List NgTcpFragment} {op : StreamOp}
    (hop : ∀ f stored, op ≠ .rcvRequeue f stored) (hfifo : arrived = taken ++ items)
    (h : rcvReplay items op = some items') :
    arrivedReplay arrived op = takenReplay taken op ++ items' := by
  subst hfifo
  cases op with
  | link | unlink =>
      obtain rfl := Option.some.inj h
      rfl
  | rcvPut f stored =>
      obtain rfl := Option.some.inj h
      exact List.append_assoc ..
  | rcvGet f =>
      obtain rfl := eq_cons_of_takeHead h
      simp [arrivedReplay, takenReplay]
  | rcvRequeue f stored => exact absurd rfl (hop f stored)
  | segment | sndPut | sent | sndRequeue | accept | signal =>
      obtain rfl := Option.some.inj h
      rfl

theorem rcvFifo_foldl {arrived taken items items' : List NgTcpFragment}
    (hops : ∀ f stored, .rcvRequeue f stored ∉ ops) (hfifo : arrived = taken ++ items)
    (h : ops.foldlM rcvReplay items = some items') :
    ops.foldl arrivedReplay arrived = ops.foldl takenReplay taken ++ items' := by
  induction ops generalizing arrived taken items with
  | nil =>
      obtain rfl := Option.some.inj h
      exact hfifo
  | cons op rest ih =>
      rw [List.foldlM_cons] at h
      obtain ⟨mid, hmid, hrest⟩ := Option.bind_eq_some_iff.mp h
      have hop : ∀ f stored, op ≠ .rcvRequeue f stored := by
        rintro f stored rfl
        exact hops f stored (List.mem_cons_self ..)
      have hops' : ∀ f stored, .rcvRequeue f stored ∉ rest := fun f stored hmem =>
        hops f stored (List.mem_cons_of_mem _ hmem)
      exact ih hops' (rcvFifo_replay hop hfifo hmid) hrest

theorem OutCases.takes_whole (h : OutCases t t' ops) (f : NgTcpFragment) (stored : Bool) :
    .rcvRequeue f stored ∉ coreOps ops := by
  cases h <;> simp [coreOps]

/-- What `nrecv` puts back did not fit. -/
theorem TcbChange.takes_whole {before after : Option NgTcpStream}
    (h : TcbChange st e a ops before after) (hreads : ReadsWhole st e) (f : NgTcpFragment)
    (stored : Bool) : .rcvRequeue f stored ∉ ops := by
  cases h with
  | idle | bound | listening => exact List.not_mem_nil
  | seen | opened | accepted | sending | closing | closed | synAcked | synUnanswered | handshake
  | destroyed => simp
  | @reading fd len t t' ops buf ret he hinfo hread =>
      cases nrecvStream_ok hread with
      | whole => simp [coreOps]
      | @part r r' r'' f' data hr hitems hlt hdata hput =>
          subst he
          have hle : f'.length ≤ len := by
            refine hreads _ hinfo t rfl f' ?_
            rw [NgTcpStream.rcvItems, hr, ringItems_some, hitems]
            rfl
          omega
  | data he hf hst hest =>
      intro hmem
      rcases List.mem_cons.mp hmem with heq | hmem
      · cases heq
      · rcases (ngTcpHandleEstablished_ok hest).mem_ops hmem with
          ⟨b, len, f', stored', -, -, heq⟩ | ⟨u, stored', heq⟩
        · cases heq
        · cases heq
  | output => exact (tcpOutStream_cases ..).takes_whole f stored

/-- What arrived on a block was taken, in order, or waits. -/
def RcvFifo (past : List StreamOp) (cell : Option NgTcpStream) : Prop :=
  arrivedFragments past = takenFragments past ++ cellRcv cell

theorem TcbChange.rcvFifo {before after : Option NgTcpStream}
    (h : TcbChange st e a ops before after) (hreads : ReadsWhole st e)
    (hfifo : RcvFifo past before) : RcvFifo (past ++ ops) after := by
  rw [RcvFifo, arrivedFragments, takenFragments, List.foldl_append, List.foldl_append]
  exact rcvFifo_foldl (h.takes_whole hreads) hfifo h.replays.rcv

theorem rcvFifo_of_run {mac : List Byte} {hist : History}
    (hrun : GuardedRun ServesStack (State.init mac) hist st) (a : Addr) :
    RcvFifo (opsOf hist a) (st.tcb a) :=
  guardedRun_tcb_invariant (fun _ => rfl)
    (fun _ _ _ _ _ _ _ hC hfifo hchange => hchange.rcvFifo hC.2 hfifo) hrun a

/-- In every run what was queued on a connection was sent, in order, or
    waits. -/
theorem sndFifo_of_run {mac : List Byte} {hist : History}
    (hrun : GuardedRun ServesStack (State.init mac) hist st) (hsyn : MadeBySyn (opsOf hist a)) :
    queuedFragments (opsOf hist a) = sentFragments (opsOf hist a) ++ cellSnd (st.tcb a) := by
  have hinit : OrderInv (State.init mac) [] none := ⟨rfl, fun ⟨syn, hmem⟩ => nomatch hmem⟩
  have hinv := guardedRun_life_invariant (C := ServesStack) hinit
    (fun s e o s' a past hC => orderInv_step hC.1) hrun a
  exact (hinv.inOrder hsyn).fifo

/-! ## What a step does to the account of a connection -/

/-- The bytes fragments carry. -/
def payloads (fs : List NgTcpFragment) : List Byte := fs.flatMap NgTcpFragment.payload

theorem payloads_append (fs gs : List NgTcpFragment) :
    payloads (fs ++ gs) = payloads fs ++ payloads gs := List.flatMap_append

theorem payload_of_length_zero {f : NgTcpFragment} (h : f.length = 0) : f.payload = [] := by
  rw [NgTcpFragment.payload, h, List.take_zero]

/-- An operation that neither takes data nor queues any. -/
def StreamOp.movesNoData : StreamOp → Bool
  | .link _ | .unlink | .rcvGet _ | .rcvRequeue _ _ => false
  | .sndPut f _ => f.length == 0
  | .segment _ _ | .sent _ | .sndRequeue _ _ | .rcvPut _ _ | .accept _ | .signal => true

theorem fold_of_movesNoData (hops : ∀ op ∈ ops, op.movesNoData = true)
    (queued taken : List NgTcpFragment) :
    payloads (ops.foldl queuedReplay queued) = payloads queued ∧
      ops.foldl takenReplay taken = taken := by
  induction ops generalizing queued taken with
  | nil => exact ⟨rfl, rfl⟩
  | cons op rest ih =>
      rw [List.forall_mem_cons] at hops
      obtain ⟨hqueued, htaken⟩ := ih hops.2 (queuedReplay queued op) (takenReplay taken op)
      rw [List.foldl_cons, List.foldl_cons, hqueued, htaken]
      cases op with
      | link | unlink | rcvGet | rcvRequeue => cases hops.1
      | sndPut f stored =>
          have hnil : f.payload = [] := payload_of_length_zero (beq_iff_eq.mp hops.1)
          refine ⟨?_, rfl⟩
          rw [queuedReplay, payloads_append]
          cases stored <;> simp [payloads, hnil]
      | segment | sent | sndRequeue | rcvPut | accept | signal => exact ⟨rfl, rfl⟩

theorem OutCases.movesNoData (h : OutCases t t' ops) :
    ∀ op ∈ coreOps ops, op.movesNoData = true := by
  cases h <;> simp [coreOps, StreamOp.movesNoData]

/-- Only `nrecv` and `nsend` move the data of a block that stays linked. -/
theorem TcbChange.movesNoData (h : TcbChange st e a ops (some t) (some t'))
    (he : e.isTcpData = false) : ∀ op ∈ ops, op.movesNoData = true := by
  cases h with
  | idle | bound | listening => exact List.forall_mem_nil _
  | seen | accepted | handshake => simp [StreamOp.movesNoData]
  | closing => simp [StreamOp.movesNoData, finFragment]
  | sending he' | reading he' =>
      subst he'
      cases he
  | data he' hf hst hest =>
      rw [List.forall_mem_cons]
      refine ⟨rfl, fun op hop => ?_⟩
      rcases (ngTcpHandleEstablished_ok hest).mem_ops hop with
        ⟨b, len, f, stored, -, -, rfl⟩ | ⟨u, stored, rfl⟩
      · rfl
      · rfl
  | output => exact (tcpOutStream_cases ..).movesNoData

/-- The payloads queued and the fragments taken after a step that is neither:
    a new block has none. -/
theorem account_of_other (h : step st e = .ok (st', o)) (he : e.isTcpData = false)
    (ht' : st'.tcb a = some t') (past : List StreamOp) :
    ((st.tcb a).isSome = true ∧
      payloads (queuedFragments (past ++ o.opsOf a)) = payloads (queuedFragments past) ∧
      takenFragments (past ++ o.opsOf a) = takenFragments past) ∨
    (a = st.tcbSet.next ∧ payloads (queuedFragments (past ++ o.opsOf a)) = [] ∧
      takenFragments (past ++ o.opsOf a) = []) := by
  have hchange := tcbChange_of_step h a
  rw [ht'] at hchange
  simp only [queuedFragments, takenFragments, List.foldl_append]
  generalize o.opsOf a = ops at hchange ⊢
  cases hcell : st.tcb a with
  | some t =>
      rw [hcell] at hchange
      exact .inl ⟨rfl, fold_of_movesNoData (hchange.movesNoData he) _ _⟩
  | none =>
      rw [hcell] at hchange
      refine .inr ?_
      cases hchange with
      | opened he' ha hsnd hrcv => exact ⟨ha, rfl, rfl⟩
      | @synAcked env m l t syn live r he' hf hst hsyn ha hc hm hsnd =>
          -- the SYN-ACK carries nothing
          refine ⟨ha, ?_, rfl⟩
          cases (r.mpEnqueue (synAckFragment syn m.segment)).2 <;> rfl
      | synUnanswered he' hf hst hsyn ha hc hm => exact ⟨ha, rfl, rfl⟩

/-- `nrecv` finds nothing to read, or takes one whole fragment. -/
theorem nrecv_whole {fd : Int} {len : Nat} (h : nrecv st fd len = .ok (st', o))
    (hreads : ReadsWhole st (.nrecv fd len)) :
    (st' = st ∧ o.ops = [] ∧ o.ret ≤ 0) ∨
    ∃ a t t' f, st.tcb a = some t ∧ f ∈ t.rcvItems ∧ st' = st.setTcb a t' ∧
      o.ops = [(a, .rcvGet f)] ∧ o.buf = f.payload ∧ o.ret = f.length ∧ f.length ≤ len := by
  unfold nrecv at h
  cases hinfo : getHostinfoFromfd st fd with
  | none =>
      rw [hinfo] at h
      obtain ⟨rfl, rfl⟩ := Prod.mk.inj (Except.ok.inj h)
      exact .inl ⟨rfl, rfl, by decide⟩
  | some info =>
      cases info with
      | localhost a host =>
          rw [hinfo] at h
          obtain ⟨rfl, rfl⟩ := Prod.mk.inj (Except.ok.inj h)
          exact .inl ⟨rfl, rfl, Int.le_refl 0⟩
      | stream a t =>
          have hhead : ∀ {r r' : RteRing NgTcpFragment} {f : NgTcpFragment}, t.rcvbuf = some r →
              r.items = f :: r'.items → t.rcvItems = f :: r'.items := fun hr hitems => by
            rw [NgTcpStream.rcvItems, hr, ringItems_some, hitems]
          simp only [hinfo] at h
          split at h
          · cases h
          · rename_i t' ops buf ret hread
            obtain ⟨rfl, rfl⟩ := Prod.mk.inj (Except.ok.inj h)
            cases nrecvStream_ok hread with
            | @whole r r' f hr hitems hle =>
                have hf : f ∈ t.rcvItems := hhead hr hitems ▸ List.mem_cons_self
                exact .inr ⟨a, t, _, f, (tcb_of_hostinfo hinfo).1, hf, rfl, rfl, rfl, rfl, hle⟩
            | @part r r' r'' f data hr hitems hlt =>
                have hle : f.length ≤ len :=
                  hreads _ hinfo t rfl f (by rw [hhead hr hitems]; rfl)
                omega

/-- `nsend` queues the bytes on the block it finds. -/
theorem nsend_queues {fd : Int} {buf : List Byte} {source : Option Addr}
    (h : nsend env st fd buf = .ok (st', o)) (hcan : CanSend st source (.nsend env fd buf)) :
    ∃ a t t', source = some a ∧ st.tcb a = some t ∧ st' = st.setTcb a t' ∧
      o.ops = [(a, .sndPut (sendFragment t buf) true)] := by
  obtain ⟨hmem, hdata, info, hinfo, hsource, t, ht, r, hr, hroom⟩ := hcan
  rw [Option.mem_def] at hinfo ht hr
  cases info with
  | localhost b host => cases ht
  | stream a u =>
      obtain rfl := Option.some.inj ht
      have ha : source = some a := by
        cases source with
        | none => cases hsource
        | some b =>
            obtain rfl := Sock.tcp.inj (Option.some.inj hsource)
            rfl
      obtain ⟨hput, hstored⟩ := RteRing.mpEnqueue_of_hasRoom (x := sendFragment u buf) hroom
      simp only [nsend, hinfo, hmem, hdata, NgTcpStream.enqueueSnd, hr, Bool.true_eq_false,
        if_false, hstored] at h
      obtain ⟨rfl, rfl⟩ := Prod.mk.inj (Except.ok.inj h)
      exact ⟨a, u, _, ha, (tcb_of_hostinfo hinfo).1, rfl, rfl⟩

/-! ## The thread's calls -/

section Server

variable {s s' : TcpServerThread} {hist : History}

/-- The call that the thread makes next: one that moves no data, with nothing
    in hand before and after, or `nrecv`, or `nsend`. -/
inductive NextCases (s : TcpServerThread) (env : Env) : Event → Prop where
  | quiet {e : Event} : e.isTcpData = false → (∀ a, s.hand a = []) →
      (∀ o, (s.resume o).source = s.source ∧ ∀ a, (s.resume o).hand a = []) → NextCases s env e
  | reading {connfd : Int} {epollin : Bool} {rest : List (Int × Bool)} :
      s.pc = .turn ((connfd, epollin) :: rest) → connfd ≠ s.listenfd →
      NextCases s env (.nrecv connfd BUFFER_SIZE)
  | sending {connfd : Int} {buffer : List Byte} {count : Nat} {rest : List (Int × Bool)} :
      s.pc = .nsend connfd buffer count rest →
      NextCases s env (.nsend env connfd (buffer.take count))

theorem next_cases (h : s.next env = .ok e) : NextCases s env e := by
  unfold TcpServerThread.next at h
  split at h
  · rename_i hpc
    cases h
    refine .quiet rfl (fun a => by rw [TcpServerThread.hand, hpc]) fun o => ?_
    simp only [TcpServerThread.resume, hpc]
    split <;> exact ⟨rfl, fun a => rfl⟩
  · rename_i hpc
    cases h
    refine .quiet rfl (fun a => by rw [TcpServerThread.hand, hpc]) fun o => ?_
    rw [TcpServerThread.resume, hpc]
    exact ⟨rfl, fun a => rfl⟩
  · rename_i hpc
    cases h
    refine .quiet rfl (fun a => by rw [TcpServerThread.hand, hpc]) fun o => ?_
    rw [TcpServerThread.resume, hpc]
    exact ⟨rfl, fun a => rfl⟩
  · cases h
  · rename_i connfd epollin rest hpc
    split at h
    · rename_i hlisten
      cases h
      refine .quiet rfl (fun a => by rw [TcpServerThread.hand, hpc]) fun o => ?_
      simp only [TcpServerThread.resume, hpc, if_pos hlisten]
      exact ⟨trivial, fun a => rfl⟩
    · rename_i hlisten
      cases h
      exact .reading hpc hlisten
  · rename_i connfd buffer count rest hpc
    split at h
    · cases h
      exact .sending hpc
    · cases h
  · rename_i connfd rest hpc
    cases h
    refine .quiet rfl (fun a => by rw [TcpServerThread.hand, hpc]) fun o => ?_
    rw [TcpServerThread.resume, hpc]
    exact ⟨rfl, fun a => rfl⟩
  · cases h

/-- After `nrecv` found nothing to read, nothing is in hand. -/
theorem resume_of_nothing {connfd : Int} {epollin : Bool} {rest : List (Int × Bool)}
    (hpc : s.pc = .turn ((connfd, epollin) :: rest)) (hconn : connfd ≠ s.listenfd)
    (hret : o.ret ≤ 0) :
    (s.resume o).source = s.source ∧ ∀ a, (s.resume o).hand a = [] := by
  simp only [TcpServerThread.resume, hpc, if_neg hconn]
  by_cases hzero : o.ret = 0
  · rw [if_pos hzero]
    exact ⟨rfl, fun a => rfl⟩
  · rw [if_neg hzero, if_pos (by omega)]
    exact ⟨rfl, fun a => rfl⟩

/-- After `nrecv` the fragment is in hand. -/
theorem resume_of_fragment {connfd : Int} {epollin : Bool} {rest : List (Int × Bool)}
    {f : NgTcpFragment} (hpc : s.pc = .turn ((connfd, epollin) :: rest))
    (hconn : connfd ≠ s.listenfd) (hops : o.ops = [(a, .rcvGet f)]) (hbuf : o.buf = f.payload)
    (hret : o.ret = f.length) (hfilled : 0 < f.length → f.Filled) :
    (∀ b ∈ (s.resume o).source, b = a ∨ b ∈ s.source) ∧
      ∀ b, (s.resume o).hand b = if b = a then f.payload else [] := by
  by_cases hzero : f.length = 0
  · have hnothing := resume_of_nothing hpc hconn (o := o) (by omega)
    refine ⟨fun b hb => .inr (hnothing.1 ▸ hb), fun b => ?_⟩
    rw [hnothing.2, payload_of_length_zero hzero, ite_self]
  · have hresume : s.resume o =
        { s with
          pc := .nsend connfd (f.payload ++ List.replicate (BUFFER_SIZE - f.payload.length) 0)
            f.length rest
          source := some a } := by
      simp only [TcpServerThread.resume, hpc, if_neg hconn]
      rw [if_neg (by omega), if_neg (by omega), hbuf, hret, hops]
      rfl
    have htake : (f.payload ++ List.replicate (BUFFER_SIZE - f.payload.length) 0).take f.length =
        f.payload := by
      rw [← (hfilled (Nat.pos_of_ne_zero hzero)).length_payload, List.take_left]
    rw [hresume]
    refine ⟨fun b hb => .inl (Option.some.inj hb).symm, fun b => ?_⟩
    simp only [TcpServerThread.hand, htake, Option.some.injEq, eq_comm]

theorem resume_of_sent {connfd : Int} {buffer : List Byte} {count : Nat}
    {rest : List (Int × Bool)} (hpc : s.pc = .nsend connfd buffer count rest) (o : Out) :
    (s.resume o).source = s.source ∧ ∀ a, (s.resume o).hand a = [] := by
  rw [TcpServerThread.resume, hpc]
  exact ⟨rfl, fun a => rfl⟩

/-! ## The account -/

/-- The data taken from a linked block was queued on it, or is in the
    thread's hands. -/
structure EchoInv (hist : History) (s : TcpServerThread) : Prop where
  account : ∀ a t, s.stack.tcb a = some t → payloads (takenFragments (opsOf hist a)) =
    payloads (queuedFragments (opsOf hist a)) ++ s.hand a
  fresh : ∀ a ∈ s.source, a < s.stack.tcbSet.next
  small : ∀ a, (s.hand a).length ≤ BUFFER_SIZE

/-- Nothing is in hand for a block that was not there yet. -/
theorem EchoInv.hand_next (h : EchoInv hist s) (hle : s.stack.tcbSet.next ≤ a) :
    s.hand a = [] := by
  unfold TcpServerThread.hand
  split
  · split
    · rename_i hsource
      exact absurd (h.fresh a hsource) (Nat.not_lt.mpr hle)
    · rfl
  · rfl

/-- The steps that move no data. -/
theorem EchoInv.quiet (h : EchoInv hist s) (hstep : step s.stack e = .ok (st', o))
    (he : e.isTcpData = false) (hstack : s'.stack = st') (hsource : s'.source = s.source)
    (hhand : ∀ a, s'.hand a = s.hand a) : EchoInv (hist ++ [(e, o)]) s' where
  account a t' ht' := by
    rw [hstack] at ht'
    rw [opsOf_snoc, hhand]
    rcases account_of_other hstep he ht' (opsOf hist a) with
      ⟨hsome, hqueued, htaken⟩ | ⟨rfl, hqueued, htaken⟩
    · obtain ⟨t, ht⟩ := Option.isSome_iff_exists.mp hsome
      rw [hqueued, htaken]
      exact h.account a t ht
    · rw [hqueued, htaken, h.hand_next (Nat.le_refl _)]
      rfl
  fresh a ha := by
    rw [hsource] at ha
    rw [hstack]
    exact Nat.lt_of_lt_of_le (h.fresh a ha) (evolved_of_step hstep).next_le
  small a := by
    rw [hhand]
    exact h.small a

/-- A step that makes one operation on one linked block. -/
theorem EchoInv.moved {op : StreamOp} (h : EchoInv hist s) (ht : s.stack.tcb a = some t)
    (hops : o.ops = [(a, op)]) (hop : op ≠ .signal) (hstack : s'.stack = s.stack.setTcb a t')
    (hsource : ∀ b ∈ s'.source, b = a ∨ b ∈ s.source)
    (hsmall : ∀ b, (s'.hand b).length ≤ BUFFER_SIZE) (hother : ∀ b ≠ a, s'.hand b = s.hand b)
    (hself : ∀ queued taken, payloads taken = payloads queued ++ s.hand a →
      payloads (takenReplay taken op) = payloads (queuedReplay queued op) ++ s'.hand a) :
    EchoInv (hist ++ [(e, o)]) s' where
  account b u hu := by
    rw [hstack, tcb_setTcb] at hu
    have hcore : coreOps [op] = [op] := List.filter_eq_self.mpr (by simpa using hop)
    rw [opsOf_snoc, opsOf_of_map o a [op] hops, hcore]
    by_cases hb : b = a
    · subst hb
      rw [if_pos rfl, takenFragments, queuedFragments, List.foldl_append, List.foldl_append]
      exact hself _ _ (h.account b t ht)
    · rw [if_neg hb] at hu
      rw [if_neg hb, List.append_nil, hother b hb]
      exact h.account b u hu
  fresh b hb := by
    rw [hstack]
    change b < s.stack.tcbSet.next
    rcases hsource b hb with rfl | hb
    · exact Table.lt_next_of_get? ht
    · exact h.fresh b hb
  small := hsmall

/-- The server reads. -/
theorem EchoInv.read {fd : Int} {epollin : Bool} {rest : List (Int × Bool)}
    (h : EchoInv hist s) (hreads : ReadsWhole s.stack (.nrecv fd BUFFER_SIZE))
    (hstep : nrecv s.stack fd BUFFER_SIZE = .ok (st', o))
    (hpc : s.pc = .turn ((fd, epollin) :: rest)) (hfd : fd ≠ s.listenfd)
    (hfilled : ∀ a t, s.stack.tcb a = some t → ∀ f ∈ t.rcvItems, 0 < f.length → f.Filled) :
    EchoInv (hist ++ [(.nrecv fd BUFFER_SIZE, o)]) { s.resume o with stack := st' } := by
  have hbefore : ∀ a, s.hand a = [] := fun a => by rw [TcpServerThread.hand, hpc]
  rcases nrecv_whole hstep hreads with
    ⟨rfl, hops, hret⟩ | ⟨a, t, t', f, ht, hf, rfl, hops, hbuf, hret, hle⟩
  · obtain ⟨hsource, hhand⟩ := resume_of_nothing hpc hfd hret
    refine ⟨fun b u hu => ?_, fun b hb => h.fresh b (hsource ▸ hb), fun b => ?_⟩
    · have hnone : o.opsOf b = [] := by rw [Out.opsOf, hops]; rfl
      have haccount := h.account b u hu
      rw [hbefore] at haccount
      rw [opsOf_snoc, hnone, List.append_nil]
      exact haccount.trans (congrArg _ (hhand b).symm)
    · change ((s.resume o).hand b).length ≤ _
      rw [hhand]
      exact Nat.zero_le _
  · obtain ⟨hsource, hhand⟩ := resume_of_fragment hpc hfd hops hbuf hret (hfilled a t ht f hf)
    have hlen : f.payload.length ≤ BUFFER_SIZE := by
      rw [NgTcpFragment.payload, List.length_take]
      exact Nat.le_trans (Nat.min_le_left ..) hle
    refine h.moved ht hops (by simp) rfl hsource (fun b => ?_) (fun b hb => ?_) ?_
    · change ((s.resume o).hand b).length ≤ _
      rw [hhand]
      split
      · exact hlen
      · exact Nat.zero_le _
    · change (s.resume o).hand b = _
      rw [hhand, if_neg hb, hbefore]
    · intro queued taken haccount
      change payloads (taken ++ [f]) = payloads queued ++ (s.resume o).hand a
      rw [hhand, if_pos rfl, payloads_append, haccount, hbefore, List.append_nil]
      exact congrArg _ (List.append_nil _)

/-- The server sends. -/
theorem EchoInv.sent {fd : Int} {buffer : List Byte} {count : Nat} {rest : List (Int × Bool)}
    (h : EchoInv hist s) (hcan : CanSend s.stack s.source (.nsend env fd (buffer.take count)))
    (hstep : nsend env s.stack fd (buffer.take count) = .ok (st', o))
    (hpc : s.pc = .nsend fd buffer count rest) :
    EchoInv (hist ++ [(.nsend env fd (buffer.take count), o)])
      { s.resume o with stack := st' } := by
  obtain ⟨a, t, t', hsource, ht, rfl, hops⟩ := nsend_queues hstep hcan
  obtain ⟨hsource', hhand'⟩ := resume_of_sent hpc o
  have hbefore : ∀ b, s.hand b = if b = a then buffer.take count else [] := fun b => by
    simp only [TcpServerThread.hand, hpc, hsource, Option.some.injEq, eq_comm]
  refine h.moved ht hops (by simp) rfl (fun b hb => .inr (hsource' ▸ hb)) (fun b => ?_)
    (fun b hb => ?_) ?_
  · change ((s.resume o).hand b).length ≤ _
    rw [hhand']
    exact Nat.zero_le _
  · change (s.resume o).hand b = _
    rw [hhand', hbefore, if_neg hb]
  · intro queued taken haccount
    change payloads taken =
      payloads (queued ++ [sendFragment t (buffer.take count)]) ++ (s.resume o).hand a
    -- the whole string is sent: it is shorter than what `length` can hold
    have hlen := h.small a
    have hself : s.hand a = buffer.take count := by rw [hbefore, if_pos rfl]
    rw [hself] at haccount hlen
    have hpayload : (sendFragment t (buffer.take count)).payload = buffer.take count := by
      rw [payload_sendFragment, Nat.mod_eq_of_lt (Nat.lt_of_le_of_lt hlen (by decide)),
        List.take_length]
    rw [hhand', List.append_nil, payloads_append, haccount]
    simp only [payloads, List.flatMap_cons, List.flatMap_nil, List.append_nil, hpayload]

end Server

/-- In every run of the server the account is kept. -/
theorem echoInv_of_run {mac : List Byte} {hist : TcpServerHistory} {s : TcpServerThread}
    (hrun : TcpServerRun mac hist s) : EchoInv (stackHistory hist) s := by
  induction hrun with
  | start => exact ⟨nofun, nofun, fun a => Nat.zero_le _⟩
  | @step hist s ev x s' hpre hR ih =>
      obtain ⟨hkeeps, hstep⟩ := hR
      rw [stackHistory_snoc]
      cases serverTurn_of_step hstep with
      | other hok => exact ih.quiet hok hkeeps.2 rfl rfl fun a => rfl
      | @call env e st' o hnext hok =>
          obtain ⟨hreads, hcan⟩ := hkeeps _ (by rw [hnext]; rfl)
          cases next_cases hnext with
          | quiet he hhand hresume =>
              refine ih.quiet hok he rfl (hresume o).1 fun a => ?_
              exact ((hresume o).2 a).trans (hhand a).symm
          | reading hpc hfd =>
              exact ih.read hreads hok hpc hfd fun a t ht =>
                filled_of_run (stackRun_of_run hpre).of_guarded ht
          | sending hpc => exact ih.sent hcan hok hpc
      | reported hpc =>
          rw [Option.toList_none, List.append_nil]
          refine ⟨fun a t ht => ?_, ih.fresh, fun a => Nat.zero_le _⟩
          have haccount := ih.account a t ht
          rwa [TcpServerThread.hand, hpc] at haccount

/-- In every run of the server with the threads of the stack and of the other
    applications: the bytes that were accepted on a connection are, in order,
    those sent on it, those of the fragments on its send ring, those in the
    server's hands, and those on its receive ring. -/
theorem tcp_server_echoes (mac : List Byte) (hist : TcpServerHistory) (s : TcpServerThread)
    (a : Addr) (t : NgTcpStream) (hrun : TcpServerRun mac hist s) (ht : s.stack.tcb a = some t)
    (hsyn : MadeBySyn (opsOf (stackHistory hist) a)) :
    payloads (arrivedFragments (opsOf (stackHistory hist) a)) =
      payloads (sentFragments (opsOf (stackHistory hist) a)) ++ payloads t.sndItems ++
        s.hand a ++ payloads t.rcvItems := by
  have hstack := stackRun_of_run hrun
  have hrcv : arrivedFragments (opsOf (stackHistory hist) a) =
      takenFragments (opsOf (stackHistory hist) a) ++ cellRcv (s.stack.tcb a) :=
    rcvFifo_of_run hstack a
  have hsnd := sndFifo_of_run hstack hsyn
  rw [ht] at hrcv hsnd
  calc payloads (arrivedFragments (opsOf (stackHistory hist) a))
      = payloads (takenFragments (opsOf (stackHistory hist) a)) ++ payloads t.rcvItems := by
        rw [hrcv, payloads_append]
        rfl
    _ = payloads (queuedFragments (opsOf (stackHistory hist) a)) ++ s.hand a ++
          payloads t.rcvItems := by
        rw [(echoInv_of_run hrun).account a t ht]
    _ = payloads (sentFragments (opsOf (stackHistory hist) a)) ++ payloads t.sndItems ++
          s.hand a ++ payloads t.rcvItems := by
        rw [hsnd, payloads_append]
        rfl

/-- A segment with data from the peer. -/
def peerPush (seqnum : BitVec 32) (data : List Byte) : TcpServerEvent :=
  .stack (.packet .plain (peerSegment (RTE_TCP_ACK_FLAG ||| RTE_TCP_PSH_FLAG) seqnum 1001 data))

/-- Of seven bytes three are sent, two on the send ring, one in the server's
    hands and one on the receive ring. -/
theorem tcp_server_echoes_seven : ∃ (hist : TcpServerHistory) (s : TcpServerThread)
    (t : NgTcpStream), TcpServerRun [] hist s ∧ s.stack.tcb 1 = some t ∧
    MadeBySyn (opsOf (stackHistory hist) 1) ∧
    payloads (sentFragments (opsOf (stackHistory hist) 1)) = [97, 98, 99] ∧
    payloads t.sndItems = [100, 101] ∧ s.hand 1 = [102] ∧ payloads t.rcvItems = [103] ∧
    payloads (arrivedFragments (opsOf (stackHistory hist) 1)) = [97, 98, 99] ++ [100, 101] ++
      [102] ++ [103] := by
  have hrun : execsTo (guardStep KeepsUp .returned tcpServerStep) (.start [])
      [.call .plain, .call .plain, .call .plain,
       .stack (.packet .plain (peerSegment RTE_TCP_SYN_FLAG 500 0 [])),
       .stack (.packet .plain (peerSegment RTE_TCP_ACK_FLAG 501 1001 [])),
       .epollWait [(3, true)], .call .plain, peerPush 501 [97, 98, 99], .epollWait [(4, true)],
       .call .plain, peerPush 504 [100, 101], .call .plain, .stack (.tcpOut .plain),
       .stack (.tcpOut .plain), .stack (.tcpOut .plain), .stack (.tcpOut .plain),
       .epollWait [(4, false), (4, true)], .call .plain, .call .plain, peerPush 506 [102],
       .epollWait [(4, true)], .call .plain, peerPush 507 [103]]
      (fun hist s =>
        (opsOf (stackHistory hist) 1).any (fun op =>
          decide (op = .link (some (peerSegment RTE_TCP_SYN_FLAG 500 0 []).segment))) &&
        (s.stack.tcb 1).any (fun t =>
          decide (payloads (sentFragments (opsOf (stackHistory hist) 1)) = [97, 98, 99]) &&
          decide (payloads t.sndItems = [100, 101] ∧ s.hand 1 = [102] ∧
            payloads t.rcvItems = [103]))) = true := by
    decide +kernel
  obtain ⟨hist, s, hexec, hP⟩ := exec_of_execsTo hrun
  rw [Bool.and_eq_true, Option.any_eq_true, List.any_eq_true] at hP
  obtain ⟨⟨op, hop, hlink⟩, t, ht, hparts⟩ := hP
  rw [Bool.and_eq_true, decide_eq_true_eq, decide_eq_true_eq] at hparts
  obtain ⟨hsent, hsnd, hhand, hrcv⟩ := hparts
  have hsyn : MadeBySyn (opsOf (stackHistory hist) 1) := by
    rw [decide_eq_true_eq] at hlink
    exact ⟨_, hlink ▸ hop⟩
  have hechoes := tcp_server_echoes [] hist s 1 t (guarded_of_exec hexec) ht hsyn
  rw [hsent, hsnd, hhand, hrcv] at hechoes
  exact ⟨hist, s, t, guarded_of_exec hexec, ht, hsyn, hsent, hsnd, hhand, hrcv, hechoes⟩

end LinuxLearning.Ustack
