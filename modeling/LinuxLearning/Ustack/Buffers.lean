/-
  LinuxLearning.Ustack.Buffers

  The two rings of a control block.

  First the specifications of the functions that put fragments on them: what
  `ng_tcp_enqueue_recvbuffer`, `ng_tcp_send_ackpkt` and with them
  `ng_tcp_handle_established` do, as equations on the fields of the block.

  Then the link between a run's reports and its states: replaying the
  reported operations gives exactly the fragments on the rings
  (`sndItems_replay`, `rcvItems_replay`), so a theorem about reports is a
  theorem about the rings.
-/

import LinuxLearning.Ustack.TcbStep

namespace LinuxLearning.Ustack

open Lib

variable {env : Env} {b : SegBranch} {t t' : NgTcpStream} {tcphdr : Ptr} {ops : List StreamOp}

/-! ## The fragments on a block's rings -/

/-- The fragments on a ring that may be missing. -/
def ringItems : Option (RteRing NgTcpFragment) → List NgTcpFragment
  | none => []
  | some r => r.items

@[simp] theorem ringItems_none : ringItems none = [] := rfl

@[simp] theorem ringItems_some (r : RteRing NgTcpFragment) : ringItems (some r) = r.items := rfl

/-- The fragments on `sndbuf`, oldest first. -/
def NgTcpStream.sndItems (t : NgTcpStream) : List NgTcpFragment := ringItems t.sndbuf

/-- The fragments on `rcvbuf`, oldest first. -/
def NgTcpStream.rcvItems (t : NgTcpStream) : List NgTcpFragment := ringItems t.rcvbuf

/-- Inserting the fragment, if there is one, takes the ring `ring` to
    `ring'` and reports `ops`. -/
inductive RingPut (op : NgTcpFragment → Bool → StreamOp) :
    Option NgTcpFragment → Option (RteRing NgTcpFragment) → Option (RteRing NgTcpFragment) →
    List StreamOp → Prop where
  | nothing (ring : Option (RteRing NgTcpFragment)) : RingPut op none ring ring []
  | put (f : NgTcpFragment) (r : RteRing NgTcpFragment) :
      RingPut op (some f) (some r) (some (r.mpEnqueue f).1) [op f (r.mpEnqueue f).2]

theorem RingPut.cases_eq {op : NgTcpFragment → Bool → StreamOp} {f? : Option NgTcpFragment}
    {ring ring' : Option (RteRing NgTcpFragment)} (h : RingPut op f? ring ring' ops) :
    (f? = none ∧ ring' = ring ∧ ops = []) ∨
    ∃ f r, f? = some f ∧ ring = some r ∧ ring' = some (r.mpEnqueue f).1 ∧
      ops = [op f (r.mpEnqueue f).2] := by
  cases h with
  | nothing => exact .inl ⟨rfl, rfl, rfl⟩
  | put f r => exact .inr ⟨f, r, rfl, rfl, rfl, rfl⟩

theorem enqueueSnd_ok {f : NgTcpFragment} {stored : Bool}
    (h : t.enqueueSnd f = .ok (t', stored)) :
    ∃ r, t.sndbuf = some r ∧ t' = { t with sndbuf := some (r.mpEnqueue f).1 } ∧
      stored = (r.mpEnqueue f).2 := by
  unfold NgTcpStream.enqueueSnd at h
  cases hr : t.sndbuf with
  | none => simp [hr] at h
  | some r =>
      obtain ⟨rfl, rfl⟩ := by simpa [hr] using h
      exact ⟨r, rfl, rfl, rfl⟩

theorem enqueueRcv_ok {f : NgTcpFragment} {stored : Bool}
    (h : t.enqueueRcv f = .ok (t', stored)) :
    ∃ r, t.rcvbuf = some r ∧ t' = { t with rcvbuf := some (r.mpEnqueue f).1 } ∧
      stored = (r.mpEnqueue f).2 := by
  unfold NgTcpStream.enqueueRcv at h
  cases hr : t.rcvbuf with
  | none => simp [hr] at h
  | some r =>
      obtain ⟨rfl, rfl⟩ := by simpa [hr] using h
      exact ⟨r, rfl, rfl, rfl⟩

/-- What an insertion adds to a ring: the fragment, if there is one and the
    ring has room. -/
def putItems (f? : Option NgTcpFragment) (ring : Option (RteRing NgTcpFragment)) :
    List NgTcpFragment :=
  match f?, ring with
  | some f, some r => if r.HasRoom then [f] else []
  | _, _ => []

/-- The fragments among the reported ones that were stored on `rcvbuf`. -/
def putFragments (ops : List StreamOp) : List NgTcpFragment :=
  ops.filterMap fun
    | .rcvPut f true => some f
    | _ => none

theorem putFragments_append (ops₁ ops₂ : List StreamOp) :
    putFragments (ops₁ ++ ops₂) = putFragments ops₁ ++ putFragments ops₂ :=
  List.filterMap_append ..

theorem RingPut.items {op : NgTcpFragment → Bool → StreamOp} {f? : Option NgTcpFragment}
    {ring ring' : Option (RteRing NgTcpFragment)} (h : RingPut op f? ring ring' ops) :
    ringItems ring' = ringItems ring ++ putItems f? ring := by
  cases h with
  | nothing => simp [putItems]
  | put f r =>
      rw [ringItems_some, ringItems_some, putItems]
      by_cases hroom : r.HasRoom
      · rw [(RteRing.mpEnqueue_of_hasRoom hroom).1, if_pos hroom]
      · rw [RteRing.mpEnqueue_of_full hroom, if_neg hroom, List.append_nil]

theorem RingPut.putFragments_rcv {f? : Option NgTcpFragment}
    {ring ring' : Option (RteRing NgTcpFragment)} (h : RingPut .rcvPut f? ring ring' ops) :
    putFragments ops = putItems f? ring := by
  cases h with
  | nothing => rfl
  | put f r =>
      rw [putItems]
      by_cases hroom : r.HasRoom
      · rw [(RteRing.mpEnqueue_of_hasRoom hroom).2, if_pos hroom]
        rfl
      · rw [RteRing.mpEnqueue_of_full hroom, if_neg hroom]
        rfl

theorem RingPut.putFragments_snd {f? : Option NgTcpFragment}
    {ring ring' : Option (RteRing NgTcpFragment)} (h : RingPut .sndPut f? ring ring' ops) :
    putFragments ops = [] := by
  cases h <;> rfl

/-! ## Storing a payload and acknowledging it -/

/-- The fragment holds the payload; it is empty if the length comes out
    negative. -/
theorem recvFragment_payload {len : Int} {f : NgTcpFragment}
    (h : recvFragment env b tcphdr len = some f) :
    f.length = (len - hdrlenOf tcphdr * 4).toNat ∧
      f.payload = tcphdr.bytes (hdrlenOf tcphdr * 4) (len - hdrlenOf tcphdr * 4).toNat := by
  simp only [recvFragment] at h
  split at h
  · split at h
    · split at h
      · obtain rfl := Option.some.inj h
        exact ⟨rfl, by simp [NgTcpFragment.payload]⟩
      · cases h
    -- a negative length truncates to 0
    · obtain rfl := Option.some.inj h
      have hzero : (len - hdrlenOf tcphdr * 4).toNat = 0 := by omega
      rw [hzero]
      exact ⟨rfl, rfl⟩
  · cases h

theorem recvFragment_isSome_iff {len : Int} :
    (recvFragment env b tcphdr len).isSome = true ↔ env.malloc (.recvFragment b) = true ∧
      (0 < len - hdrlenOf tcphdr * 4 → env.malloc (.recvData b) = true) := by
  simp only [recvFragment]
  by_cases hfrag : env.malloc (.recvFragment b) = true
  · by_cases hpos : 0 < len - (hdrlenOf tcphdr : Int) * 4
    · by_cases hdata : env.malloc (.recvData b) = true <;>
        simp only [hfrag, hpos, hdata, if_true] <;> simp
    · simp only [hfrag, hpos, if_true, if_false]
      simp
  · simp [hfrag]

theorem ngTcpEnqueueRecvbuffer_ok {len ret : Int}
    (h : ngTcpEnqueueRecvbuffer env b t tcphdr len = .ok (t', ops, ret)) :
    ∃ ring', t' = { t with rcvbuf := ring' } ∧
      RingPut .rcvPut (recvFragment env b tcphdr len) t.rcvbuf ring' (coreOps ops) := by
  unfold ngTcpEnqueueRecvbuffer at h
  cases hf : recvFragment env b tcphdr len with
  | none =>
      obtain ⟨rfl, rfl, -⟩ := by simpa [hf] using h
      exact ⟨t.rcvbuf, rfl, .nothing _⟩
  | some f =>
      simp only [hf] at h
      split at h
      · cases h
      · rename_i hput
        obtain ⟨r, hr, rfl, rfl⟩ := enqueueRcv_ok hput
        simp only [Except.ok.injEq, Prod.mk.injEq] at h
        obtain ⟨rfl, rfl, -⟩ := h
        exact ⟨_, rfl, by rw [hr]; exact .put f r⟩

/-- The acknowledgement that gets queued, if its allocation succeeds. -/
def ackOf (env : Env) (b : SegBranch) (t : NgTcpStream) (tcphdr : Ptr) : Option NgTcpFragment :=
  if env.malloc (.ackFragment b) then some (ackFragment t tcphdr) else none

theorem ngTcpSendAckpkt_ok {ret : Int}
    (h : ngTcpSendAckpkt env b t tcphdr = .ok (t', ops, ret)) :
    ∃ ring', t' = { t with sndbuf := ring' } ∧
      RingPut .sndPut (ackOf env b t tcphdr) t.sndbuf ring' (coreOps ops) := by
  unfold ngTcpSendAckpkt at h
  unfold ackOf
  by_cases hm : env.malloc (.ackFragment b) = true
  · rw [if_pos hm] at h ⊢
    split at h
    · cases h
    · rename_i hput
      obtain ⟨r, hr, rfl, rfl⟩ := enqueueSnd_ok hput
      simp only [Except.ok.injEq, Prod.mk.injEq] at h
      obtain ⟨rfl, rfl, -⟩ := h
      exact ⟨_, rfl, by rw [hr]; exact .put _ r⟩
  · rw [if_neg hm] at h ⊢
    obtain ⟨rfl, rfl, -⟩ := by simpa using h
    exact ⟨t.sndbuf, rfl, .nothing _⟩

/-- What `storeAndAck` does: `t'` is `t` with its counters advanced and its
    rings changed by at most one insertion each. -/
structure StoredAndAcked (env : Env) (b : SegBranch) (tcphdr : Ptr) (len : Int)
    (delta : BitVec 32) (t : NgTcpStream) (ops : List StreamOp) (t' : NgTcpStream) : Prop where
  fields : t' = { t with
    rcvNxt := t.rcvNxt + delta, sndNxt := ntohl (TcpHdr.recvAck tcphdr)
    rcvbuf := t'.rcvbuf, sndbuf := t'.sndbuf }
  rings : ∃ put ack, coreOps ops = put ++ ack ∧
    RingPut .rcvPut (recvFragment env b tcphdr len) t.rcvbuf t'.rcvbuf put ∧
    RingPut .sndPut (ackOf env b t' tcphdr) t.sndbuf t'.sndbuf ack

theorem storeAndAck_ok {len : Int} {delta : BitVec 32}
    (h : storeAndAck env b t tcphdr len delta = .ok (t', ops)) :
    StoredAndAcked env b tcphdr len delta t ops t' := by
  obtain ⟨⟨t₁, ops₁, ret₁⟩, hput, h⟩ := bind_eq_ok_iff.mp h
  obtain ⟨⟨t₂, ops₂, ret₂⟩, hack, h⟩ := bind_eq_ok_iff.mp h
  obtain ⟨rfl, rfl⟩ : t₂ = t' ∧ ops₁ ++ ops₂ = ops := by
    simpa [pure, Except.pure] using h
  obtain ⟨rcvbuf', rfl, hrcv⟩ := ngTcpEnqueueRecvbuffer_ok hput
  obtain ⟨sndbuf', rfl, hsnd⟩ := ngTcpSendAckpkt_ok hack
  exact ⟨rfl, _, _, coreOps_append .., hrcv, hsnd⟩

theorem RingPut.mem_ops {op : NgTcpFragment → Bool → StreamOp} {f? : Option NgTcpFragment}
    {ring ring' : Option (RteRing NgTcpFragment)} (h : RingPut op f? ring ring' ops)
    {x : StreamOp} (hx : x ∈ ops) : ∃ f stored, f? = some f ∧ x = op f stored := by
  rcases h.cases_eq with ⟨-, -, rfl⟩ | ⟨f, r, hf, -, -, rfl⟩
  · cases hx
  · exact ⟨f, _, hf, List.mem_singleton.mp hx⟩

theorem StoredAndAcked.mem_ops {len : Int} {delta : BitVec 32}
    (h : StoredAndAcked env b tcphdr len delta t ops t') {op : StreamOp}
    (hop : op ∈ coreOps ops) :
    (∃ f stored, recvFragment env b tcphdr len = some f ∧ op = .rcvPut f stored) ∨
      ∃ stored, op = .sndPut (ackFragment t' tcphdr) stored := by
  obtain ⟨put, ack, hops, hrcv, hsnd⟩ := h.rings
  rw [hops, List.mem_append] at hop
  rcases hop with hop | hop
  · exact .inl (hrcv.mem_ops hop)
  · obtain ⟨f, stored, hf, rfl⟩ := hsnd.mem_ops hop
    unfold ackOf at hf
    split at hf
    · obtain rfl := Option.some.inj hf
      exact .inr ⟨stored, rfl⟩
    · cases hf

theorem eq_some_of_mem_putItems {f? : Option NgTcpFragment}
    {ring : Option (RteRing NgTcpFragment)} {f : NgTcpFragment} (h : f ∈ putItems f? ring) :
    f? = some f := by
  unfold putItems at h
  split at h
  · split at h
    · rw [List.mem_singleton.mp h]
    · cases h
  · cases h

theorem hasRoom_of_mem_putItems {f? : Option NgTcpFragment} {r : RteRing NgTcpFragment}
    {f : NgTcpFragment} (h : f ∈ putItems f? (some r)) : r.HasRoom := by
  by_contra hfull
  cases f? with
  | none => cases h
  | some g =>
      rw [putItems, if_neg hfull] at h
      cases h

theorem StoredAndAcked.puts {len : Int} {delta : BitVec 32}
    (h : StoredAndAcked env b tcphdr len delta t ops t') :
    putFragments (coreOps ops) = putItems (recvFragment env b tcphdr len) t.rcvbuf ∧
      t'.rcvItems = t.rcvItems ++ putFragments (coreOps ops) := by
  obtain ⟨put, ack, hops, hrcv, hsnd⟩ := h.rings
  rw [hops, putFragments_append, hrcv.putFragments_rcv, hsnd.putFragments_snd, List.append_nil]
  exact ⟨rfl, hrcv.items⟩

/-! ## `ng_tcp_handle_established` -/

section Established
variable {m : Mbuf}

/-- The effect of an optional block: `P` if its flag is set, else nothing. -/
def OptBlock (flag : Bool) (P : NgTcpStream → List StreamOp → NgTcpStream → Prop)
    (t : NgTcpStream) (ops : List StreamOp) (t' : NgTcpStream) : Prop :=
  if flag = true then P t ops t' else t' = t ∧ ops = []

/-- What `ng_tcp_handle_established` does with the segment in `m`: the PSH
    block, then the FIN block. -/
structure EstablishedStep (env : Env) (m : Mbuf) (t : NgTcpStream) (ops : List StreamOp)
    (t' : NgTcpStream) : Prop where
  blocks : ∃ t₁ ops₁ ops₂, coreOps ops = coreOps ops₁ ++ coreOps ops₂ ∧
    OptBlock m.segment.psh (StoredAndAcked env .psh (TcpHdr.setCksum m.l4hdr 0) (tcplenOf m.iphdr)
      (BitVec.ofInt 32 m.segment.payloadlen)) t ops₁ t₁ ∧
    OptBlock m.segment.fin (fun t => StoredAndAcked env .fin (TcpHdr.setCksum m.l4hdr 0)
      (hdrlenOf m.l4hdr) 1 { t with status := .closeWait }) t₁ ops₂ t'

theorem hdrlenOf_setCksum (p : Ptr) (v : BitVec 16) :
    hdrlenOf (TcpHdr.setCksum p v) = hdrlenOf p := by
  simp [hdrlenOf]

theorem ifFlag_ok {flag : Byte}
    {block : NgTcpStream → Except Halt (NgTcpStream × List StreamOp)}
    {P : NgTcpStream → List StreamOp → NgTcpStream → Prop}
    (hblock : ∀ t ops t', block t = .ok (t', ops) → P t ops t')
    (h : ifFlag tcphdr flag block t = .ok (t', ops)) :
    OptBlock (hasFlag (TcpHdr.tcpFlags tcphdr) flag) P t ops t' := by
  unfold ifFlag at h
  unfold OptBlock
  split at h
  · rename_i hflag
    rw [if_pos hflag]
    exact hblock _ _ _ h
  · rename_i hflag
    rw [if_neg hflag]
    obtain ⟨rfl, rfl⟩ : t = t' ∧ [] = ops := by simpa using h
    exact ⟨rfl, rfl⟩

theorem ngTcpHandleEstablished_ok
    (h : ngTcpHandleEstablished env t (TcpHdr.setCksum m.l4hdr 0) (tcplenOf m.iphdr) =
      .ok (t', ops)) : EstablishedStep env m t ops t' := by
  obtain ⟨⟨t₁, ops₁⟩, hpsh, h⟩ := bind_eq_ok_iff.mp h
  obtain ⟨⟨t₂, ops₂⟩, hfin, h⟩ := bind_eq_ok_iff.mp h
  obtain ⟨rfl, rfl⟩ : t₂ = t' ∧ ops₁ ++ ops₂ = ops := by
    simpa [pure, Except.pure] using h
  refine ⟨t₁, ops₁, ops₂, coreOps_append .., ?_, ?_⟩
  · have hstored := ifFlag_ok (fun _ _ _ h => storeAndAck_ok h) hpsh
    rwa [tcpFlags_setCksum, hdrlenOf_setCksum] at hstored
  · have hstored := ifFlag_ok (fun _ _ _ h => storeAndAck_ok h) hfin
    rwa [tcpFlags_setCksum, hdrlenOf_setCksum] at hstored

/-- The counters, the status and everything else but the rings. -/
theorem EstablishedStep.fields (h : EstablishedStep env m t ops t') :
    t' = { t with
      rcvNxt := t.rcvNxt + (if m.segment.psh then BitVec.ofInt 32 m.segment.payloadlen else 0) +
        (if m.segment.fin then 1 else 0)
      sndNxt := if m.segment.psh || m.segment.fin then m.segment.recvAck else t.sndNxt
      status := if m.segment.fin then .closeWait else t.status
      rcvbuf := t'.rcvbuf, sndbuf := t'.sndbuf } := by
  obtain ⟨t₁, ops₁, ops₂, -, hpsh, hfin⟩ := h.blocks
  have hack : ntohl (TcpHdr.recvAck (TcpHdr.setCksum m.l4hdr 0)) = m.segment.recvAck := by
    rw [recvAck_setCksum]
    rfl
  unfold OptBlock at hpsh hfin
  -- four cases: which of the two blocks run
  cases hp : m.segment.psh <;> cases hf : m.segment.fin <;>
    simp only [hp, hf, if_true, if_false, Bool.false_eq_true] at hpsh hfin ⊢
  · obtain ⟨rfl, -⟩ := hfin
    obtain ⟨rfl, -⟩ := hpsh
    simp
  · obtain ⟨rfl, -⟩ := hpsh
    rw [hfin.fields, hack]
    simp
  · obtain ⟨rfl, -⟩ := hfin
    rw [hpsh.fields, hack]
    simp
  · rw [hfin.fields, hpsh.fields, hack]
    simp

/-- What one segment adds to `rcv_nxt`, as a number. -/
def advance (seg : Segment) : Int :=
  (if seg.psh then seg.payloadlen else 0) + if seg.fin then 1 else 0

theorem rcvNxt_add_advance (seg : Segment) (v : BitVec 32) :
    v + (if seg.psh then BitVec.ofInt 32 seg.payloadlen else 0) + (if seg.fin then 1 else 0) =
      v + BitVec.ofInt 32 (advance seg) := by
  rw [advance, BitVec.ofInt_add, BitVec.add_assoc]
  cases seg.psh <;> cases seg.fin <;> rfl

/-- What the handler puts on `rcvbuf`: the payload of a segment with PSH, and
    an empty fragment for a FIN. -/
theorem EstablishedStep.puts (h : EstablishedStep env m t ops t') :
    ∃ finPut, (∀ f ∈ finPut, m.segment.fin = true ∧ f.length = 0) ∧
      putFragments (coreOps ops) =
        (if m.segment.psh then
          putItems (recvFragment env .psh (TcpHdr.setCksum m.l4hdr 0) (tcplenOf m.iphdr)) t.rcvbuf
        else []) ++ finPut ∧
      t'.rcvItems = t.rcvItems ++ putFragments (coreOps ops) := by
  obtain ⟨t₁, ops₁, ops₂, hops, hpsh, hfin⟩ := h.blocks
  have h₁ : putFragments (coreOps ops₁) = (if m.segment.psh then
        putItems (recvFragment env .psh (TcpHdr.setCksum m.l4hdr 0) (tcplenOf m.iphdr)) t.rcvbuf
      else []) ∧ t₁.rcvItems = t.rcvItems ++ putFragments (coreOps ops₁) := by
    unfold OptBlock at hpsh
    cases hflag : m.segment.psh with
    | true =>
        rw [hflag, if_pos rfl] at hpsh
        exact hpsh.puts
    | false =>
        rw [hflag, if_neg (by simp)] at hpsh
        obtain ⟨rfl, rfl⟩ := hpsh
        exact ⟨rfl, (List.append_nil _).symm⟩
  have h₂ : (∀ f ∈ putFragments (coreOps ops₂), m.segment.fin = true ∧ f.length = 0) ∧
      t'.rcvItems = t₁.rcvItems ++ putFragments (coreOps ops₂) := by
    unfold OptBlock at hfin
    split at hfin
    · rename_i hflag
      obtain ⟨hput, hitems⟩ := hfin.puts
      refine ⟨fun f hf => ⟨hflag, ?_⟩, hitems⟩
      rw [hput] at hf
      -- the header's length in words less its length in bytes is negative
      rw [(recvFragment_payload (eq_some_of_mem_putItems hf)).1, hdrlenOf_setCksum]
      omega
    · obtain ⟨rfl, rfl⟩ := hfin
      exact ⟨List.forall_mem_nil _, (List.append_nil _).symm⟩
  refine ⟨putFragments (coreOps ops₂), h₂.1, ?_, ?_⟩
  · rw [hops, putFragments_append, h₁.1]
  · rw [h₂.2, h₁.2, hops, putFragments_append, List.append_assoc]

/-- The fragment the PSH block stores holds the payload. -/
theorem payload_of_put {ring : Option (RteRing NgTcpFragment)} {f : NgTcpFragment}
    (h : f ∈ putItems (recvFragment env .psh (TcpHdr.setCksum m.l4hdr 0) (tcplenOf m.iphdr)) ring) :
    f.payload = m.payload := by
  rw [(recvFragment_payload (eq_some_of_mem_putItems h)).2, hdrlenOf_setCksum]
  rfl

/-- What the handler reports: a received fragment or an acknowledgement. -/
theorem EstablishedStep.mem_ops (h : EstablishedStep env m t ops t') {op : StreamOp}
    (hop : op ∈ coreOps ops) :
    (∃ b len f stored, (b = .psh ∧ m.segment.psh = true ∧ len = tcplenOf m.iphdr ∨
        b = .fin ∧ m.segment.fin = true ∧ len = hdrlenOf m.l4hdr) ∧
      recvFragment env b (TcpHdr.setCksum m.l4hdr 0) len = some f ∧ op = .rcvPut f stored) ∨
    ∃ u stored, op = .sndPut (ackFragment u (TcpHdr.setCksum m.l4hdr 0)) stored := by
  obtain ⟨t₁, ops₁, ops₂, hops, hpsh, hfin⟩ := h.blocks
  rw [hops, List.mem_append] at hop
  unfold OptBlock at hpsh hfin
  rcases hop with hop | hop
  · split at hpsh
    · rename_i hflag
      rcases hpsh.mem_ops hop with ⟨f, stored, hf, rfl⟩ | hack
      · exact .inl ⟨.psh, _, f, stored, .inl ⟨rfl, hflag, rfl⟩, hf, rfl⟩
      · exact .inr ⟨_, hack⟩
    · rw [hpsh.2] at hop
      cases hop
  · split at hfin
    · rename_i hflag
      rcases hfin.mem_ops hop with ⟨f, stored, hf, rfl⟩ | hack
      · exact .inl ⟨.fin, _, f, stored, .inr ⟨rfl, hflag, rfl⟩, hf, rfl⟩
      · exact .inr ⟨_, hack⟩
    · rw [hfin.2] at hop
      cases hop

end Established

/-! ## New blocks, reading, output -/

theorem ringItems_create (env : Env) (site : AllocSite) (name : RingName)
    (live : List RingName) : ringItems (rteRingCreate env site name live).1 = [] := by
  cases hr : rteRingCreate env site name live with
  | mk ring live' =>
      cases ring with
      | none => rfl
      | some r => exact rteRingCreate_items hr

theorem ngTcpStreamCreate_ok {s : State} {sip dip : BitVec 32} {sport dport : BitVec 16}
    {live : List RingName} (h : ngTcpStreamCreate env s sip dip sport dport = some (t, live)) :
    (t.sip = sip ∧ t.dip = dip ∧ t.sport = sport ∧ t.dport = dport) ∧ t.fd = -1 ∧
      t.status = .listen ∧ t.sndItems = [] ∧ t.rcvItems = [] := by
  simp only [ngTcpStreamCreate] at h
  split at h
  · obtain ⟨rfl, -⟩ := by simpa using h
    exact ⟨⟨rfl, rfl, rfl, rfl⟩, rfl, rfl, ringItems_create .., ringItems_create ..⟩
  · cases h

/-- What `nrecv` does to a block: it takes the oldest fragment, and puts the
    rest of it back if the buffer was too small. -/
inductive ReadCases (t : NgTcpStream) (len : Nat) :
    NgTcpStream → List StreamOp → List Byte → Int → Prop where
  | whole {r r' : RteRing NgTcpFragment} {f : NgTcpFragment} :
      t.rcvbuf = some r → r.items = f :: r'.items → f.length ≤ len →
      (f.length ≠ 0 → f.data ≠ none) →
      ReadCases t len { t with rcvbuf := some r' } [.rcvGet f] f.payload f.length
  | part {r r' r'' : RteRing NgTcpFragment} {f : NgTcpFragment} {data : List Byte} :
      t.rcvbuf = some r → r.items = f :: r'.items → len < f.length → f.data = some data →
      r''.items = r'.items ++ [f.shift data len] →
      ReadCases t len { t with rcvbuf := some r'' }
        [.rcvGet f, .rcvRequeue (f.shift data len) true] (data.take len)
        (f.shift data len).length

theorem ReadCases.fields {len : Nat} {buf : List Byte} {ret : Int}
    (h : ReadCases t len t' ops buf ret) : t' = { t with rcvbuf := t'.rcvbuf } := by
  cases h <;> rfl

theorem nrecvStream_ok {len : Nat} {buf : List Byte} {ret : Int}
    (h : nrecvStream t len = .ok (t', ops, buf, ret)) : ReadCases t len t' ops buf ret := by
  unfold nrecvStream at h
  cases hr : t.rcvbuf with
  | none => simp [hr] at h
  | some r =>
      cases hpop : r.mcDequeue with
      | none => simp [hr, hpop] at h
      | some n =>
          obtain ⟨f, r'⟩ := n
          obtain ⟨hitems, hroom⟩ := RteRing.mcDequeue_eq_some hpop
          simp only [hr, hpop] at h
          -- the three branches: a part, the end of the stream, a whole fragment
          by_cases hlen : f.length > len
          · rw [if_pos hlen] at h
            cases hdata : f.data with
            | none => simp [hdata] at h
            | some data =>
                obtain ⟨hput, hstored⟩ := RteRing.mpEnqueue_of_hasRoom (x := f.shift data len) hroom
                simp only [hdata, hstored, Except.ok.injEq, Prod.mk.injEq] at h
                obtain ⟨rfl, rfl, rfl, rfl⟩ := h
                exact .part hr hitems hlen hdata hput
          · rw [if_neg hlen] at h
            by_cases hzero : f.length = 0
            · rw [if_pos hzero] at h
              simp only [Except.ok.injEq, Prod.mk.injEq] at h
              obtain ⟨rfl, rfl, rfl, rfl⟩ := h
              have hpayload : f.payload = [] := by rw [NgTcpFragment.payload, hzero, List.take_zero]
              have := ReadCases.whole hr hitems (Nat.le_of_not_lt hlen) (absurd hzero)
              rwa [hpayload, hzero] at this
            · rw [if_neg hzero] at h
              cases hdata : f.data with
              | none => simp [hdata] at h
              | some data =>
                  simp only [hdata, Except.ok.injEq, Prod.mk.injEq] at h
                  obtain ⟨rfl, rfl, rfl, rfl⟩ := h
                  have hpayload : f.payload = data.take f.length := by
                    rw [NgTcpFragment.payload, hdata, Option.getD_some]
                  have := ReadCases.whole hr hitems (Nat.le_of_not_lt hlen)
                    (fun _ => by rw [hdata]; simp)
                  rwa [hpayload] at this

/-- What one turn of `ng_tcp_out` does to a block. -/
inductive OutCases (t : NgTcpStream) : NgTcpStream → List StreamOp → Prop where
  | idle : t.sndItems = [] → OutCases t t []
  | sent {r' : RteRing NgTcpFragment} {f : NgTcpFragment} :
      t.sndItems = f :: r'.items → OutCases t { t with sndbuf := some r' } [.sent f]
  | requeued {r' : RteRing NgTcpFragment} {f : NgTcpFragment} {rest : List NgTcpFragment} :
      t.sndItems = f :: rest → r'.items = rest ++ [f] →
      OutCases t { t with sndbuf := some r' } [.sndRequeue f true]

theorem OutCases.fields (h : OutCases t t' ops) : t' = { t with sndbuf := t'.sndbuf } := by
  cases h <;> rfl

theorem tcpOutStream_cases (arpt : ArpTable) (t : NgTcpStream) :
    OutCases t (tcpOutStream arpt t).1 (tcpOutStream arpt t).2.1 := by
  cases hr : t.sndbuf with
  | none =>
      have heq : tcpOutStream arpt t = (t, [], []) := by simp only [tcpOutStream, hr]
      rw [heq]
      exact .idle (by rw [NgTcpStream.sndItems, hr]; rfl)
  | some r =>
      have hsnd : t.sndItems = r.items := by rw [NgTcpStream.sndItems, hr]; rfl
      cases hpop : r.mcDequeue with
      | none =>
          have heq : tcpOutStream arpt t = (t, [], []) := by simp only [tcpOutStream, hr, hpop]
          rw [heq]
          exact .idle (hsnd.trans (RteRing.mcDequeue_eq_none_iff.mp hpop))
      | some n =>
          obtain ⟨f, r'⟩ := n
          obtain ⟨hitems, hroom⟩ := RteRing.mcDequeue_eq_some hpop
          cases harp : arpt.ngGetDstMacaddr t.sip with
          | none =>
              -- the dequeue made room, so the fragment gets back in
              obtain ⟨hput, hstored⟩ := RteRing.mpEnqueue_of_hasRoom (x := f) hroom
              have heq : tcpOutStream arpt t =
                  ({ t with sndbuf := some (r'.mpEnqueue f).1 }, [.sndRequeue f true],
                    [.arpRequest t.dip t.sip]) := by
                simp only [tcpOutStream, hr, hpop, harp, hstored]
              rw [heq]
              exact .requeued (hsnd.trans hitems) hput
          | some mac =>
              have heq : tcpOutStream arpt t =
                  ({ t with sndbuf := some r' }, [.sent f],
                    [.tcp t.dip t.sip t.localmac mac f]) := by
                simp only [tcpOutStream, hr, hpop, harp]
              rw [heq]
              exact .sent (hsnd.trans hitems)

/-! ## Replaying the reports -/

/-- Take a known fragment off the head of a queue. -/
def takeHead (f : NgTcpFragment) : List NgTcpFragment → Option (List NgTcpFragment)
  | [] => none
  | g :: rest => if g = f then some rest else none

@[simp] theorem takeHead_cons (f : NgTcpFragment) (rest : List NgTcpFragment) :
    takeHead f (f :: rest) = some rest := by
  simp [takeHead]

theorem eq_cons_of_takeHead {f : NgTcpFragment} {items rest : List NgTcpFragment}
    (h : takeHead f items = some rest) : items = f :: rest := by
  unfold takeHead at h
  split at h
  · cases h
  · split at h
    · rename_i heq
      rw [heq, Option.some.inj h]
    · cases h

/-- `sndbuf` after an operation; `none` if the operation takes a fragment that
    is not at the head. -/
def sndReplay (items : List NgTcpFragment) : StreamOp → Option (List NgTcpFragment)
  | .link _ | .unlink => some []
  | .sndPut f stored => some (items ++ if stored then [f] else [])
  | .sent f => takeHead f items
  | .sndRequeue f stored => (takeHead f items).map (· ++ if stored then [f] else [])
  | .segment _ _ | .rcvPut _ _ | .rcvGet _ | .rcvRequeue _ _ | .accept _ | .signal => some items

/-- `rcvbuf` after an operation, likewise. -/
def rcvReplay (items : List NgTcpFragment) : StreamOp → Option (List NgTcpFragment)
  | .link _ | .unlink => some []
  | .rcvPut f stored => some (items ++ if stored then [f] else [])
  | .rcvGet f => takeHead f items
  | .rcvRequeue f stored => some (items ++ if stored then [f] else [])
  | .segment _ _ | .sndPut _ _ | .sent _ | .sndRequeue _ _ | .accept _ | .signal => some items

/-- The fragments on a block's `sndbuf`; none if it is not linked. -/
def cellSnd (cell : Option NgTcpStream) : List NgTcpFragment :=
  (cell.map NgTcpStream.sndItems).getD []

/-- The fragments on a block's `rcvbuf`; none if it is not linked. -/
def cellRcv (cell : Option NgTcpStream) : List NgTcpFragment :=
  (cell.map NgTcpStream.rcvItems).getD []

@[simp] theorem cellSnd_none : cellSnd none = [] := rfl
@[simp] theorem cellRcv_none : cellRcv none = [] := rfl
@[simp] theorem cellSnd_some (t : NgTcpStream) : cellSnd (some t) = t.sndItems := rfl
@[simp] theorem cellRcv_some (t : NgTcpStream) : cellRcv (some t) = t.rcvItems := rfl

/-- The operations `ops` take a block's rings from those of `before` to
    those of `after`. -/
structure Replays (ops : List StreamOp) (before after : Option NgTcpStream) : Prop where
  snd : ops.foldlM sndReplay (cellSnd before) = some (cellSnd after)
  rcv : ops.foldlM rcvReplay (cellRcv before) = some (cellRcv after)

theorem replays_nil (t : NgTcpStream) : Replays [] (some t) (some t) := ⟨rfl, rfl⟩

theorem Replays.append {ops₁ ops₂ : List StreamOp} {c₀ c₁ c₂ : Option NgTcpStream}
    (h₁ : Replays ops₁ c₀ c₁) (h₂ : Replays ops₂ c₁ c₂) : Replays (ops₁ ++ ops₂) c₀ c₂ where
  snd := by rw [List.foldlM_append, h₁.snd, Option.bind_eq_bind, Option.bind_some, h₂.snd]
  rcv := by rw [List.foldlM_append, h₁.rcv, Option.bind_eq_bind, Option.bind_some, h₂.rcv]

/-- Replaying goes by the rings alone. -/
theorem Replays.of_rings {t₁ t₂ t₁' t₂' : NgTcpStream} (h : Replays ops (some t₁) (some t₂))
    (hsnd₁ : t₁'.sndbuf = t₁.sndbuf) (hrcv₁ : t₁'.rcvbuf = t₁.rcvbuf)
    (hsnd₂ : t₂'.sndbuf = t₂.sndbuf) (hrcv₂ : t₂'.rcvbuf = t₂.rcvbuf) :
    Replays ops (some t₁') (some t₂') := by
  obtain ⟨hs, hr⟩ := h
  simp only [cellSnd_some, cellRcv_some, NgTcpStream.sndItems, NgTcpStream.rcvItems] at hs hr
  exact ⟨by simp only [cellSnd_some, NgTcpStream.sndItems, hsnd₁, hsnd₂, hs],
    by simp only [cellRcv_some, NgTcpStream.rcvItems, hrcv₁, hrcv₂, hr]⟩

theorem replays_sndPut {f? : Option NgTcpFragment}
    (h : RingPut .sndPut f? t.sndbuf t'.sndbuf ops) (hrcv : t'.rcvbuf = t.rcvbuf) :
    Replays ops (some t) (some t') := by
  rcases h.cases_eq with ⟨-, hring, rfl⟩ | ⟨f, r, -, hr, hr', rfl⟩
  · exact (replays_nil t).of_rings rfl rfl hring hrcv
  · constructor
    · simp only [cellSnd_some, NgTcpStream.sndItems, hr, hr', ringItems_some]
      rw [RteRing.items_mpEnqueue r f]
      rfl
    · simp only [cellRcv_some, NgTcpStream.rcvItems, hrcv]
      rfl

theorem replays_rcvPut {f? : Option NgTcpFragment}
    (h : RingPut .rcvPut f? t.rcvbuf t'.rcvbuf ops) (hsnd : t'.sndbuf = t.sndbuf) :
    Replays ops (some t) (some t') := by
  rcases h.cases_eq with ⟨-, hring, rfl⟩ | ⟨f, r, -, hr, hr', rfl⟩
  · exact (replays_nil t).of_rings rfl rfl hsnd hring
  · constructor
    · simp only [cellSnd_some, NgTcpStream.sndItems, hsnd]
      rfl
    · simp only [cellRcv_some, NgTcpStream.rcvItems, hr, hr', ringItems_some]
      rw [RteRing.items_mpEnqueue r f]
      rfl

theorem replays_link (origin : Option Segment) (before : Option NgTcpStream)
    (hsnd : t.sndItems = []) (hrcv : t.rcvItems = []) :
    Replays [.link origin] before (some t) where
  snd := by
    rw [cellSnd_some, hsnd]
    rfl
  rcv := by
    rw [cellRcv_some, hrcv]
    rfl

theorem StoredAndAcked.replays {len : Int} {delta : BitVec 32}
    (h : StoredAndAcked env b tcphdr len delta t ops t') :
    Replays (coreOps ops) (some t) (some t') := by
  obtain ⟨put, ack, hops, hrcv, hsnd⟩ := h.rings
  rw [hops]
  have h₁ : Replays put (some t) (some { t with rcvbuf := t'.rcvbuf }) := replays_rcvPut hrcv rfl
  have h₂ : Replays ack (some { t with rcvbuf := t'.rcvbuf }) (some t') := replays_sndPut hsnd rfl
  exact h₁.append h₂

theorem OptBlock.replays {flag : Bool}
    {P : NgTcpStream → List StreamOp → NgTcpStream → Prop} (h : OptBlock flag P t ops t')
    (hP : P t ops t' → Replays (coreOps ops) (some t) (some t')) :
    Replays (coreOps ops) (some t) (some t') := by
  unfold OptBlock at h
  split at h
  · exact hP h
  · obtain ⟨rfl, rfl⟩ := h
    exact replays_nil _

theorem EstablishedStep.replays {m : Mbuf} (h : EstablishedStep env m t ops t') :
    Replays (coreOps ops) (some t) (some t') := by
  obtain ⟨t₁, ops₁, ops₂, hops, hpsh, hfin⟩ := h.blocks
  have h₁ : Replays (coreOps ops₁) (some t) (some t₁) := hpsh.replays fun h => h.replays
  have h₂ : Replays (coreOps ops₂) (some t₁) (some t') :=
    hfin.replays fun h => h.replays.of_rings rfl rfl rfl rfl
  rw [hops]
  exact h₁.append h₂

theorem ReadCases.replays {len : Nat} {buf : List Byte} {ret : Int}
    (h : ReadCases t len t' ops buf ret) : Replays (coreOps ops) (some t) (some t') := by
  cases h with
  | whole hr hitems => exact ⟨rfl, by simp [coreOps, NgTcpStream.rcvItems, hr, hitems, rcvReplay]⟩
  | part hr hitems hlen hdata hput =>
      exact ⟨rfl, by simp [coreOps, NgTcpStream.rcvItems, hr, hitems, rcvReplay, hput]⟩

theorem OutCases.replays (h : OutCases t t' ops) : Replays (coreOps ops) (some t) (some t') := by
  cases h with
  | idle => exact replays_nil t
  | sent hitems =>
      refine ⟨?_, rfl⟩
      rw [cellSnd_some, hitems]
      simp [coreOps, sndReplay, NgTcpStream.sndItems]
  | requeued hitems hput =>
      refine ⟨?_, rfl⟩
      rw [cellSnd_some, hitems]
      simp [coreOps, sndReplay, NgTcpStream.sndItems, hput]

/-- What a step reports about a block is what it did to the block's rings. -/
theorem TcbChange.replays {s : State} {e : Event} {a : Addr}
    {before after : Option NgTcpStream} (h : TcbChange s e a ops before after) :
    Replays ops before after := by
  cases h with
  | idle => exact ⟨rfl, rfl⟩
  | seen | bound | listening | accepted | handshake | closed | destroyed => exact ⟨rfl, rfl⟩
  | opened he ha hsnd hrcv => exact replays_link _ _ hsnd hrcv
  | sending he hinfo hput =>
      obtain ⟨r, hr, rfl, rfl⟩ := enqueueSnd_ok hput
      exact replays_sndPut (by rw [hr]; exact .put _ r) rfl
  | closing he hinfo hst hput =>
      obtain ⟨r, hr, rfl, rfl⟩ := enqueueSnd_ok hput
      exact replays_sndPut (by rw [hr]; exact .put _ r) rfl
  | reading he hinfo hread => exact (nrecvStream_ok hread).replays
  | @synAcked env m l t syn live r he hf hst hsyn ha hc hm hsnd =>
      obtain ⟨-, -, -, hs, hr⟩ := ngTcpStreamCreate_ok hc
      let f := synAckFragment syn m.segment
      have hput : RingPut .sndPut (some f) syn.sndbuf (some (r.mpEnqueue f).1)
          [.sndPut f (r.mpEnqueue f).2] := by
        rw [hsnd]
        exact .put f r
      exact (replays_link (some m.segment) none hs hr).append (replays_sndPut hput rfl)
  | synUnanswered he hf hst hsyn ha hc hm =>
      obtain ⟨-, -, -, hs, hr⟩ := ngTcpStreamCreate_ok hc
      exact replays_link _ _ hs hr
  | data he hf hst hest =>
      have h := (ngTcpHandleEstablished_ok hest).replays
      exact ⟨h.snd, h.rcv⟩
  | output => exact (tcpOutStream_cases ..).replays

/-- The rings of a block at the end of a run are what its operations in the
    run make of what they were. -/
theorem rings_replay {s₀ s : State} {hist : History} (hrun : SystemRun s₀ hist s) (a : Addr) :
    Replays (opsOf hist a) (s₀.tcb a) (s.tcb a) := by
  induction hrun with
  | start => exact ⟨rfl, rfl⟩
  | step _ hR ih =>
      rw [opsOf, List.flatMap_append, List.flatMap_singleton]
      exact ih.append (tcbChange_of_step hR a).replays

/-! ## Folds that look past the rings -/

/-- The operation concerns the rings (or nothing). -/
def StreamOp.isBuffer : StreamOp → Bool
  | .sndPut _ _ | .sent _ | .sndRequeue _ _ | .rcvPut _ _ | .rcvGet _ | .rcvRequeue _ _
  | .signal => true
  | .link _ | .unlink | .segment _ _ | .accept _ => false

/-- A fold ignores a list of operations if it ignores each. -/
theorem foldl_of_neutral {β : Type} {f : β → StreamOp → β} (h : ∀ op ∈ ops, ∀ x, f x op = x)
    (x : β) : ops.foldl f x = x := by
  induction ops generalizing x with
  | nil => rfl
  | cons op rest ih =>
      rw [List.forall_mem_cons] at h
      rw [List.foldl_cons, h.1, ih h.2]

/-- A fold that ignores the operations on the rings ignores a list of them. -/
theorem foldl_of_isBuffer {β : Type} {f : β → StreamOp → β}
    (hf : ∀ x op, op.isBuffer = true → f x op = x) (h : ∀ op ∈ ops, op.isBuffer = true) (x : β) :
    ops.foldl f x = x :=
  foldl_of_neutral (fun op hop x => hf x op (h op hop)) x

theorem EstablishedStep.isBuffer {m : Mbuf} (h : EstablishedStep env m t ops t') :
    ∀ o ∈ coreOps ops, o.isBuffer = true := by
  intro o ho
  rcases h.mem_ops ho with ⟨b, len, f, stored, -, -, rfl⟩ | ⟨u, stored, rfl⟩ <;> rfl

theorem ReadCases.isBuffer {len : Nat} {buf : List Byte} {ret : Int}
    (h : ReadCases t len t' ops buf ret) : ∀ o ∈ coreOps ops, o.isBuffer = true := by
  cases h <;> simp [coreOps, StreamOp.isBuffer]

theorem OutCases.isBuffer (h : OutCases t t' ops) : ∀ o ∈ coreOps ops, o.isBuffer = true := by
  cases h <;> simp [coreOps, StreamOp.isBuffer]

end LinuxLearning.Ustack
