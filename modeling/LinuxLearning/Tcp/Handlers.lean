/-
  LinuxLearning.Tcp.Handlers

  Where the handlers of `tcp.c` part from those of `tcp_from_king.c`, apart
  from linking nothing: the key and the SYN-ACK of a new block, the names of
  its rings, and what a data segment does to an established block.
-/

import LinuxLearning.Tcp.Stack

namespace LinuxLearning.Tcp

open Lib Ustack

variable {env : Env} {s s' : State} {t t' : NgTcpStream} {seg : Segment} {iphdr tcphdr : Ptr}

/-! ## A SYN at a listener -/

/-- The new block is not one for the sender's segments, unless the two ends
    are one and the same. -/
theorem created_peer_iff {live : List RingName}
    (h : ngTcpStreamCreate env s seg.dip seg.sip seg.dport seg.sport = some (t, live)) :
    t.peer = seg.peer ↔ seg.sip = seg.dip ∧ seg.sport = seg.dport := by
  simp only [ngTcpStreamCreate] at h
  split at h
  · obtain ⟨rfl, -⟩ := by simpa using h
    constructor
    · intro hpeer
      exact ⟨(congrArg Peer.sip hpeer).symm, (congrArg Peer.sport hpeer).symm⟩
    · rintro ⟨hip, hport⟩
      simp [NgTcpStream.peer, Segment.peer, hip, hport]
  · cases h

/-- The SYN-ACK carries the number of the new block only if the listener
    happens to have the same. -/
theorem synAck_seqnum_iff {live : List RingName}
    (h : ngTcpStreamCreate env s seg.dip seg.sip seg.dport seg.sport = some (t', live)) :
    (synAckFragment t seg).seqnum = t'.sndNxt ↔
      t.sndNxt = BitVec.ofNat 32 (env.rand % TCP_MAX_SEQ) := by
  simp only [ngTcpStreamCreate] at h
  split at h
  · obtain ⟨rfl, -⟩ := by simpa using h
    rfl
  · cases h

/-- As long as there is a ring named `sndbuf`, as the first SYN makes one, the
    next SYN that is answered crashes the stack: `rte_ring_create` fails and
    its result goes into `rte_ring_mp_enqueue`. -/
theorem segv_of_next_syn (hname : "sndbuf".toList ∈ s.ringNames) (hsyn : seg.syn = true)
    (hst : t.status = .listen) (hstream : env.malloc .synStream = true)
    (hfragment : env.malloc .synFragment = true) :
    ngTcpHandleListen env s t seg = .error .segv := by
  have hring : rteRingCreate (α := NgTcpFragment) env.toEnv .synSndRing "sndbuf".toList
      s.ringNames = (none, s.ringNames) := if_pos (.inl hname)
  simp only [ngTcpHandleListen, hsyn, hst, and_self, if_true, ngTcpStreamCreate, hstream,
    hring, hfragment]

/-! ## A data segment at an established block -/

theorem enqueueRecvbuffer_rcvNxt {b : SegBranch} {len : Int}
    (h : ngTcpEnqueueRecvbuffer env b t tcphdr len = .ok t') : t'.rcvNxt = t.rcvNxt := by
  unfold ngTcpEnqueueRecvbuffer at h
  split at h
  · obtain rfl := Except.ok.inj h
    rfl
  · obtain ⟨⟨t₁, stored⟩, hput, rfl⟩ := map_eq_ok_iff.mp h
    obtain ⟨r, -, rfl, -⟩ := enqueueRcv_ok hput
    rfl

theorem sendAckpkt_rcvNxt {b : SegBranch} {len : Int} (hmalloc : env.malloc (.ackFragment b) = true)
    (h : ngTcpSendAckpkt env b t tcphdr len = .ok t') :
    t'.rcvNxt = t.rcvNxt + BitVec.ofInt 32 len := by
  unfold ngTcpSendAckpkt at h
  rw [if_pos hmalloc] at h
  obtain ⟨⟨t₁, stored⟩, hput, rfl⟩ := map_eq_ok_iff.mp h
  obtain ⟨r, -, rfl, -⟩ := enqueueRcv_ok hput
  rfl

theorem sendEcho_rcvNxt {len len' : Int} {goesOn : Bool} (hmalloc : env.echoFragment = true)
    (h : sendEcho env t tcphdr len len' = .ok (t', goesOn)) :
    t'.rcvNxt = t.rcvNxt + BitVec.ofInt 32 len := by
  unfold sendEcho at h
  rw [if_pos hmalloc] at h
  simp only at h
  split at h
  · obtain ⟨⟨t₁, stored⟩, hput, heq⟩ := map_eq_ok_iff.mp h
    obtain rfl : t₁ = t' := congrArg Prod.fst heq
    obtain ⟨r, -, rfl, -⟩ := enqueueSnd_ok hput
    rfl
  · obtain ⟨rfl, -⟩ := Prod.mk.inj (Except.ok.inj h)
    rfl

/-- `rcv_nxt` is advanced three times: once by the payload, and twice by what
    the address passed for `tcplen` leaves. -/
theorem established_rcvNxt {goesOn : Bool} (hack : env.malloc (.ackFragment .psh) = true)
    (hecho : env.echoFragment = true)
    (h : handleEstablishedPsh env t iphdr tcphdr = .ok (t', goesOn)) :
    t'.rcvNxt = t.rcvNxt + BitVec.ofInt 32 (Segment.ofHdrs iphdr tcphdr).payloadlen +
      (BitVec.ofInt 32 (env.iphdr.toInt - hdrlenOf tcphdr * 4) +
        BitVec.ofInt 32 (env.iphdr.toInt - hdrlenOf tcphdr * 4)) := by
  obtain ⟨t₁, hput, h⟩ := bind_eq_ok_iff.mp h
  obtain ⟨t₂, hsent, h⟩ := bind_eq_ok_iff.mp h
  have hacked := sendAckpkt_rcvNxt hack hsent
  simp only [enqueueRecvbuffer_rcvNxt hput] at hacked
  rw [sendEcho_rcvNxt hecho h, hacked]
  ac_rfl

theorem sendEcho_rcvbuf {len len' : Int} {goesOn : Bool}
    (h : sendEcho env t tcphdr len len' = .ok (t', goesOn)) : t'.rcvbuf = t.rcvbuf := by
  unfold sendEcho at h
  split at h
  · simp only at h
    split at h
    · obtain ⟨⟨t₁, stored⟩, hput, heq⟩ := map_eq_ok_iff.mp h
      obtain rfl : t₁ = t' := congrArg Prod.fst heq
      obtain ⟨r, -, rfl, -⟩ := enqueueSnd_ok hput
      rfl
    · obtain ⟨rfl, -⟩ := Prod.mk.inj (Except.ok.inj h)
      rfl
  · obtain ⟨rfl, -⟩ := Prod.mk.inj (Except.ok.inj h)
    rfl

theorem enqueueRecvbuffer_rcvbuf {b : SegBranch} {len : Int} {r : RteRing NgTcpFragment}
    {f : NgTcpFragment} (hrcv : t.rcvbuf = some r) (hf : recvFragment env b tcphdr len = some f)
    (h : ngTcpEnqueueRecvbuffer env b t tcphdr len = .ok t') :
    t'.rcvbuf = some (r.mpEnqueue f).1 := by
  simp only [ngTcpEnqueueRecvbuffer, hf] at h
  obtain ⟨⟨t₁, stored⟩, hput, rfl⟩ := map_eq_ok_iff.mp h
  obtain ⟨r', hr', rfl, -⟩ := enqueueRcv_ok hput
  obtain rfl := Option.some.inj (hrcv.symm.trans hr')
  rfl

theorem sendAckpkt_rcvbuf {b : SegBranch} {len : Int} {r : RteRing NgTcpFragment}
    (hrcv : t.rcvbuf = some r) (hmalloc : env.malloc (.ackFragment b) = true)
    (h : ngTcpSendAckpkt env b t tcphdr len = .ok t') :
    t'.rcvbuf = some (r.mpEnqueue env.rfragment).1 := by
  unfold ngTcpSendAckpkt at h
  rw [if_pos hmalloc] at h
  obtain ⟨⟨t₁, stored⟩, hput, rfl⟩ := map_eq_ok_iff.mp h
  obtain ⟨r', hr', rfl, -⟩ := enqueueRcv_ok hput
  obtain rfl := Option.some.inj (hrcv.symm.trans hr')
  rfl

/-- Two fragments go on the receive ring for one data segment: that of
    `ng_tcp_enqueue_recvbuffer` and the `rfragment` of `ng_tcp_send_ackpkt`. -/
theorem established_rcvItems {r : RteRing NgTcpFragment} {f : NgTcpFragment} {goesOn : Bool}
    (hrcv : t.rcvbuf = some r) (hroom : r.items.length + 1 < r.queue.capacity)
    (hf : recvFragment env .psh tcphdr env.iphdr.toInt = some f)
    (hack : env.malloc (.ackFragment .psh) = true)
    (h : handleEstablishedPsh env t iphdr tcphdr = .ok (t', goesOn)) :
    t'.rcvItems = t.rcvItems ++ [f, env.rfragment] := by
  obtain ⟨t₁, hput, h⟩ := bind_eq_ok_iff.mp h
  obtain ⟨t₂, hsent, h⟩ := bind_eq_ok_iff.mp h
  have hrcv₁ := enqueueRecvbuffer_rcvbuf hrcv hf hput
  have hrcv₂ : t₂.rcvbuf = some ((r.mpEnqueue f).1.mpEnqueue env.rfragment).1 := by
    refine sendAckpkt_rcvbuf ?_ hack hsent
    exact hrcv₁
  have hfirst : (r.mpEnqueue f).1.items = r.items ++ [f] :=
    (RteRing.mpEnqueue_of_hasRoom (Nat.lt_of_succ_lt hroom)).1
  have hroom' : (r.mpEnqueue f).1.HasRoom := by
    show (r.mpEnqueue f).1.items.length < (r.mpEnqueue f).1.queue.capacity
    rw [hfirst, RteRing.capacity_mpEnqueue, List.length_append, List.length_singleton]
    exact hroom
  calc t'.rcvItems
    _ = ((r.mpEnqueue f).1.mpEnqueue env.rfragment).1.items := by
        rw [NgTcpStream.rcvItems, sendEcho_rcvbuf h, hrcv₂, ringItems_some]
    _ = r.items ++ [f] ++ [env.rfragment] := by
        rw [(RteRing.mpEnqueue_of_hasRoom hroom').1, hfirst]
    _ = t.rcvItems ++ [f, env.rfragment] := by
        rw [NgTcpStream.rcvItems, hrcv, ringItems_some, List.append_assoc, List.singleton_append]

end LinuxLearning.Tcp
