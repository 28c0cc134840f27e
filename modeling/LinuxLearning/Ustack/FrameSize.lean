/-
  LinuxLearning.Ustack.FrameSize

  The sizes of the frames that `ng_tcp_pkt` and `ng_udp_pkt` build for the
  data given to `nsend` and `nsendto`.

  Neither call looks at the length.  `ng_tcp_pkt` gets every frame right that
  fits into a buffer; `ng_encode_udp_apppkt` counts the UDP header into the
  length of its copy, so that every frame gets eight bytes too many.
-/

import LinuxLearning.Ustack.Encoding
import LinuxLearning.Ustack.FrameReads

namespace LinuxLearning.Ustack

open Lib

variable {env : Env} {s s' : State} {o : Out} {buf : List Byte}

/-- The data room of a buffer of `RTE_MBUF_DEFAULT_BUF_SIZE` bytes, its
    headroom taken off. -/
def RTE_MBUF_DEFAULT_DATAROOM : Nat := 2048

/-! ## Buffers for transmission -/

/-- A buffer that was built for transmission, its `pkt_len`, and how many
    bytes the encoder copied from the data it was given. -/
structure TxMbuf where
  mbuf : Mbuf
  pktLen : Nat
  copied : Nat

/-- What `ng_tcp_pkt` builds. -/
def tcpTxMbuf (msg : Ptr) (sip dip : BitVec 32) (srcmac dstmac : List Byte)
    (fragment : NgTcpFragment) : TxMbuf where
  mbuf := ngTcpPkt msg sip dip srcmac dstmac fragment
  pktLen := (tcpTotalLen fragment).toNat
  copied := if fragment.data.isSome then fragment.length else 0

/-- What `ng_udp_pkt` builds. -/
def udpTxMbuf (msg heap : Ptr) (srcmac dstmac : List Byte) (ol : Offload) : TxMbuf where
  mbuf := ngUdpPkt msg heap srcmac dstmac ol
  pktLen := (udpTotalLen ol.length).toNat
  copied := (udplenOf ((udpTotalLen ol.length).setWidth 16)).toNat

/-- The frame consists of `hdr` bytes of headers and of `buf`, its sizes are
    the true ones, and the encoder stayed in `buf` and in the frame.  `msg`
    is what the buffer held before. -/
structure TxMbuf.Carries (t : TxMbuf) (hdr : Nat) (buf : List Byte) (msg : Ptr) : Prop where
  payload : t.mbuf.data.bytes hdr buf.length = buf
  dataLen : t.mbuf.dataLen = hdr + buf.length
  pktLen : t.pktLen = hdr + buf.length
  totalLength : t.mbuf.totalLength = hdr - sizeofEtherHdr + buf.length
  copied : t.copied ≤ buf.length
  behind : ∀ i, t.mbuf.dataLen ≤ i → t.mbuf.data i = msg i
  room : t.mbuf.dataLen ≤ RTE_MBUF_DEFAULT_DATAROOM

/-- The same of a datagram, whose UDP header has a length too. -/
structure TxMbuf.CarriesDatagram (t : TxMbuf) (buf : List Byte) (msg : Ptr) : Prop
    extends t.Carries 42 buf msg where
  dgramLen : t.mbuf.dgramLen = sizeofUdpHdr + buf.length

/-! ## TCP -/

theorem toNat_tcpTotalLen {f : NgTcpFragment} (hopt : f.optlen = 0)
    (hlen : f.length + 54 < 2 ^ 32) : (tcpTotalLen f).toNat = f.length + 54 := by
  have hsum : (f.length + sizeofEtherHdr + sizeofIpv4Hdr + sizeofTcpHdr +
      f.optlen.toInt * 4 : Int) = ((f.length + 54 : Nat) : Int) := by
    rw [hopt, show (0 : BitVec 32).toInt = 0 from rfl]
    simp only [sizeofEtherHdr, sizeofIpv4Hdr, sizeofTcpHdr]
    omega
  rw [tcpTotalLen, hsum, BitVec.ofInt_natCast, BitVec.toNat_ofNat, Nat.mod_eq_of_lt hlen]

theorem totalLength_ngTcpPkt {msg : Ptr} {sip dip : BitVec 32} {srcmac dstmac : List Byte}
    {f : NgTcpFragment} (hopt : f.optlen = 0) (hlen : f.length + 40 < 2 ^ 16) :
    (ngTcpPkt msg sip dip srcmac dstmac f).totalLength = f.length + 40 := by
  have htotal : (tcpTotalLen f).toNat = f.length + 54 := toNat_tcpTotalLen hopt (by omega)
  have hfield : Ipv4Hdr.totalLength (ngTcpPkt msg sip dip srcmac dstmac f).iphdr =
      htons ((tcpTotalLen f - BitVec.ofNat 32 sizeofEtherHdr).setWidth 16) :=
    (headerFields_encode msg sip dip srcmac dstmac f).totalLength
  rw [Mbuf.totalLength, hfield, ntohs_ntohs, BitVec.toNat_setWidth, BitVec.toNat_sub, htotal]
  simp only [sizeofEtherHdr, BitVec.toNat_ofNat]
  omega

/-- A frame with up to 1994 bytes of data is as it should be, and one with
    more does not fit into the buffer. -/
theorem carries_sendFragment_iff {msg : Ptr} {sip dip : BitVec 32} {srcmac dstmac : List Byte}
    {t : NgTcpStream} :
    (tcpTxMbuf msg sip dip srcmac dstmac (sendFragment t buf)).Carries 54 buf msg ↔
      buf.length ≤ 1994 := by
  constructor
  · intro h
    -- 1994 = 2048 - 54
    have hroom := h.room
    rw [h.dataLen, RTE_MBUF_DEFAULT_DATAROOM] at hroom
    omega
  · intro h
    have hopt : (sendFragment t buf).optlen = 0 := rfl
    have hlen : (sendFragment t buf).length = buf.length := Nat.mod_eq_of_lt (by omega)
    have hpayload : (sendFragment t buf).payload = buf := by
      rw [NgTcpFragment.payload, hlen]
      exact List.take_left ..
    have htotal : (tcpTotalLen (sendFragment t buf)).toNat = buf.length + 54 := by
      rw [toNat_tcpTotalLen hopt (by omega), hlen]
    have hdata : (tcpTxMbuf msg sip dip srcmac dstmac (sendFragment t buf)).mbuf.dataLen =
        54 + buf.length := by
      simp only [tcpTxMbuf, ngTcpPkt, htotal]
      omega
    have hsome : (sendFragment t buf).data.isSome = true := rfl
    exact {
      payload := by
        have := bytes_ngEncodeTcpApppkt msg sip dip srcmac dstmac (sendFragment t buf)
        rw [hpayload] at this
        exact this
      dataLen := hdata
      pktLen := by
        simp only [tcpTxMbuf, htotal]
        omega
      totalLength := by
        simp only [tcpTxMbuf, sizeofEtherHdr]
        rw [totalLength_ngTcpPkt hopt (by omega), hlen]
        omega
      copied := by
        simp only [tcpTxMbuf]
        rw [if_pos hsome]
        exact Nat.le_of_eq hlen
      behind := by
        intro i hi
        rw [hdata] at hi
        have hle : 54 + (sendFragment t buf).payload.length ≤ i := by
          rw [hpayload]
          exact hi
        exact ngEncodeTcpApppkt_behind msg sip dip srcmac dstmac (sendFragment t buf) hle
      room := by
        rw [hdata, RTE_MBUF_DEFAULT_DATAROOM]
        omega }

/-! ## UDP -/

/-- The copy is eight bytes longer than the data. -/
theorem not_carries_sendtoOffload {msg heap : Ptr} {srcmac dstmac : List Byte} {host : Localhost}
    {ip : BitVec 32} {port : BitVec 16} :
    ¬ (udpTxMbuf msg heap srcmac dstmac (sendtoOffload host buf ip port)).CarriesDatagram
      buf msg := by
  intro h
  have hroom := h.room
  rw [h.dataLen, RTE_MBUF_DEFAULT_DATAROOM] at hroom
  -- the total length is for both headers and the data; the copy leaves out 34 bytes only
  have hcopied := h.copied
  have h42 : BitVec.toNat (42 : BitVec 32) = 42 := rfl
  simp only [udpTxMbuf, sendtoOffload, udplenOf, udpTotalLen, sizeofEtherHdr, sizeofIpv4Hdr,
    BitVec.toNat_sub, BitVec.toNat_setWidth, BitVec.toNat_add, BitVec.toNat_ofNat, h42] at hcopied
  omega

/-! ## The two calls -/

/-- What `nsend` queues is the fragment of its data. -/
theorem sndPut_of_nsend {fd : Int} {a : Addr} {f : NgTcpFragment} {stored : Bool}
    (h : nsend env s fd buf = .ok (s', o)) (hput : (a, .sndPut f stored) ∈ o.ops) :
    ∃ t, s.tcb a = some t ∧ f = sendFragment t buf := by
  have hmem : .sndPut f stored ∈ o.opsOf a := by
    rw [Out.opsOf, List.mem_filterMap]
    exact ⟨(a, .sndPut f stored), hput, if_pos ⟨rfl, by rintro ⟨⟩⟩⟩
  have hchange := tcbChange_of_nsend h a
  generalize o.opsOf a = ops at hchange hmem
  generalize s.tcb a = before at hchange ⊢
  generalize s'.tcb a = after at hchange
  -- only the case of `nsend` is left
  cases hchange with
  | sending he hinfo hqueue =>
      injection he with _ _ hbuf
      subst hbuf
      obtain ⟨rfl, -⟩ := StreamOp.sndPut.inj (List.mem_singleton.mp hmem)
      exact ⟨_, rfl, rfl⟩
  | idle | bound he | listening he => cases hmem
  | seen he | opened he | accepted he | reading he | closing he | closed he | synAcked he
  | synUnanswered he | handshake he | data he | destroyed he | output he => cases he

/-- A call that returns the length of its data leads to a frame as it should
    be just when it is a call of `nsend` with at most 1994 bytes, whatever the
    buffer held before and whoever the frame is for. -/
theorem frame_size (env : Env) (s s' : State) (o : Out) (fd : Int) (buf : List Byte)
    (hret : o.ret = buf.length) :
    (nsend env s fd buf = .ok (s', o) → ∀ a f stored, (a, .sndPut f stored) ∈ o.ops →
      ∀ msg sip dip srcmac dstmac,
        (tcpTxMbuf msg sip dip srcmac dstmac f).Carries 54 buf msg ↔ buf.length ≤ 1994) ∧
    (∀ ip port, nsendto env s fd buf ip port = .ok (s', o) → ∃ a host r,
      s.localhost a = some host ∧ host.sndbuf = some r ∧
      s' = s.setHost a
        { host with sndbuf := some (r.mpEnqueue (sendtoOffload host buf ip port)).1 } ∧
      ∀ msg heap srcmac dstmac,
        ¬ (udpTxMbuf msg heap srcmac dstmac (sendtoOffload host buf ip port)).CarriesDatagram
          buf msg) := by
  constructor
  · intro h a f stored hput msg sip dip srcmac dstmac
    obtain ⟨t, -, rfl⟩ := sndPut_of_nsend h hput
    exact carries_sendFragment_iff
  · intro ip port h
    rcases nsendto_cases h with ⟨-, rfl⟩ | ⟨a, host, r, hinfo, hr, -, -, hs⟩
    · -- a call that fails returns no length
      have hfail : (Out.ofRet (-1)).ret = -1 := rfl
      omega
    · exact ⟨a, host, r, localhost_of_hostinfo hinfo, hr, hs, fun _ _ _ _ =>
        not_carries_sendtoOffload⟩

/-- What `nsend` queues for one byte on a new TCP socket. -/
def oneByteFragment : NgTcpFragment :=
  { NgTcpFragment.zero with
    tcpFlags := RTE_TCP_ACK_FLAG ||| RTE_TCP_PSH_FLAG
    windows := TCP_INITIAL_WINDOW
    hdrlenOff := 0x50
    data := some [7, 0]
    length := 1 }

theorem run_one_byte : ∃ hist s s' o, SystemRun (State.init []) hist s ∧
    step s (.nsend .plain 3 [7]) = .ok (s', o) ∧ o.ret = 1 ∧
    o.ops = [(0, .sndPut oneByteFragment true)] := by
  have hsteps : stepsTo (State.init []) [.nsocket .plain SOCK_STREAM] (.nsend .plain 3 [7])
      (fun _ _ o => decide (o.ret = 1) &&
        decide (o.ops = [(0, .sndPut oneByteFragment true)])) = true := by
    decide +kernel
  obtain ⟨hist, s, s', o, hrun, hstep, hP⟩ := step_of_stepsTo hsteps
  rw [Bool.and_eq_true, decide_eq_true_eq, decide_eq_true_eq] at hP
  exact ⟨hist, s, s', o, hrun, hstep, hP⟩

/-- One byte is sent on a TCP socket: all frames that can be built for it are
    as they should be. -/
theorem frame_size_one_byte : ∃ hist s s' o f stored, SystemRun (State.init []) hist s ∧
    nsend .plain s 3 [7] = .ok (s', o) ∧ (0, .sndPut f stored) ∈ o.ops ∧
    ∀ msg sip dip srcmac dstmac,
      (tcpTxMbuf msg sip dip srcmac dstmac f).Carries 54 [7] msg := by
  obtain ⟨hist, s, s', o, hrun, hstep, hret, hops⟩ := run_one_byte
  have hput : (0, .sndPut oneByteFragment true) ∈ o.ops := by
    rw [hops]
    exact List.mem_singleton_self _
  refine ⟨hist, s, s', o, oneByteFragment, true, hrun, hstep, hput, ?_⟩
  intro msg sip dip srcmac dstmac
  have hsize := (frame_size .plain s s' o 3 [7] hret).1 hstep 0 oneByteFragment true hput
  exact (hsize msg sip dip srcmac dstmac).mpr (by decide)

/-- For one byte given to `nsendto`, nine are copied, and the byte behind the
    frame is one from behind the data.  For 2000 bytes given to `nsend`, the
    frame has 2054. -/
theorem frame_size_wrong :
    (∃ hist s s' o ol, SystemRun (State.init []) hist s ∧
      nsendto .plain s 3 [7] 0x0200000A (htons 40000) = .ok (s', o) ∧ o.ret = 1 ∧
      (s'.localhost 0).map Localhost.sndItems = some [ol] ∧
      let t := udpTxMbuf (fun _ => 0) (fun _ => 0xAA) [2, 0, 0, 0, 0, 1] [2, 0, 0, 0, 0, 2] ol
      t.copied = 9 ∧ t.mbuf.dataLen = 43 ∧ t.mbuf.data 43 = 0xAA ∧
      ¬ t.CarriesDatagram [7] fun _ => 0) ∧
    ∃ hist s s' o f stored, SystemRun (State.init []) hist s ∧
      nsend .plain s 3 (List.replicate 2000 0) = .ok (s', o) ∧ o.ret = 2000 ∧
      (0, .sndPut f stored) ∈ o.ops ∧ ∀ msg sip dip srcmac dstmac,
        (tcpTxMbuf msg sip dip srcmac dstmac f).mbuf.dataLen = 2054 ∧
        ¬ (tcpTxMbuf msg sip dip srcmac dstmac f).Carries 54 (List.replicate 2000 0) msg := by
  constructor
  · let ol : Offload :=
      { sip := 0x0100000A, dip := 0x0200000A, sport := htons 8889, dport := htons 40000,
        data := [7], length := 1 }
    have hsteps : stepsTo (State.init [])
        [.nsocket .plain SOCK_DGRAM, .nbind 3 0x0100000A (htons 8889)]
        (.nsendto .plain 3 [7] 0x0200000A (htons 40000))
        (fun _ s' o => decide (o.ret = 1) &&
          decide ((s'.localhost 0).map Localhost.sndItems = some [ol])) = true := by
      decide +kernel
    obtain ⟨hist, s, s', o, hrun, hstep, hP⟩ := step_of_stepsTo hsteps
    rw [Bool.and_eq_true, decide_eq_true_eq, decide_eq_true_eq] at hP
    refine ⟨hist, s, s', o, ol, hrun, hstep, hP.1, hP.2, by decide, by decide,
      by decide +kernel, ?_⟩
    intro h
    exact absurd h.copied (by decide)
  · let f := { oneByteFragment with data := some (List.replicate 2001 0), length := 2000 }
    have hsteps : stepsTo (State.init []) [.nsocket .plain SOCK_STREAM]
        (.nsend .plain 3 (List.replicate 2000 0))
        (fun _ _ o => decide (o.ret = 2000) && decide (o.ops = [(0, .sndPut f true)])) = true := by
      decide +kernel
    obtain ⟨hist, s, s', o, hrun, hstep, hP⟩ := step_of_stepsTo hsteps
    rw [Bool.and_eq_true, decide_eq_true_eq, decide_eq_true_eq] at hP
    refine ⟨hist, s, s', o, f, true, hrun, hstep, hP.1, ?_, ?_⟩
    · rw [hP.2]
      exact List.mem_singleton_self _
    · intro msg sip dip srcmac dstmac
      have htotal : (tcpTotalLen f).toNat = 2054 := toNat_tcpTotalLen rfl (by decide)
      have hdata : (tcpTxMbuf msg sip dip srcmac dstmac f).mbuf.dataLen = 2054 := by
        simp [tcpTxMbuf, ngTcpPkt, htotal]
      refine ⟨hdata, ?_⟩
      intro h
      have hroom := h.room
      rw [hdata] at hroom
      exact absurd hroom (by decide)

end LinuxLearning.Ustack
