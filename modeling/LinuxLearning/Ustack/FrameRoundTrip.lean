/-
  LinuxLearning.Ustack.FrameRoundTrip

  What a peer reads from the frame that `ng_tcp_pkt` builds from a fragment.

  `ng_encode_tcp_apppkt` converts the sequence and acknowledgement numbers
  to network byte order, and forgets the window and the urgent pointer: the
  peer reads both with their bytes exchanged.  The window of every fragment
  is 14600, which becomes 2105.  Everything else comes back, unless a FIN
  carries an `optlen` from memory that `nclose` did not clear.
-/

import LinuxLearning.Ustack.Buffers
import LinuxLearning.Ustack.Checksum
import LinuxLearning.Ustack.FrameSize

namespace LinuxLearning.Ustack

open Lib

variable {s s' : State} {e : Event} {o : Out} {a : Addr} {f : NgTcpFragment}

/-! ## Parsing -/

namespace TcpHdr
def rxWin (p : Ptr) : BitVec 16 := p.load16 14
def tcpUrp (p : Ptr) : BitVec 16 := p.load16 18
end TcpHdr

/-- The frame in `m`, parsed in network byte order, is one of Ethernet, IPv4
    and TCP, has the length it claims, and yields the fragment back.  The
    ports of a fragment are in network order, its other fields in that of
    the host. -/
structure RoundTrips (m : Mbuf) (f : NgTcpFragment) : Prop where
  tcp : m.IsTcp
  version : Ipv4Hdr.versionIhl m.iphdr = 0x45
  whole : m.dataLen = sizeofEtherHdr + m.totalLength
  sport : TcpHdr.srcPort m.l4hdr = f.sport
  dport : TcpHdr.dstPort m.l4hdr = f.dport
  seqnum : ntohl (TcpHdr.sentSeq m.l4hdr) = f.seqnum
  acknum : ntohl (TcpHdr.recvAck m.l4hdr) = f.acknum
  flags : TcpHdr.tcpFlags m.l4hdr = f.tcpFlags
  window : ntohs (TcpHdr.rxWin m.l4hdr) = f.windows
  urgent : ntohs (TcpHdr.tcpUrp m.l4hdr) = f.tcpUrp
  hdrlen : (hdrlenOf m.l4hdr : Int) = 5 + f.optlen.toInt
  payload : m.l4hdr.bytes (hdrlenOf m.l4hdr * 4)
    (m.totalLength - sizeofIpv4Hdr - hdrlenOf m.l4hdr * 4) = f.payload
  ipCksum : IpCksumVerifies m.iphdr
  tcpCksum : TcpCksumVerifies m.iphdr m.l4hdr

/-! ## The frame of a fragment -/

theorem l4hdr_eq (m : Mbuf) : m.l4hdr = m.data.offset 34 := Ptr.offset_offset ..

section Frame

variable {msg : Ptr} {sip dip : BitVec 32} {srcmac dstmac : List Byte}

theorem TcpCksumVerifies.congr {ip ip' l4 : Ptr} (hip : Ptr.Agrees 20 ip ip')
    (h : TcpCksumVerifies ip l4) : TcpCksumVerifies ip' l4 := by
  have htotal : Ipv4Hdr.totalLength ip = Ipv4Hdr.totalLength ip' := hip.load16 (by omega)
  have hpsd : psdHdr ip = psdHdr ip' := hip.psdHdr (by omega)
  rw [TcpCksumVerifies, htotal, hpsd] at h
  exact h

theorem ipCksumVerifies_ngTcpPkt :
    IpCksumVerifies (ngTcpPkt msg sip dip srcmac dstmac f).iphdr := by
  have hagrees : Ptr.Agrees 20 ((encodeTcpIpHdr msg sip dip srcmac dstmac f).offset 14)
      (ngTcpPkt msg sip dip srcmac dstmac f).iphdr := by
    intro i hi
    exact (ngEncodeTcpApppkt_iphdr msg sip dip srcmac dstmac f (by omega)).symm
  -- the sum was taken while the field was 0, and stored there
  have hclear : ((unsummedIpHdr msg sip dip srcmac dstmac f).offset 14).load16 10 = 0 := by
    simp [unsummedIpHdr]
  have hverifies := ipCksumVerifies_store hclear
  rw [← Ptr.offset_store16] at hverifies
  rw [IpCksumVerifies, rteRawCksum, ← hagrees.rawCksumSum (by decide)]
  exact hverifies

theorem tcpCksumVerifies_ngTcpPkt (hopt : f.optlen = 0) (hlen : f.length + 40 < 2 ^ 16) :
    TcpCksumVerifies (ngTcpPkt msg sip dip srcmac dstmac f).iphdr
      (ngTcpPkt msg sip dip srcmac dstmac f).l4hdr := by
  let p := unsummedTcp msg sip dip srcmac dstmac f
  have hdata : (ngTcpPkt msg sip dip srcmac dstmac f).data =
      p.store16 (34 + 16) (rteIpv4UdptcpCksum (p.offset 14) (p.offset 34)) :=
    ngEncodeTcpApppkt_eq msg sip dip srcmac dstmac f
  have hagrees : Ptr.Agrees 20 (p.offset 14) (ngTcpPkt msg sip dip srcmac dstmac f).iphdr := by
    intro i hi
    rw [Mbuf.iphdr, hdata]
    show p (14 + i) = p.store16 (34 + 16) _ (14 + i)
    exact (Ptr.store16_apply_of_ne (by omega) (by omega)).symm
  have htotal : (ntohs (Ipv4Hdr.totalLength (p.offset 14))).toNat =
      sizeofIpv4Hdr + (f.length + 20) := by
    have hfield : Ipv4Hdr.totalLength (p.offset 14) =
        Ipv4Hdr.totalLength (ngTcpPkt msg sip dip srcmac dstmac f).iphdr :=
      hagrees.load16 (by omega)
    have hframe : (ngTcpPkt msg sip dip srcmac dstmac f).totalLength = f.length + 40 :=
      totalLength_ngTcpPkt hopt hlen
    rw [Mbuf.totalLength] at hframe
    rw [hfield, hframe, sizeofIpv4Hdr]
    omega
  -- again the field was 0 while the sum was taken
  have hclear : (p.offset 34).load16 16 = 0 := by
    simp [p, unsummedTcp]
  rw [l4hdr_eq, hdata, Ptr.offset_store16]
  exact (tcpCksumVerifies_store hclear (by omega) htotal).congr hagrees

theorem rxWin_ngTcpPkt :
    TcpHdr.rxWin (ngTcpPkt msg sip dip srcmac dstmac f).l4hdr = f.windows := by
  rw [l4hdr_eq]
  exact (headerFields_encode msg sip dip srcmac dstmac f).rxWin

theorem tcpUrp_ngTcpPkt :
    TcpHdr.tcpUrp (ngTcpPkt msg sip dip srcmac dstmac f).l4hdr = f.tcpUrp := by
  rw [l4hdr_eq]
  exact (headerFields_encode msg sip dip srcmac dstmac f).tcpUrp

/-- A frame whose header length is five words and that carries its payload
    whole yields a fragment with any window and urgent pointer, if these are
    the frame's with their bytes exchanged and there are no options. -/
theorem roundTrips_iff {window urgent : BitVec 16} (hoff : f.hdrlenOff = 0x50)
    (hpayload : f.payload.length = f.length) (hlen : f.length ≤ 1460) :
    RoundTrips (ngTcpPkt msg sip dip srcmac dstmac f)
      { f with windows := window, tcpUrp := urgent } ↔
    htons f.windows = window ∧ htons f.tcpUrp = urgent ∧ f.optlen = 0 := by
  have hfields := headerFields_encode msg sip dip srcmac dstmac f
  have hl4 : (ngTcpPkt msg sip dip srcmac dstmac f).l4hdr =
      (ngEncodeTcpApppkt msg sip dip srcmac dstmac f).offset 34 := l4hdr_eq _
  have hdrlen : hdrlenOf (ngTcpPkt msg sip dip srcmac dstmac f).l4hdr = 5 := by
    rw [hl4, hdrlenOf, hfields.dataOff, hoff]
    rfl
  constructor
  · intro h
    refine ⟨?_, ?_, ?_⟩
    · have hread := h.window
      rwa [rxWin_ngTcpPkt] at hread
    · have hread := h.urgent
      rwa [tcpUrp_ngTcpPkt] at hread
    · have hwords : (hdrlenOf (ngTcpPkt msg sip dip srcmac dstmac f).l4hdr : Int) =
          5 + f.optlen.toInt := h.hdrlen
      rw [hdrlen] at hwords
      apply BitVec.eq_of_toInt_eq
      show f.optlen.toInt = 0
      omega
  -- field by field from what the encoder stored
  · rintro ⟨rfl, rfl, hopt⟩
    have htotal : (ngTcpPkt msg sip dip srcmac dstmac f).totalLength = f.length + 40 :=
      totalLength_ngTcpPkt hopt (by omega)
    exact {
      tcp := ⟨hfields.etherType, hfields.nextProtoId⟩
      version := hfields.versionIhl
      whole := by
        rw [htotal, sizeofEtherHdr]
        simp only [ngTcpPkt, toNat_tcpTotalLen hopt (by omega : f.length + 54 < 2 ^ 32)]
        omega
      sport := by
        rw [hl4]
        exact hfields.srcPort
      dport := by
        rw [hl4]
        exact hfields.dstPort
      seqnum := by
        rw [hl4, hfields.sentSeq, ntohl_ntohl]
      acknum := by
        rw [hl4, hfields.recvAck, ntohl_ntohl]
      flags := by
        rw [hl4]
        exact hfields.tcpFlags
      window := by rw [rxWin_ngTcpPkt]
      urgent := by rw [tcpUrp_ngTcpPkt]
      hdrlen := by
        rw [hdrlen, hopt]
        rfl
      payload := by
        have hrest : f.length + 40 - sizeofIpv4Hdr - 5 * 4 = f.payload.length := by
          rw [hpayload, sizeofIpv4Hdr]
          omega
        rw [hdrlen, htotal, hrest, hl4, Ptr.bytes_offset]
        exact bytes_ngEncodeTcpApppkt msg sip dip srcmac dstmac f
      ipCksum := ipCksumVerifies_ngTcpPkt
      tcpCksum := tcpCksumVerifies_ngTcpPkt hopt (by omega) }

end Frame

/-! ## The four producers -/

/-- A fragment as `nsend`, `nclose`, `ng_tcp_handle_listen` or
    `ng_tcp_send_ackpkt` makes it. -/
inductive Produced : NgTcpFragment → Prop where
  | nsend (t : NgTcpStream) (buf : List Byte) : Produced (sendFragment t buf)
  | nclose (env : Env) (t : NgTcpStream) : Produced (finFragment env t)
  | handleListen (syn : NgTcpStream) (seg : Segment) : Produced (synAckFragment syn seg)
  | sendAckpkt (t : NgTcpStream) (tcphdr : Ptr) : Produced (ackFragment t tcphdr)

/-- Nobody else puts a new fragment on a `sndbuf`. -/
theorem produced_of_step {stored : Bool} (hstep : step s e = .ok (s', o))
    (hput : .sndPut f stored ∈ o.opsOf a) : Produced f := by
  have hchange := tcbChange_of_step hstep a
  generalize o.opsOf a = ops at hput hchange
  generalize s.tcb a = before at hchange
  generalize s'.tcb a = after at hchange
  cases hchange with
  | idle | bound | listening => cases hput
  | seen | opened | accepted | closed | synUnanswered | handshake | destroyed => simp at hput
  | @sending env fd buf t t' stored' he hinfo hqueue =>
      obtain ⟨rfl, -⟩ : f = sendFragment t buf ∧ stored = stored' := by simpa using hput
      exact .nsend t buf
  | @closing env fd t t' stored' he hinfo hst hqueue =>
      obtain ⟨rfl, -⟩ : f = finFragment env t ∧ stored = stored' := by simpa using hput
      exact .nclose env t
  | @synAcked env m l t syn live r =>
      obtain ⟨rfl, -⟩ : f = synAckFragment syn m.segment ∧ _ := by simpa using hput
      exact .handleListen syn m.segment
  -- what is put back goes to the `rcvbuf`
  | reading he hinfo hread =>
      have hok := nrecvStream_ok hread
      cases hok <;> simp [coreOps] at hput
  | data he hf hst hest =>
      rcases List.mem_cons.mp hput with hput | hput
      · cases hput
      · rcases (ngTcpHandleEstablished_ok hest).mem_ops hput with
          ⟨b, len, g, stored', -, -, hop⟩ | ⟨u, stored', hop⟩
        · cases hop
        · obtain ⟨rfl, -⟩ := StreamOp.sndPut.inj hop
          exact .sendAckpkt u _
  | @output env t he =>
      have hok := tcpOutStream_cases s.arpt t
      generalize (tcpOutStream s.arpt t).2.1 = ops at hok hput
      generalize (tcpOutStream s.arpt t).1 = t' at hok
      -- `ng_tcp_out` puts back a fragment that was queued before
      cases hok <;> simp [coreOps] at hput

theorem Produced.windows (h : Produced f) : f.windows = TCP_INITIAL_WINDOW := by
  cases h <;> rfl

theorem Produced.hdrlenOff (h : Produced f) : f.hdrlenOff = 0x50 := by
  cases h <;> rfl

/-- It carries as many bytes as its length says. -/
theorem Produced.length_payload (h : Produced f) : f.payload.length = f.length := by
  cases h with
  | nsend t buf =>
      have hle : buf.length % 2 ^ 32 ≤ buf.length := Nat.mod_le _ _
      simp only [NgTcpFragment.payload, sendFragment, Option.getD_some, List.length_take,
        List.length_append, List.length_singleton]
      omega
  | nclose | handleListen | sendAckpkt => rfl

/-- No fragment comes back from its frame: the window is never the one it
    was.  With the window as the encoder left it, just those come back that
    have no options and an urgent pointer that reads the same either way;
    only `nclose` makes others. -/
theorem fragment_round_trip {stored : Bool} (hstep : step s e = .ok (s', o))
    (hput : .sndPut f stored ∈ o.opsOf a) (hlen : f.length ≤ 1460) (msg : Ptr)
    (sip dip : BitVec 32) (srcmac dstmac : List Byte) :
    ¬ RoundTrips (ngTcpPkt msg sip dip srcmac dstmac f) f ∧
    (RoundTrips (ngTcpPkt msg sip dip srcmac dstmac f) { f with windows := htons f.windows } ↔
      f.optlen = 0 ∧ htons f.tcpUrp = f.tcpUrp) := by
  have hproduced := produced_of_step hstep hput
  constructor
  · intro h
    have hwindow := h.window
    rw [rxWin_ngTcpPkt, hproduced.windows] at hwindow
    exact absurd hwindow (by decide)
  · have hiff : RoundTrips (ngTcpPkt msg sip dip srcmac dstmac f)
          { f with windows := htons f.windows } ↔
        htons f.windows = htons f.windows ∧ htons f.tcpUrp = f.tcpUrp ∧ f.optlen = 0 :=
      roundTrips_iff hproduced.hdrlenOff hproduced.length_payload hlen
    constructor
    · intro h
      obtain ⟨-, hurgent, hopt⟩ := hiff.mp h
      exact ⟨hopt, hurgent⟩
    · rintro ⟨hopt, hurgent⟩
      exact hiff.mpr ⟨rfl, hurgent, hopt⟩

/-- The byte that `nsend` was given comes back with all its headers but for
    the window. -/
theorem fragment_round_trip_one_byte : ∃ hist s s' o, SystemRun (State.init []) hist s ∧
    step s (.nsend .plain 3 [7]) = .ok (s', o) ∧ ∀ msg sip dip srcmac dstmac,
      ¬ RoundTrips (ngTcpPkt msg sip dip srcmac dstmac oneByteFragment) oneByteFragment ∧
      RoundTrips (ngTcpPkt msg sip dip srcmac dstmac oneByteFragment)
        { oneByteFragment with windows := 2105 } := by
  obtain ⟨hist, s, s', o, hrun, hstep, -, hops⟩ := run_one_byte
  have hput : .sndPut oneByteFragment true ∈ o.opsOf 0 := by
    simp [Out.opsOf, hops]
  refine ⟨hist, s, s', o, hrun, hstep, ?_⟩
  intro msg sip dip srcmac dstmac
  have hboth := fragment_round_trip hstep hput (by decide) msg sip dip srcmac dstmac
  exact ⟨hboth.1, hboth.2.mpr (by decide)⟩

/-- `nsend` queues a fragment with a window of 14600, and the peer reads
    2105. -/
theorem window_not_converted : ∃ hist s s' o f stored, SystemRun (State.init []) hist s ∧
    step s (.nsend .plain 3 [7]) = .ok (s', o) ∧ .sndPut f stored ∈ o.opsOf 0 ∧
    f.length ≤ 1460 ∧ f.windows = 14600 ∧ ∀ msg sip dip srcmac dstmac,
      ntohs (TcpHdr.rxWin (ngTcpPkt msg sip dip srcmac dstmac f).l4hdr) = 2105 ∧
      ¬ RoundTrips (ngTcpPkt msg sip dip srcmac dstmac f) f := by
  obtain ⟨hist, s, s', o, hrun, hstep, -, hops⟩ := run_one_byte
  have hput : .sndPut oneByteFragment true ∈ o.opsOf 0 := by
    simp [Out.opsOf, hops]
  refine ⟨hist, s, s', o, oneByteFragment, true, hrun, hstep, hput, by decide, rfl, ?_⟩
  intro msg sip dip srcmac dstmac
  have hread : ntohs (TcpHdr.rxWin
      (ngTcpPkt msg sip dip srcmac dstmac oneByteFragment).l4hdr) = 2105 := by
    rw [rxWin_ngTcpPkt]
    decide
  refine ⟨hread, ?_⟩
  intro h
  exact absurd (hread.symm.trans h.window) (by decide)

end LinuxLearning.Ustack
