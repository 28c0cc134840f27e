/-
  LinuxLearning.Ustack.Network

  Any number of these stacks on one network, which loses and reorders frames,
  with machines of other kinds on it.

  A stack learns hardware addresses from the IPv4 frames that reach it, and
  sends an IPv4 frame only to an address it has learned.  Its own ARP
  requests teach nobody: a stack hands ARP to the kernel interface, and reads
  nothing back from there.  So a network of these stacks alone stays silent.
-/

import LinuxLearning.Lib.Network
import LinuxLearning.Ustack.ArpOutput
import LinuxLearning.Ustack.OutputOrder
import LinuxLearning.Ustack.UdpReception

namespace LinuxLearning.Ustack

open Lib

variable {env : Env} {s s' : State} {e : Event} {m : Mbuf} {o : Out}

/-! ## The stack as a machine -/

/-- What lay behind the data of the frames a step builds, and in their
    buffers. -/
structure FrameMemory where
  msg : Nat → Ptr
  heap : Nat → Ptr

/-- The buffer that a frame becomes; ARP requests name the port's own
    hardware address. -/
def Frame.mbuf (gSrcMac : List Byte) (msg heap : Ptr) : Frame → Mbuf
  | .arpRequest sip dip => ngSendArp msg gSrcMac RTE_ARP_OP_REQUEST gDefaultArpMac sip dip
  | .tcp sip dip srcmac dstmac fragment => ngTcpPkt msg sip dip srcmac dstmac fragment
  | .udp srcmac dstmac ol => ngUdpPkt msg heap srcmac dstmac ol

/-- The buffers of a step's frames, in the order in which they go out. -/
def frameMbufs (mem : FrameMemory) (gSrcMac : List Byte) (frames : List Frame) : List Mbuf :=
  frames.mapIdx fun k f => f.mbuf gSrcMac (mem.msg k) (mem.heap k)

/-- The state in which a step was taken, the event, what it reported, and the
    frames it sent. -/
structure StackReport where
  before : State
  event : Event
  out : Out
  sent : List Mbuf

/-- A step, with its report. -/
def reportedStep (s : State) (e : Event) (mem : FrameMemory) :
    Except Halt (State × StackReport) :=
  match step s e with
  | .error h => .error h
  | .ok (s', o) => .ok (s', ⟨s, e, o, frameMbufs mem s.gSrcMac o.frames⟩)

def Event.isPacket : Event → Bool
  | .packet _ _ => true
  | _ => false

/-- The stack on a network: packets come from the wire only. -/
def stackMachine :
    Machine State (Event × FrameMemory) (Env × FrameMemory) Mbuf StackReport Halt where
  act s a := if a.1.isPacket then .error .blocked else reportedStep s a.1 a.2
  receive s x m := reportedStep s (.packet x.1 m) x.2
  emits := StackReport.sent

variable {ι : Type*} [DecidableEq ι]

abbrev StackNetwork (ι : Type*) := Network ι State Mbuf

abbrev StackNetEvent (ι : Type*) := NetEvent ι (Event × FrameMemory) (Env × FrameMemory) Mbuf

abbrev StackHistory (ι : Type*) :=
  NetHistory ι (Event × FrameMemory) (Env × FrameMemory) Mbuf StackReport

/-- The stacks as they start, and an empty wire. -/
def StackNetwork.init (mac : ι → List Byte) : StackNetwork ι where
  machine i := .init (mac i)
  wire := []

theorem reportedStep_ok {mem : FrameMemory} {r : StackReport}
    (h : reportedStep s e mem = .ok (s', r)) :
    step s e = .ok (s', r.out) ∧ r.before = s ∧ r.event = e ∧
      r.sent = frameMbufs mem s.gSrcMac r.out.frames := by
  unfold reportedStep at h
  split at h
  · cases h
  · rename_i heq
    obtain ⟨rfl, rfl⟩ := Prod.mk.inj (Except.ok.inj h)
    exact ⟨heq, rfl, rfl, rfl⟩

theorem stackMachine_act_ok {a : Event × FrameMemory} {r : StackReport}
    (h : stackMachine.act s a = .ok (s', r)) :
    a.1.isPacket = false ∧ reportedStep s a.1 a.2 = .ok (s', r) := by
  simp only [stackMachine] at h
  split at h
  · cases h
  · exact ⟨by simpa using ‹¬ a.1.isPacket = true›, h⟩

/-! ## What the frames are -/

theorem not_isUdp_ngTcpPkt (msg : Ptr) (sip dip : BitVec 32) (srcmac dstmac : List Byte)
    (f : NgTcpFragment) : ¬ (ngTcpPkt msg sip dip srcmac dstmac f).IsUdp := by
  rintro ⟨-, hproto⟩
  have htcp : Ipv4Hdr.nextProtoId (ngTcpPkt msg sip dip srcmac dstmac f).iphdr = IPPROTO_TCP :=
    (headerFields_encode msg sip dip srcmac dstmac f).nextProtoId
  rw [htcp] at hproto
  exact absurd hproto (by decide)

theorem isUdp_ngUdpPkt (msg heap : Ptr) (srcmac dstmac : List Byte) (ol : Offload) :
    (ngUdpPkt msg heap srcmac dstmac ol).IsUdp :=
  ⟨(fields_ngUdpPkt msg heap srcmac dstmac ol).etherType,
    (fields_ngUdpPkt msg heap srcmac dstmac ol).nextProtoId⟩

theorem not_isIpv4_ngSendArp (msg : Ptr) (gSrcMac : List Byte) (opcode : BitVec 16)
    (dstMac : List Byte) (sip dip : BitVec 32) :
    ¬ (ngSendArp msg gSrcMac opcode dstMac sip dip).IsIpv4 := by
  have htype : EtherHdr.etherType (ngSendArp msg gSrcMac opcode dstMac sip dip).data =
      htons RTE_ETHER_TYPE_ARP := by
    have hsrc : (gSrcMac.take etherAddrLen).length ≤ 6 := List.length_take_le ..
    have hdst : (dstMac.take etherAddrLen).length ≤ 6 := List.length_take_le ..
    simp (disch := omega) only [ngSendArp, ngEncodeArpPkt, EtherHdr.etherType,
      Ptr.load16_store32_of_disjoint, Ptr.load16_storeBytes_of_disjoint,
      Ptr.load16_store16_of_disjoint, Ptr.load16_store8_of_disjoint, Ptr.load16_store16]
  rw [Mbuf.IsIpv4, htype]
  decide

/-! ## Silence -/

/-- The stack has learned no hardware address, and received no datagram. -/
structure Unaware (s : State) : Prop where
  arpt : s.arpt = .empty
  hosts : ∀ a host, s.localhost a = some host → host.rcvItems = []

/-- Strangers send no frame of IPv4. -/
def NoForeignIpv4 (_ : StackNetwork ι) : StackNetEvent ι → Prop
  | .inject m => ¬ m.IsIpv4
  | _ => True

instance (n : StackNetwork ι) : (e : StackNetEvent ι) → Decidable (NoForeignIpv4 n e)
  | .inject m => inferInstanceAs (Decidable (¬ m.IsIpv4))
  | .act _ _ | .deliver _ _ _ | .lose _ => .isTrue trivial

theorem macaddr_empty (dip : BitVec 32) : ArpTable.empty.ngGetDstMacaddr dip = none := rfl

/-- Only packets teach the stack anything. -/
theorem learned_of_not_packet (he : e.isPacket = false) : s.learned e = s.arpt := by
  cases e with
  | packet => cases he
  | udpOut | tcpOut | nsocket | nbind | nlisten | naccept | nsend | nrecv | nrecvfrom | nsendto
  | nclose => rfl

/-- Without a datagram from the wire a socket has none to read. -/
theorem Unaware.hostChange {a : Addr} {before after : Option Localhost}
    (h : HostChange s e a before after) (he : e.isPacket = false)
    (hbefore : ∀ host, before = some host → host.rcvItems = []) :
    ∀ host, after = some host → host.rcvItems = [] := by
  cases h with
  | idle => exact hbefore
  | opened he' ha hfd hip hport hsnd hrcv =>
      rintro host ⟨⟩
      exact hrcv
  | @bound fd ip port host he' hinfo =>
      rintro host' ⟨⟩
      exact hbefore host rfl
  | arrived he' =>
      subst he'
      cases he
  | @output env host he' =>
      rintro host' ⟨⟩
      have hrcv : (udpOutHost s.arpt host).1.rcvbuf = host.rcvbuf := by
        unfold udpOutHost
        repeat' split
        all_goals rfl
      rw [Localhost.rcvItems, hrcv]
      exact hbefore host rfl
  | @reading env fd len host host' o he' hinfo hread =>
      -- there is nothing that the call could take
      obtain ⟨ol, rest, hitems, -⟩ := hread.copies
      rw [hbefore host rfl] at hitems
      cases hitems
  | @sending env fd buf ip port host r he' hinfo hr =>
      rintro host' ⟨⟩
      exact hbefore host rfl
  | closed => rintro host ⟨⟩

theorem Unaware.step (hs : Unaware s) (h : step s e = .ok (s', o)) (he : e.isPacket = false) :
    Unaware s' where
  arpt := by rw [arpt_of_step h, learned_of_not_packet he, hs.arpt]
  hosts a := Unaware.hostChange (hostChange_of_step h a) he (hs.hosts a)

theorem frames_udpOutHost_empty (host : Localhost) :
    ∀ f ∈ (udpOutHost .empty host).2, ∃ sip dip, f = .arpRequest sip dip := by
  intro f hf
  unfold udpOutHost at hf
  split at hf
  · cases hf
  · split at hf
    · cases hf
    · rename_i ol r hpop
      rw [macaddr_empty] at hf
      exact ⟨ol.sip, ol.dip, List.mem_singleton.mp hf⟩

theorem frames_tcpOutStream_empty (stream : NgTcpStream) :
    ∀ f ∈ (tcpOutStream .empty stream).2.2, ∃ sip dip, f = .arpRequest sip dip := by
  intro f hf
  unfold tcpOutStream at hf
  split at hf
  · cases hf
  · split at hf
    · cases hf
    · rw [macaddr_empty] at hf
      exact ⟨stream.dip, stream.sip, List.mem_singleton.mp hf⟩

/-- Such a stack sends ARP requests only. -/
theorem Unaware.frames (hs : Unaware s) (h : Ustack.step s e = .ok (s', o)) :
    ∀ f ∈ o.frames, ∃ sip dip, f = .arpRequest sip dip := by
  rcases frames_of_step h with ⟨env, rfl⟩ | ⟨env, rfl⟩ | hnil
  · simp only [Ustack.step, Ustack.udpOut, hs.arpt] at h
    repeat' split at h
    all_goals simp only [Except.ok.injEq, Prod.mk.injEq, reduceCtorEq] at h
    obtain ⟨-, rfl⟩ := h
    intro f hf
    obtain ⟨n, -, hn⟩ := List.mem_flatMap.mp hf
    exact frames_udpOutHost_empty n.2 f hn
  · simp only [Ustack.step, ngTcpOut, hs.arpt] at h
    split at h
    · cases h
    · simp only [Except.ok.injEq, Prod.mk.injEq] at h
      obtain ⟨-, rfl⟩ := h
      intro f hf
      obtain ⟨n, -, hn⟩ := List.mem_flatMap.mp hf
      exact frames_tcpOutStream_empty n.2 f hn
  · intro f hf
    rw [hnil] at hf
    cases hf

theorem not_isIpv4_frameMbufs {mem : FrameMemory} {gSrcMac : List Byte} {frames : List Frame}
    (h : ∀ f ∈ frames, ∃ sip dip, f = .arpRequest sip dip) :
    ∀ m ∈ frameMbufs mem gSrcMac frames, ¬ m.IsIpv4 := by
  intro m hm
  obtain ⟨k, hk, rfl⟩ := List.mem_mapIdx.mp hm
  obtain ⟨sip, dip, hf⟩ := h _ (List.getElem_mem hk)
  rw [hf]
  exact not_isIpv4_ngSendArp _ _ _ _ sip dip

theorem Unaware.init (mac : List Byte) : Unaware (State.init mac) := ⟨rfl, nofun⟩

/-- On a network of any number of these stacks, where no stranger sends a
    frame of IPv4, no frame of IPv4 is ever sent, no hardware address learned
    and no datagram received, whatever the applications do. -/
theorem isolated_network_silent (mac : ι → List Byte) (hist : StackHistory ι)
    (n : StackNetwork ι)
    (hrun : NetRun stackMachine NoForeignIpv4 (StackNetwork.init mac) hist n) :
    (∀ i, Unaware (n.machine i)) ∧ ∀ m ∈ n.wire, ¬ m.IsIpv4 := by
  have hinit : (StackNetwork.init mac).Good Unaware fun m => ¬ m.IsIpv4 :=
    ⟨fun i => .init (mac i), fun _ hm => by cases hm⟩
  refine Network.invariant hinit ?_ ?_ (fun _ _ h => h) hrun
  · intro n i a s' r hgood _ hact
    obtain ⟨he, hact⟩ := stackMachine_act_ok hact
    obtain ⟨hstep, -, -, hsent⟩ := reportedStep_ok hact
    refine ⟨(hgood.1 i).step hstep he, ?_⟩
    show ∀ m ∈ r.sent, ¬ m.IsIpv4
    rw [hsent]
    exact not_isIpv4_frameMbufs ((hgood.1 i).frames hstep)
  · intro s x m s' r hs hm hreceive
    obtain ⟨hstep, -, -, hsent⟩ := reportedStep_ok hreceive
    -- another frame than one of IPv4 goes to the kernel interface
    have hignored : s' = s := by
      rcases pktProcess_cases hstep with ⟨hudp, -⟩ | ⟨htcp, -⟩ | ⟨-, -, -, rfl⟩
      · exact absurd hudp.1 hm
      · exact absurd htcp.1 hm
      · exact if_neg hm
    subst hignored
    refine ⟨hs, ?_⟩
    show ∀ m ∈ r.sent, ¬ m.IsIpv4
    rw [hsent]
    exact not_isIpv4_frameMbufs (hs.frames hstep)

/-- Clear memory. -/
def FrameMemory.clear : FrameMemory where
  msg := fun _ _ => 0
  heap := fun _ _ => 0

/-- An application's call or an output pass at a stack. -/
def stackCall (i : ι) (e : Event) : StackNetEvent ι := .act i (e, .clear)

/-- Of two stacks, one sends to the other, whose application waits: all that
    goes over the wire is a request for the address. -/
theorem isolated_network_silent_pair : ∃ (hist : StackHistory Bool) (n : StackNetwork Bool),
    NetRun stackMachine NoForeignIpv4 (StackNetwork.init fun _ => [2, 0, 0, 0, 0, 1]) hist n ∧
    n.wire.length = 1 ∧
    ((n.machine false).localhost 0).map (fun host => host.sndItems.length) = some 1 ∧
    (∀ i, Unaware (n.machine i)) ∧ ∀ m ∈ n.wire, ¬ m.IsIpv4 := by
  have hruns : execsTo (guardStep NoForeignIpv4 none (netStep stackMachine))
      (StackNetwork.init fun _ : Bool => [2, 0, 0, 0, 0, 1])
      [stackCall false (.nsocket .plain SOCK_DGRAM),
       stackCall true (.nsocket .plain SOCK_DGRAM),
       stackCall true (.nbind 3 0x0200000A (htons 8889)),
       stackCall false (.nsendto .plain 3 [97, 98, 99] 0x0200000A (htons 8889)),
       stackCall false (.udpOut .plain), .deliver true 0 (.plain, .clear),
       stackCall false (.udpOut .plain)]
      (fun _ n => decide (n.wire.length = 1) &&
        decide (((n.machine false).localhost 0).map (fun host => host.sndItems.length) =
          some 1)) = true := by
    decide +kernel
  obtain ⟨hist, n, hexec, hP⟩ := exec_of_execsTo hruns
  rw [Bool.and_eq_true, decide_eq_true_eq, decide_eq_true_eq] at hP
  have hrun := guarded_of_exec hexec
  obtain ⟨hunaware, hwire⟩ := isolated_network_silent _ hist n hrun
  exact ⟨hist, n, hrun, hP.1, hP.2, hunaware, hwire⟩

end LinuxLearning.Ustack
