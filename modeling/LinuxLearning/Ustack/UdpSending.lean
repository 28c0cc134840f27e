/-
  LinuxLearning.Ustack.UdpSending

  The sending side of one UDP socket, with the memory of its offloads:
  `nsendto` in the application, the turn of `udp_out` for the socket, which
  takes an offload off `sndbuf` and puts it back while the hardware address of
  its destination is not known, and `ng_arp_entry_insert`.

  `nsendto` runs on another core than the other two, so that it can come
  between any two of the three ring and table accesses of a turn.  A call of
  `nsendto` and an insertion are one step each: nobody else writes what they
  write, apart from the ring, which each of them accesses once.
-/

import LinuxLearning.Ustack.OutputOrder
import LinuxLearning.Ustack.UdpOutput

namespace LinuxLearning.Ustack

open Lib
open scoped List

/-! ## The model -/

/-- `struct offload` as it lies in memory; `data` is the pointer. -/
structure OffloadBlock where
  sip : BitVec 32
  dip : BitVec 32
  sport : BitVec 16
  dport : BitVec 16
  data : Addr
  length : BitVec 16
deriving DecidableEq, Repr

/-- Where `udp_out` is in its turn for the socket. -/
inductive UdpOutPc where
  | away
  /-- Behind `rte_ring_mc_dequeue`, with the offload it has returned. -/
  | taken (ol : Addr)
  /-- In front of the `rte_ring_mp_enqueue` that puts the offload back. -/
  | unresolved (ol : Addr)
deriving DecidableEq, Repr

/-- The offload that `udp_out` has in its hands. -/
def UdpOutPc.held : UdpOutPc → List Addr
  | away => []
  | taken ol => [ol]
  | unresolved ol => [ol]

/-- A socket, the offloads and data in memory, and the ARP table. `next` is
    the next address that `rte_malloc` gives out. -/
structure Sender where
  localip : BitVec 32
  localport : BitVec 16
  localmac : List Byte
  sndbuf : RteRing Addr
  arpt : ArpTable
  offload : Addr → Option OffloadBlock
  data : Addr → Option (List Byte)
  next : Addr
  udpOut : UdpOutPc

/-- What a step reports. -/
inductive SendOp where
  /-- `nsendto` has returned the length. -/
  | accepted (ol data : Addr)
  /-- A frame was built from the offload. -/
  | framed (ol : Addr) (frame : Frame)
  /-- An ARP request was built instead. -/
  | asked (frame : Frame)
deriving DecidableEq, Repr

/-- Why there is no step. -/
inductive SendHalt where
  /-- `udp_out` is at another place. -/
  | elsewhere
  /-- An access to memory that is not allocated. -/
  | notAllocated
  | rteExit
deriving DecidableEq, Repr

/-- The steps: a call of `nsendto`, an insertion into the ARP table, and the
    three parts of a turn of `udp_out`. -/
inductive SendEvent where
  | nsendto (env : Env) (buf : List Byte) (ip : BitVec 32) (port : BitVec 16)
  | arpInsert (env : Env) (ip : BitVec 32) (mac : List Byte)
  | dequeue
  | transmit (env : Env)
  | requeue

namespace Sender

/-- `nsendto` on the socket.  `rte_malloc` of no bytes fails, and whether the
    ring has taken the offload is not looked at. -/
def nsendto (s : Sender) (env : Env) (buf : List Byte) (ip : BitVec 32) (port : BitVec 16) :
    Sender × List SendOp :=
  if env.malloc .sendtoOffload = false then (s, [])
  else
    let ol := s.next
    let s := { s with next := s.next + 1 }
    if env.malloc .sendtoData = false ∨ buf.length = 0 then
      -- the offload is freed again
      ({ s with offload := Function.update s.offload ol none }, [])
    else
      let d := s.next
      let block : OffloadBlock :=
        { sip := s.localip, dip := ip, sport := s.localport, dport := port, data := d,
          length := BitVec.ofNat 16 buf.length }
      ({ s with
          next := s.next + 1
          offload := Function.update s.offload ol (some block)
          data := Function.update s.data d (some buf)
          sndbuf := (s.sndbuf.mpEnqueue ol).1 },
        [.accepted ol d])

/-- The offload at an address, with its data. -/
def offloadAt (s : Sender) (ol : Addr) : Option Offload := do
  let b ← s.offload ol
  let data ← s.data b.data
  return { sip := b.sip, dip := b.dip, sport := b.sport, dport := b.dport, data := data,
           length := b.length }

end Sender

/-- One step. -/
def sendStep (s : Sender) : SendEvent → Except SendHalt (Sender × List SendOp)
  | .nsendto env buf ip port => .ok (s.nsendto env buf ip port)
  | .arpInsert env ip mac => .ok ({ s with arpt := (s.arpt.ngArpEntryInsert env ip mac).1 }, [])
  | .dequeue =>
      match s.udpOut with
      | .away =>
          match s.sndbuf.mcDequeue with
          | none => .ok (s, [])
          | some (ol, r) => .ok ({ s with sndbuf := r, udpOut := .taken ol }, [])
      | _ => .error .elsewhere
  | .transmit env =>
      match s.udpOut with
      | .taken ol =>
          match s.offloadAt ol with
          | none => .error .notAllocated
          | some o =>
              if env.malloc .mbuf = false then .error .rteExit
              else
                match s.arpt.ngGetDstMacaddr o.dip with
                | none =>
                    .ok ({ s with udpOut := .unresolved ol }, [.asked (.arpRequest o.sip o.dip)])
                -- neither the offload nor its data is freed
                | some dstmac =>
                    .ok ({ s with udpOut := .away }, [.framed ol (.udp s.localmac dstmac o)])
      | _ => .error .elsewhere
  | .requeue =>
      match s.udpOut with
      | .unresolved ol => .ok ({ s with sndbuf := (s.sndbuf.mpEnqueue ol).1, udpOut := .away }, [])
      | _ => .error .elsewhere

/-- The steps of a run. -/
abbrev SendStep : StepRel Sender SendEvent (List SendOp) := StepsOf sendStep

/-- The history of a run. -/
abbrev SendHistory := List (SendEvent × List SendOp)

/-! ## What is asked of it -/

/-- The offloads that `nsendto` has accepted, with their data, in order. -/
def acceptedOps (hist : SendHistory) : List (Addr × Addr) :=
  hist.flatMap fun en => en.2.filterMap fun
    | .accepted ol d => some (ol, d)
    | _ => none

/-- The offloads that frames were built from, in order. -/
def framedOps (hist : SendHistory) : List (Addr × Frame) :=
  hist.flatMap fun en => en.2.filterMap fun
    | .framed ol frame => some (ol, frame)
    | _ => none

/-- The offload in the hands of `udp_out` and those on `sndbuf`. -/
def Sender.pending (s : Sender) : List Addr := s.udpOut.held ++ s.sndbuf.items

/-- The offload is on `sndbuf` once, or on its way back to it in the hands of
    `udp_out`, or has become one frame and is freed with its data. -/
def OffloadKept (hist : SendHistory) (s : Sender) (ol d : Addr) : Prop :=
  s.pending.count ol = 1 ∧ ((framedOps hist).map Prod.fst).count ol = 0 ∨
  s.pending.count ol = 0 ∧ ((framedOps hist).map Prod.fst).count ol = 1 ∧
    s.offload ol = none ∧ s.data d = none

/-- The address a frame goes to. -/
def Frame.dst : Frame → BitVec 32
  | arpRequest _ dip => dip
  | tcp _ dip _ _ _ => dip
  | udp _ _ ol => ol.dip

/-- Every accepted offload is kept, and the frames to one destination are
    built in the order in which their offloads were accepted. -/
structure Conserved (hist : SendHistory) (s : Sender) : Prop where
  kept : ∀ p ∈ acceptedOps hist, OffloadKept hist s p.1 p.2
  ordered : ∀ dip, (((framedOps hist).filter fun p => p.2.dst = dip).map Prod.fst).Sublist
    ((acceptedOps hist).map Prod.fst)

/-- A socket that was just opened. -/
structure Sender.Idle (s : Sender) : Prop where
  sndbuf : s.sndbuf.items = []
  udpOut : s.udpOut = .away

/-- The ring has room for what is put on it. -/
def Roomy (s : Sender) : SendEvent → Prop
  | .nsendto env buf _ _ =>
      env.malloc .sendtoOffload = true → env.malloc .sendtoData = true → buf.length ≠ 0 →
        s.sndbuf.HasRoom
  | .requeue => s.sndbuf.HasRoom
  | _ => True

/-- No destination is resolved when `udp_out` looks it up. -/
def Unresolved (s : Sender) : SendEvent → Prop
  | .transmit _ => ∀ ol ∈ s.udpOut.held, ∀ o ∈ s.offloadAt ol, ¬ s.arpt.Knows o.dip
  | _ => True

/-- Nothing that is put on the ring is refused, and no frame is built. -/
def Harmless (s : Sender) (e : SendEvent) : Prop := Roomy s e ∧ Unresolved s e

/-! ## What a step does -/

variable {s s' s₀ : Sender} {e : SendEvent} {o : List SendOp} {hist : SendHistory}

@[simp] theorem acceptedOps_nil : acceptedOps [] = [] := rfl

@[simp] theorem framedOps_nil : framedOps [] = [] := rfl

@[simp] theorem acceptedOps_snoc (hist : SendHistory) (en : SendEvent × List SendOp) :
    acceptedOps (hist ++ [en]) = acceptedOps hist ++ acceptedOps [en] :=
  List.flatMap_append ..

@[simp] theorem framedOps_snoc (hist : SendHistory) (en : SendEvent × List SendOp) :
    framedOps (hist ++ [en]) = framedOps hist ++ framedOps [en] :=
  List.flatMap_append ..

/-- What `s'` still has of `s`: the memory below `next`. -/
structure Grows (s s' : Sender) : Prop where
  next : s.next ≤ s'.next
  offload : ∀ a < s.next, s'.offload a = s.offload a
  data : ∀ a < s.next, s'.data a = s.data a

theorem Grows.of_eq (hnext : s'.next = s.next) (hoffload : s'.offload = s.offload)
    (hdata : s'.data = s.data) : Grows s s' where
  next := Nat.le_of_eq hnext.symm
  offload _ _ := by rw [hoffload]
  data _ _ := by rw [hdata]

/-- The offloads that a step accepts, puts on the ring, loses there or makes
    a frame of. -/
inductive SendChange (s s' : Sender) (e : SendEvent) : List SendOp → Prop
  | kept {o : List SendOp} (hharmless : Harmless s e) (haccepted : acceptedOps [(e, o)] = [])
      (hframed : framedOps [(e, o)] = []) (hpending : s'.pending = s.pending) :
      SendChange s s' e o
  | accepted {b : OffloadBlock} {bytes : List Byte} (hnext : s'.next = s.next + 2)
      (hoffload : s'.offload s.next = some b) (hb : b.data = s.next + 1)
      (hdata : s'.data b.data = some bytes)
      (hpending : Harmless s e ∧ s'.pending = s.pending ++ [s.next] ∨
        ¬ Roomy s e ∧ s'.pending = s.pending) :
      SendChange s s' e [.accepted s.next (s.next + 1)]
  | framed {ol : Addr} {frame : Frame} (hroomy : Roomy s e) (hresolved : ¬ Unresolved s e)
      (hpending : s.pending = ol :: s'.pending) : SendChange s s' e [.framed ol frame]
  | requeued {b : Addr} {l : List Addr} (he : e = .requeue) (hpending : s.pending = b :: l)
      (hpending' : Harmless s e ∧ s'.pending = l ++ [b] ∨ ¬ Roomy s e ∧ s'.pending = l) :
      SendChange s s' e []

theorem nsendto_change (s : Sender) (env : Env) (buf : List Byte) (ip : BitVec 32)
    (port : BitVec 16) :
    Grows s (s.nsendto env buf ip port).1 ∧
      SendChange s (s.nsendto env buf ip port).1 (.nsendto env buf ip port)
        (s.nsendto env buf ip port).2 := by
  unfold Sender.nsendto
  split
  next hol =>
    refine ⟨.of_eq rfl rfl rfl, .kept ⟨fun h => ?_, trivial⟩ rfl rfl rfl⟩
    rw [hol] at h
    cases h
  next hol =>
    split
    next hdata =>
      refine ⟨⟨Nat.le_succ _, fun a ha => Function.update_of_ne (Nat.ne_of_lt ha) ..,
        fun _ _ => rfl⟩, .kept ⟨fun _ h hlen => ?_, trivial⟩ rfl rfl rfl⟩
      rcases hdata with hdata | hdata
      · rw [hdata] at h
        cases h
      · exact absurd hdata hlen
    next hdata =>
      obtain ⟨hdata, hlen⟩ := not_or.mp hdata
      constructor
      · exact ⟨Nat.le_add_right _ 2, fun a ha => Function.update_of_ne (Nat.ne_of_lt ha) ..,
          fun a ha => Function.update_of_ne (Nat.ne_of_lt (Nat.lt_succ_of_lt ha)) ..⟩
      · refine .accepted rfl (Function.update_self ..) rfl (Function.update_self ..) ?_
        by_cases hroom : s.sndbuf.HasRoom
        · refine .inl ⟨⟨fun _ _ _ => hroom, trivial⟩, ?_⟩
          simp only [Sender.pending, (RteRing.mpEnqueue_of_hasRoom hroom).1, List.append_assoc]
        · refine .inr ⟨fun h => ?_, ?_⟩
          · exact hroom (h (by simpa using hol) (by simpa using hdata) hlen)
          · simp only [Sender.pending, RteRing.mpEnqueue_of_full hroom]

theorem sendStep_change (h : sendStep s e = .ok (s', o)) :
    Grows s s' ∧ SendChange s s' e o := by
  cases e with
  | nsendto env buf ip port =>
      obtain ⟨rfl, rfl⟩ : (s.nsendto env buf ip port).1 = s' ∧
          (s.nsendto env buf ip port).2 = o := by
        simpa [sendStep, Prod.ext_iff] using h
      exact nsendto_change s env buf ip port
  | arpInsert env ip mac =>
      obtain ⟨rfl, rfl⟩ : _ = s' ∧ [] = o := by simpa [sendStep] using h
      exact ⟨.of_eq rfl rfl rfl, .kept ⟨trivial, trivial⟩ rfl rfl rfl⟩
  | dequeue =>
      cases hpc : s.udpOut with
      | taken | unresolved => simp [sendStep, hpc] at h
      | away =>
          cases hget : s.sndbuf.mcDequeue with
          | none =>
              obtain ⟨rfl, rfl⟩ : s = s' ∧ [] = o := by simpa [sendStep, hpc, hget] using h
              exact ⟨.of_eq rfl rfl rfl, .kept ⟨trivial, trivial⟩ rfl rfl rfl⟩
          | some p =>
              obtain ⟨rfl, rfl⟩ : _ = s' ∧ [] = o := by simpa [sendStep, hpc, hget] using h
              refine ⟨.of_eq rfl rfl rfl, .kept ⟨trivial, trivial⟩ rfl rfl ?_⟩
              simp [Sender.pending, UdpOutPc.held, hpc, (RteRing.mcDequeue_eq_some hget).1]
  | transmit env =>
      cases hpc : s.udpOut with
      | away | unresolved => simp [sendStep, hpc] at h
      | taken ol =>
          cases hol : s.offloadAt ol with
          | none => simp [sendStep, hpc, hol] at h
          | some off =>
              cases hmalloc : env.malloc .mbuf with
              | false => simp [sendStep, hpc, hol, hmalloc] at h
              | true =>
                  cases hmac : s.arpt.ngGetDstMacaddr off.dip with
                  | none =>
                      obtain ⟨rfl, rfl⟩ : _ = s' ∧
                          [SendOp.asked (.arpRequest off.sip off.dip)] = o := by
                        simpa [sendStep, hpc, hol, hmalloc, hmac] using h
                      refine ⟨.of_eq rfl rfl rfl, .kept ⟨trivial, ?_⟩ rfl rfl ?_⟩
                      · simp [Unresolved, UdpOutPc.held, hpc, hol, ArpTable.Knows, hmac]
                      · simp [Sender.pending, UdpOutPc.held, hpc]
                  | some dstmac =>
                      obtain ⟨rfl, rfl⟩ : _ = s' ∧
                          [SendOp.framed ol (.udp s.localmac dstmac off)] = o := by
                        simpa [sendStep, hpc, hol, hmalloc, hmac] using h
                      refine ⟨.of_eq rfl rfl rfl, .framed trivial ?_ ?_⟩
                      · simp [Unresolved, UdpOutPc.held, hpc, hol, ArpTable.Knows, hmac]
                      · simp [Sender.pending, UdpOutPc.held, hpc]
  | requeue =>
      cases hpc : s.udpOut with
      | away | taken => simp [sendStep, hpc] at h
      | unresolved ol =>
          obtain ⟨rfl, rfl⟩ : _ = s' ∧ [] = o := by simpa [sendStep, hpc] using h
          refine ⟨.of_eq rfl rfl rfl, .requeued (b := ol) (l := s.sndbuf.items) rfl ?_ ?_⟩
          · simp [Sender.pending, UdpOutPc.held, hpc]
          · by_cases hroom : s.sndbuf.HasRoom
            · refine .inl ⟨⟨hroom, trivial⟩, ?_⟩
              simp [Sender.pending, UdpOutPc.held, (RteRing.mpEnqueue_of_hasRoom hroom).1]
            · refine .inr ⟨hroom, ?_⟩
              simp [Sender.pending, UdpOutPc.held, RteRing.mpEnqueue_of_full hroom]

/-! ## The memory of the offloads -/

/-- What the accepted offloads are in memory, whether or not the ring had
    room for them: `nsendto` made them, and nothing was freed since. -/
structure Allocated (hist : SendHistory) (s : Sender) : Prop where
  nodup : ((acceptedOps hist).map Prod.fst).Nodup
  fresh : ∀ p ∈ acceptedOps hist, p.1 < s.next ∧ p.2 < s.next
  live : ∀ p ∈ acceptedOps hist, ∃ b bytes, s.offload p.1 = some b ∧ b.data = p.2 ∧
    s.data p.2 = some bytes
  pending : ∀ ol ∈ s.pending, ol ∈ (acceptedOps hist).map Prod.fst

theorem allocated_idle (h : s.Idle) : Allocated [] s where
  nodup := List.nodup_nil
  fresh := by simp
  live := by simp
  pending := by simp [Sender.pending, h.sndbuf, h.udpOut, UdpOutPc.held]

theorem Allocated.fresh_fst (h : Allocated hist s) {ol : Addr}
    (hol : ol ∈ (acceptedOps hist).map Prod.fst) : ol < s.next := by
  obtain ⟨p, hp, rfl⟩ := List.mem_map.mp hol
  exact (h.fresh p hp).1

/-- The next offload is none of those that are under way. -/
theorem Allocated.next_notMem (h : Allocated hist s) : s.next ∉ s.pending := fun hmem =>
  Nat.lt_irrefl _ (h.fresh_fst (h.pending _ hmem))

/-- Nothing that was accepted moves in memory. -/
theorem Allocated.grow (h : Allocated hist s) (hgrows : Grows s s') :
    ∀ p ∈ acceptedOps hist, (p.1 < s'.next ∧ p.2 < s'.next) ∧
      ∃ b bytes, s'.offload p.1 = some b ∧ b.data = p.2 ∧ s'.data p.2 = some bytes := by
  intro p hp
  obtain ⟨hol, hd⟩ := h.fresh p hp
  rw [hgrows.offload _ hol, hgrows.data _ hd]
  exact ⟨⟨Nat.lt_of_lt_of_le hol hgrows.next, Nat.lt_of_lt_of_le hd hgrows.next⟩, h.live p hp⟩

/-- A step that accepts nothing. -/
theorem Allocated.keep (h : Allocated hist s) (hgrows : Grows s s')
    (haccepted : acceptedOps [(e, o)] = []) (hpending : s'.pending ⊆ s.pending) :
    Allocated (hist ++ [(e, o)]) s' := by
  have hold := h.grow hgrows
  constructor <;> rw [acceptedOps_snoc, haccepted, List.append_nil]
  · exact h.nodup
  · exact fun p hp => (hold p hp).1
  · exact fun p hp => (hold p hp).2
  · exact fun ol hol => h.pending ol (hpending hol)

theorem Allocated.step (h : Allocated hist s) (hstep : sendStep s e = .ok (s', o)) :
    Allocated (hist ++ [(e, o)]) s' := by
  obtain ⟨hgrows, hchange⟩ := sendStep_change hstep
  cases hchange with
  | kept _ haccepted _ hpending => exact h.keep hgrows haccepted (hpending ▸ List.Subset.refl _)
  | framed _ _ hpending =>
      exact h.keep hgrows rfl (hpending ▸ List.subset_cons_self ..)
  | @requeued ol rest _ hpending hpending' =>
      refine h.keep hgrows rfl (hpending ▸ ?_)
      rcases hpending' with ⟨-, heq⟩ | ⟨-, heq⟩
      · rw [heq]
        exact (List.perm_append_singleton ..).subset
      · rw [heq]
        exact List.subset_cons_self ..
  | @accepted b bytes hnext hoffload hb hdata hpending =>
      have hold := h.grow hgrows
      have haccepted : acceptedOps (hist ++ [(e, [.accepted s.next (s.next + 1)])]) =
          acceptedOps hist ++ [(s.next, s.next + 1)] := acceptedOps_snoc ..
      constructor <;> rw [haccepted]
      · rw [List.map_append, List.nodup_append]
        refine ⟨h.nodup, List.nodup_singleton _, fun ol hol x hx => ?_⟩
        obtain rfl : x = s.next := by simpa using hx
        exact Nat.ne_of_lt (h.fresh_fst hol)
      · intro p hp
        rcases List.mem_append.mp hp with hp | hp
        · exact (hold p hp).1
        · obtain rfl : p = (s.next, s.next + 1) := by simpa using hp
          rw [hnext]
          exact ⟨Nat.lt_add_of_pos_right Nat.two_pos, Nat.lt_succ_self _⟩
      · intro p hp
        rcases List.mem_append.mp hp with hp | hp
        · exact (hold p hp).2
        · obtain rfl : p = (s.next, s.next + 1) := by simpa using hp
          exact ⟨b, bytes, hoffload, hb, hb ▸ hdata⟩
      · intro ol hol
        have hmem : ol ∈ s.pending ++ [s.next] := by
          rcases hpending with ⟨-, heq⟩ | ⟨-, heq⟩
          · exact heq ▸ hol
          · exact List.mem_append_left _ (heq ▸ hol)
        rw [List.map_append, List.mem_append]
        exact (List.mem_append.mp hmem).imp_left (h.pending ol)

/-- Every accepted offload stays allocated, with its data, for the whole run:
    a frame is built from it and neither is given back. -/
theorem allocated_run (hidle : s₀.Idle) (hrun : Run SendStep s₀ hist s) : Allocated hist s :=
  hrun.invariant (P := Allocated) (allocated_idle hidle) fun _ _ _ _ _ h => h.step

/-- `udp_out` reads no memory that is not allocated. -/
theorem offloadAt_taken (h : Allocated hist s) {ol : Addr} (hpc : s.udpOut = .taken ol) :
    s.offloadAt ol ≠ none := by
  have hmem : ol ∈ s.pending := by simp [Sender.pending, hpc, UdpOutPc.held]
  obtain ⟨p, hp, rfl⟩ := List.mem_map.mp (h.pending ol hmem)
  obtain ⟨b, bytes, hb, hd, hbytes⟩ := h.live p hp
  simp [Sender.offloadAt, hb, hd, hbytes]

/-! ## Where the offloads are -/

/-- The accepted offloads are those under way and those that frames were
    built from: none is lost, none is there twice. -/
structure Tracked (hist : SendHistory) (s : Sender) : Prop where
  allocated : Allocated hist s
  perm : ((acceptedOps hist).map Prod.fst).Perm (s.pending ++ (framedOps hist).map Prod.fst)

theorem Tracked.step (h : Tracked hist s) (hroomy : Roomy s e)
    (hstep : sendStep s e = .ok (s', o)) : Tracked (hist ++ [(e, o)]) s' := by
  refine ⟨h.allocated.step hstep, ?_⟩
  rw [acceptedOps_snoc, framedOps_snoc, List.map_append, List.map_append]
  cases (sendStep_change hstep).2 with
  | kept _ haccepted hframed hpending =>
      rw [haccepted, hframed, hpending]
      simpa using h.perm
  | accepted _ _ _ _ hpending =>
      rcases hpending with ⟨-, hpending⟩ | ⟨hfull, -⟩
      · calc (acceptedOps hist).map Prod.fst ++ [s.next]
          _ ~ s.pending ++ (framedOps hist).map Prod.fst ++ [s.next] := h.perm.append_right _
          _ = s.pending ++ ((framedOps hist).map Prod.fst ++ [s.next]) := List.append_assoc ..
          _ ~ s.pending ++ ([s.next] ++ (framedOps hist).map Prod.fst) :=
              List.perm_append_comm.append_left _
          _ = s'.pending ++ ((framedOps hist).map Prod.fst ++ []) := by simp [hpending]
      · exact absurd hroomy hfull
  | @framed ol frame _ _ hpending =>
      calc (acceptedOps hist).map Prod.fst ++ []
        _ = (acceptedOps hist).map Prod.fst := List.append_nil _
        _ ~ ol :: s'.pending ++ (framedOps hist).map Prod.fst := hpending ▸ h.perm
        _ ~ s'.pending ++ (framedOps hist).map Prod.fst ++ [ol] :=
            (List.perm_append_singleton ..).symm
        _ = s'.pending ++ ((framedOps hist).map Prod.fst ++ [ol]) := List.append_assoc ..
  | @requeued ol rest _ hpending hpending' =>
      rcases hpending' with ⟨-, hpending'⟩ | ⟨hfull, -⟩
      · have hmoved : s.pending ~ s'.pending := by
          rw [hpending, hpending']
          exact (List.perm_append_singleton ..).symm
        simpa [acceptedOps, framedOps] using h.perm.trans (hmoved.append_right _)
      · exact absurd hroomy hfull

/-- While the ring has room, no datagram is lost or doubled, whatever the ARP
    table holds and in whatever order the steps come. -/
theorem tracked_run (hidle : s₀.Idle) (hrun : Run (Guarded Roomy SendStep) s₀ hist s) :
    Tracked hist s := by
  refine hrun.invariant (P := Tracked) ⟨allocated_idle hidle, ?_⟩ ?_
  · simp [Sender.pending, hidle.sndbuf, hidle.udpOut, UdpOutPc.held]
  · intro hist s e o s' h hstep
    exact h.step hstep.1 hstep.2

/-! ## The order of the frames -/

/-- `udp_out` never puts an offload back. -/
def NotRequeue (_ : Sender) (e : SendEvent) : Prop := e ≠ .requeue

theorem in_order_step (h : ((framedOps hist).map Prod.fst ++ s.pending).Sublist
      ((acceptedOps hist).map Prod.fst))
    (he : e ≠ .requeue) (hstep : sendStep s e = .ok (s', o)) :
    ((framedOps (hist ++ [(e, o)])).map Prod.fst ++ s'.pending).Sublist
      ((acceptedOps (hist ++ [(e, o)])).map Prod.fst) := by
  rw [acceptedOps_snoc, framedOps_snoc, List.map_append, List.map_append]
  cases (sendStep_change hstep).2 with
  | kept _ haccepted hframed hpending =>
      rw [haccepted, hframed, hpending]
      simpa using h
  | accepted _ _ _ _ hpending =>
      rcases hpending with ⟨-, hpending⟩ | ⟨-, hpending⟩
      · simpa [framedOps, acceptedOps, hpending] using h.append (.refl [s.next])
      · simpa [framedOps, acceptedOps, hpending] using h.append (List.nil_sublist [s.next])
  | framed _ _ hpending =>
      rw [hpending] at h
      simpa [framedOps, acceptedOps] using h
  | requeued hrequeue => exact absurd hrequeue he

/-- As long as no offload is put back, the frames are built in the order of
    the calls of `nsendto`, and what is under way follows in the same order. -/
theorem in_order_run (hidle : s₀.Idle) (hrun : Run (Guarded NotRequeue SendStep) s₀ hist s) :
    ((framedOps hist).map Prod.fst ++ s.pending).Sublist ((acceptedOps hist).map Prod.fst) := by
  refine hrun.invariant (P := fun hist s => ((framedOps hist).map Prod.fst ++ s.pending).Sublist
    ((acceptedOps hist).map Prod.fst)) ?_ ?_
  · simp [Sender.pending, hidle.sndbuf, hidle.udpOut, UdpOutPc.held]
  · intro hist s e o s' h hstep
    exact in_order_step h hstep.1 hstep.2

/-- A socket on port 8889 of 10.0.0.1, with nothing in memory. -/
def openedSender (arpt : ArpTable) : Sender where
  localip := 0x0100000A
  localport := htons 8889
  localmac := [2, 0, 0, 0, 0, 1]
  sndbuf := .init "send buffer".toList
  arpt := arpt
  offload := fun _ => none
  data := fun _ => none
  next := 0
  udpOut := .away

theorem openedSender_idle (arpt : ArpTable) : (openedSender arpt).Idle := ⟨rfl, rfl⟩

/-- A datagram of one byte to port 40000 of 10.0.0.2. -/
def sendByte (b : Byte) : SendEvent := .nsendto .plain [b] 0x0200000A (htons 40000)

/-- The address of 10.0.0.2 becomes known. -/
def learnPeer : SendEvent := .arpInsert .plain 0x0200000A [2, 0, 0, 0, 0, 2]

/-- Two datagrams, the first of them put back before the address of their
    destination becomes known. -/
theorem requeue_overtaken : ∃ hist s, Run SendStep (openedSender .empty) hist s ∧
    (acceptedOps hist).map Prod.fst = [0, 2] ∧ (framedOps hist).map Prod.fst = [2, 0] := by
  have hexec : execsTo sendStep (openedSender .empty)
      [sendByte 1, sendByte 2, .dequeue, .transmit .plain, .requeue, learnPeer,
        .dequeue, .transmit .plain, .dequeue, .transmit .plain]
      (fun hist _ => (acceptedOps hist).map Prod.fst = [0, 2] ∧
        (framedOps hist).map Prod.fst = [2, 0]) = true := by decide +kernel
  obtain ⟨hist, s, hrun, hP⟩ := exec_of_execsTo hexec
  exact ⟨hist, s, run_of_exec hrun, of_decide_eq_true hP⟩

/-! ## When the datagrams are conserved -/

/-- A tracked socket that has built no frame has every accepted offload under
    way. -/
theorem Tracked.conserved (h : Tracked hist s) (hframed : framedOps hist = []) :
    Conserved hist s := by
  constructor
  · intro p hp
    refine .inl ⟨?_, by rw [hframed]; rfl⟩
    have hperm : ((acceptedOps hist).map Prod.fst).Perm s.pending := by
      simpa [hframed] using h.perm
    rw [← hperm.count_eq]
    exact List.count_eq_one_of_mem h.allocated.nodup (List.mem_map_of_mem hp)
  · intro dip
    rw [hframed]
    exact List.nil_sublist _

/-- What a harmless step leaves behind. -/
theorem Tracked.step_of_harmless (h : Tracked hist s) (hframed : framedOps hist = [])
    (hharmless : Harmless s e) (hstep : sendStep s e = .ok (s', o)) :
    Tracked (hist ++ [(e, o)]) s' ∧ framedOps (hist ++ [(e, o)]) = [] := by
  refine ⟨h.step hharmless.1 hstep, ?_⟩
  rw [framedOps_snoc, hframed, List.nil_append]
  cases (sendStep_change hstep).2 with
  | kept _ _ h _ => exact h
  | accepted => rfl
  | framed _ hresolved => exact absurd hharmless.2 hresolved
  | requeued => rfl

/-- An accepted offload that is neither under way nor a frame is lost. -/
theorem Conserved.mem_pending (h : Conserved hist s) (hframed : framedOps hist = []) {ol : Addr}
    (hol : ol ∈ (acceptedOps hist).map Prod.fst) : ol ∈ s.pending := by
  obtain ⟨p, hp, rfl⟩ := List.mem_map.mp hol
  rcases h.kept p hp with ⟨hcount, -⟩ | ⟨-, hcount, -⟩
  · exact List.count_pos_iff.mp (hcount ▸ Nat.one_pos)
  · rw [hframed] at hcount
    cases hcount

/-- A step that is not harmless loses an offload, or leaves one allocated
    that has become a frame. -/
theorem Tracked.not_conserved (h : Tracked hist s) (hframed : framedOps hist = [])
    (hharm : ¬ Harmless s e) (hstep : sendStep s e = .ok (s', o)) :
    ¬ Conserved (hist ++ [(e, o)]) s' := by
  intro hconserved
  have hperm : (acceptedOps hist).map Prod.fst ~ s.pending := by
    simpa [hframed] using h.perm
  have hallocated := h.allocated.step hstep
  have hold {ol : Addr} (hol : ol ∈ s.pending) :
      ol ∈ (acceptedOps (hist ++ [(e, o)])).map Prod.fst := by
    rw [acceptedOps_snoc, List.map_append]
    exact List.mem_append_left _ (hperm.mem_iff.mpr hol)
  cases (sendStep_change hstep).2 with
  | kept hharmless => exact hharm hharmless
  | accepted _ _ _ _ hpending =>
      rcases hpending with ⟨hharmless, -⟩ | ⟨-, hpending⟩
      · exact hharm hharmless
      · -- the ring was full, and the new offload is not on it
        have hnew : s.next ∈ s'.pending := by
          refine hconserved.mem_pending ?_ ?_
          · rw [framedOps_snoc, hframed]
            rfl
          · rw [acceptedOps_snoc, List.map_append]
            exact List.mem_append_right _ (List.mem_singleton_self _)
        exact h.allocated.next_notMem (hpending ▸ hnew)
  | @framed ol frame _ _ hpending =>
      -- the frame is built, and the offload is still allocated
      obtain ⟨p, hp, rfl⟩ := List.mem_map.mp (hold (hpending ▸ List.mem_cons_self ..))
      obtain ⟨b, bytes, hb, -, -⟩ := hallocated.live p hp
      rcases hconserved.kept p hp with ⟨-, hcount⟩ | ⟨-, -, hfreed, -⟩
      · rw [framedOps_snoc, hframed] at hcount
        simp [framedOps] at hcount
      · rw [hb] at hfreed
        cases hfreed
  | @requeued ol rest _ hpending hpending' =>
      rcases hpending' with ⟨hharmless, -⟩ | ⟨-, hpending'⟩
      · exact hharm hharmless
      · -- the ring was full, and the offload is gone from it
        have hback : ol ∈ rest := by
          rw [← hpending']
          refine hconserved.mem_pending ?_ (hold (hpending ▸ List.mem_cons_self ..))
          rw [framedOps_snoc, hframed]
          rfl
        have hnodup : (ol :: rest).Nodup := by
          rw [← hpending, ← hperm.nodup_iff]
          exact h.allocated.nodup
        exact (List.nodup_cons.mp hnodup).1 hback

/-- The history of a run in which nothing goes wrong. -/
theorem tracked_of_harmless (hidle : s₀.Idle) (hrun : Run (Guarded Harmless SendStep) s₀ hist s) :
    Tracked hist s ∧ framedOps hist = [] := by
  refine hrun.invariant (P := fun hist s => Tracked hist s ∧ framedOps hist = []) ?_ ?_
  · exact ⟨tracked_run hidle .start, rfl⟩
  · intro hist s e o s' h hstep
    exact h.1.step_of_harmless h.2 hstep.1 hstep.2

/-- The datagrams of a socket are conserved and in order at every moment of a
    run exactly if the ring has room whenever something is put on it and no
    destination is resolved when `udp_out` looks it up: with the first frame
    an offload stays allocated for good. -/
theorem sending_conserved_iff (hidle : s₀.Idle) (hrun : Run SendStep s₀ hist s) :
    (∀ past t, past <+: hist → Run SendStep s₀ past t → Conserved past t) ↔
      Run (Guarded Harmless SendStep) s₀ hist s := by
  constructor
  · intro h
    induction hrun with
    | start => exact .start
    | @step hist s e o s' hpre hstep ih =>
        have hguarded := ih fun past t hpast => h past t (hpast.trans (List.prefix_append ..))
        obtain ⟨htracked, hframed⟩ := tracked_of_harmless hidle hguarded
        refine hguarded.step ⟨?_, hstep⟩
        by_contra hharm
        exact htracked.not_conserved hframed hharm hstep
          (h _ _ (List.prefix_refl _) (hpre.step hstep))
  · rintro hguarded past t ⟨rest, rfl⟩ hpast
    obtain ⟨t', hprefix⟩ := hguarded.of_append
    obtain rfl := hpast.deterministic hprefix.of_guarded
    obtain ⟨htracked, hframed⟩ := tracked_of_harmless hidle hprefix
    exact htracked.conserved hframed

instance (s : Sender) (e : SendEvent) : Decidable (Roomy s e) :=
  match e with
  | .nsendto env buf _ _ => inferInstanceAs (Decidable (env.malloc .sendtoOffload = true →
      env.malloc .sendtoData = true → buf.length ≠ 0 → s.sndbuf.HasRoom))
  | .requeue => inferInstanceAs (Decidable s.sndbuf.HasRoom)
  | .arpInsert .. | .dequeue | .transmit _ => .isTrue trivial

instance (s : Sender) (e : SendEvent) : Decidable (Unresolved s e) :=
  match e with
  | .transmit _ => inferInstanceAs
      (Decidable (∀ ol ∈ s.udpOut.held, ∀ o ∈ s.offloadAt ol, ¬ s.arpt.Knows o.dip))
  | .nsendto .. | .arpInsert .. | .dequeue | .requeue => .isTrue trivial

instance (s : Sender) (e : SendEvent) : Decidable (Harmless s e) :=
  inferInstanceAs (Decidable (_ ∧ _))

instance (hist : SendHistory) (s : Sender) (ol d : Addr) : Decidable (OffloadKept hist s ol d) :=
  inferInstanceAs (Decidable (_ ∨ _))

/-- A datagram to an address that stays unknown comes back to the ring. -/
theorem sending_conserved_iff_unknown : ∃ hist s, Run SendStep (openedSender .empty) hist s ∧
    acceptedOps hist = [(0, 1)] ∧ s.sndbuf.items = [0] ∧
    ∀ past t, past <+: hist → Run SendStep (openedSender .empty) past t → Conserved past t := by
  have hexec : execsTo (guardStep Harmless .elsewhere sendStep) (openedSender .empty)
      [sendByte 1, .dequeue, .transmit .plain, .requeue]
      (fun hist s => acceptedOps hist = [(0, 1)] ∧ s.sndbuf.items = [0]) = true := by
    decide +kernel
  obtain ⟨hist, s, hrun, hP⟩ := exec_of_execsTo hexec
  have hguarded : Run (Guarded Harmless SendStep) (openedSender .empty) hist s :=
    guarded_of_exec hrun
  obtain ⟨haccepted, hitems⟩ := of_decide_eq_true hP
  exact ⟨hist, s, hguarded.of_guarded, haccepted, hitems,
    (sending_conserved_iff (openedSender_idle _) hguarded.of_guarded).mpr hguarded⟩

/-- A datagram to an address that is known: the frame is built, and the
    offload is neither on the ring nor freed. -/
theorem sent_offload_leaked : ∃ hist s, Run SendStep (openedSender .empty) hist s ∧
    (framedOps hist).map Prod.fst = [0] ∧ ¬ Conserved hist s := by
  have hexec : execsTo sendStep (openedSender .empty)
      [learnPeer, sendByte 1, .dequeue, .transmit .plain]
      (fun hist s => (framedOps hist).map Prod.fst = [0] ∧
        ∃ p ∈ acceptedOps hist, ¬ OffloadKept hist s p.1 p.2) = true := by decide +kernel
  obtain ⟨hist, s, hrun, hP⟩ := exec_of_execsTo hexec
  obtain ⟨hframed, p, hp, hlost⟩ := of_decide_eq_true hP
  exact ⟨hist, s, run_of_exec hrun, hframed, fun h => hlost (h.kept p hp)⟩

/-! ## The turn of `udp_out` as one step -/

/-- The socket as the rest of the stack has it, with the offloads themselves
    on the ring in place of their addresses. -/
structure Represents (s : Sender) (arpt : ArpTable) (host : Localhost) : Prop where
  localip : s.localip = host.localip
  localport : s.localport = host.localport
  localmac : s.localmac = host.localmac
  arpt : s.arpt = arpt
  udpOut : s.udpOut = .away
  sndbuf : ∃ r, host.sndbuf = some r ∧ s.sndbuf.map s.offloadAt = r.map some

/-- An offload that is under way is the same after a step. -/
theorem Allocated.offloadAt_eq (h : Allocated hist s) (hgrows : Grows s s') {ol : Addr}
    (hol : ol ∈ s.pending) : s'.offloadAt ol = s.offloadAt ol := by
  obtain ⟨p, hp, rfl⟩ := List.mem_map.mp (h.pending ol hol)
  obtain ⟨b, bytes, hb, hd, hbytes⟩ := h.live p hp
  obtain ⟨hol, hdata⟩ := h.fresh p hp
  simp [Sender.offloadAt, hgrows.offload _ hol, hb, hd, hgrows.data _ hdata]

theorem Allocated.map_sndbuf (h : Allocated hist s) (hgrows : Grows s s') :
    s.sndbuf.map s'.offloadAt = s.sndbuf.map s.offloadAt :=
  RteRing.map_congr fun _ hol => h.offloadAt_eq hgrows (List.mem_append_right _ hol)

/-- An object put on two rings that hold the same. -/
theorem mpEnqueue_represents {q : RteRing Addr} {r : RteRing Offload} {f : Addr → Option Offload}
    {ol : Addr} {off : Offload} (h : q.map f = r.map some) (hol : f ol = some off) :
    (q.mpEnqueue ol).1.map f = (r.mpEnqueue off).1.map some := by
  rw [← RteRing.mpEnqueue_map, ← RteRing.mpEnqueue_map, h, hol]

/-- `nsendto` of the socket does what `nsendto` of the stack does. -/
theorem nsendto_represents {st : State} {a : Addr} {host : Localhost} {fd : Int}
    (hrep : Represents s st.arpt host) (h : Allocated hist s)
    (hinfo : getHostinfoFromfd st fd = some (.localhost a host)) (env : Env) (buf : List Byte)
    (ip : BitVec 32) (port : BitVec 16) :
    ∃ st' out host', Ustack.nsendto env st fd buf ip port = .ok (st', out) ∧
      st'.arpt = st.arpt ∧ st'.localhost a = some host' ∧
      Represents (s.nsendto env buf ip port).1 st.arpt host' := by
  obtain ⟨r, hr, hring⟩ := hrep.sndbuf
  have hhost : st.localhost a = some host := localhost_of_hostinfo hinfo
  have hgrows : Grows s (s.nsendto env buf ip port).1 := (nsendto_change s env buf ip port).1
  have hkept := (h.map_sndbuf hgrows).trans hring
  by_cases hol : env.malloc .sendtoOffload = false
  · refine ⟨st, .ofRet (-1), host, by simp [Ustack.nsendto, hinfo, hol], rfl, hhost, ?_⟩
    have hs : (s.nsendto env buf ip port).1 = s := by simp [Sender.nsendto, hol]
    rwa [hs]
  · by_cases hdata : env.malloc .sendtoData = false ∨ buf.length = 0
    · refine ⟨st, .ofRet (-1), host, ?_, rfl, hhost, ?_⟩
      · simp only [Ustack.nsendto, hinfo, if_neg hol, if_pos hdata]
      · simp only [Sender.nsendto, if_neg hol, if_pos hdata] at hkept ⊢
        exact ⟨hrep.localip, hrep.localport, hrep.localmac, hrep.arpt, hrep.udpOut, r, hr, hkept⟩
    · let host' :=
        { host with sndbuf := some (r.mpEnqueue (sendtoOffload host buf ip port)).1 }
      refine ⟨st.setHost a host', .ofRet buf.length, host', ?_, rfl, by simp [hhost], ?_⟩
      · simp only [Ustack.nsendto, hinfo, if_neg hol, if_neg hdata, hr]
        rfl
      · simp only [Sender.nsendto, if_neg hol, if_neg hdata] at hkept ⊢
        refine ⟨hrep.localip, hrep.localport, hrep.localmac, hrep.arpt, hrep.udpOut, _, rfl, ?_⟩
        refine mpEnqueue_represents hkept ?_
        simp [Sender.offloadAt, sendtoOffload, hrep.localip, hrep.localport]

/-- The frames a run has built, ARP requests among them. -/
def builtFrames (hist : SendHistory) : List Frame :=
  hist.flatMap fun en => en.2.filterMap fun
    | .framed _ frame => some frame
    | .asked frame => some frame
    | .accepted .. => none

theorem transmit_of_known {env : Env} {ol : Addr} {off : Offload} {dstmac : List Byte}
    (hpc : s.udpOut = .taken ol) (hol : s.offloadAt ol = some off) (hmbuf : env.malloc .mbuf = true)
    (hmac : s.arpt.ngGetDstMacaddr off.dip = some dstmac) :
    SendStep s (.transmit env) [.framed ol (.udp s.localmac dstmac off)]
      { s with udpOut := .away } := by
  simp [StepsOf, sendStep, hpc, hol, hmbuf, hmac]

theorem transmit_of_unknown {env : Env} {ol : Addr} {off : Offload}
    (hpc : s.udpOut = .taken ol) (hol : s.offloadAt ol = some off) (hmbuf : env.malloc .mbuf = true)
    (hmac : s.arpt.ngGetDstMacaddr off.dip = none) :
    SendStep s (.transmit env) [.asked (.arpRequest off.sip off.dip)]
      { s with udpOut := .unresolved ol } := by
  simp [StepsOf, sendStep, hpc, hol, hmbuf, hmac]

/-- A turn of `udp_out` that nothing comes between does to the socket, and to
    the output, what the turn does as one step. -/
theorem udpOutHost_represents {env : Env} {arpt : ArpTable} {host : Localhost}
    (hrep : Represents s arpt host) (hmbuf : env.malloc .mbuf = true) :
    ∃ turn s', Run SendStep s turn s' ∧
      turn.map Prod.fst <+: [.dequeue, .transmit env, .requeue] ∧
      builtFrames turn = (udpOutHost arpt host).2 ∧
      Represents s' arpt (udpOutHost arpt host).1 := by
  obtain ⟨r, hr, hring⟩ := hrep.sndbuf
  have hget : s.sndbuf.mcDequeue.map (Prod.map s.offloadAt (RteRing.map s.offloadAt)) =
      r.mcDequeue.map (Prod.map some (RteRing.map some)) := by
    rw [← RteRing.mcDequeue_map, ← RteRing.mcDequeue_map, hring]
  cases hq : s.sndbuf.mcDequeue with
  | none =>
      have hr' : r.mcDequeue = none := by simpa [hq] using hget.symm
      refine ⟨[(.dequeue, [])], s, .step .start ?_, by simp, ?_, ?_⟩
      · simp [StepsOf, sendStep, hrep.udpOut, hq]
      · simp [builtFrames, udpOutHost, hr, hr']
      · simpa [udpOutHost, hr, hr'] using hrep
  | some p =>
      obtain ⟨ol, q⟩ := p
      cases hr' : r.mcDequeue with
      | none => simp [hq, hr'] at hget
      | some p' =>
          obtain ⟨off, r'⟩ := p'
          obtain ⟨hol, hrest⟩ : s.offloadAt ol = some off ∧ q.map s.offloadAt = r'.map some := by
            simpa [hq, hr'] using hget
          have htaken : SendStep s .dequeue [] { s with sndbuf := q, udpOut := .taken ol } := by
            simp [StepsOf, sendStep, hrep.udpOut, hq]
          have harpt : s.arpt.ngGetDstMacaddr off.dip = arpt.ngGetDstMacaddr off.dip := by
            rw [hrep.arpt]
          cases hmac : arpt.ngGetDstMacaddr off.dip with
          | some dstmac =>
              have hframed : SendStep { s with sndbuf := q, udpOut := .taken ol } (.transmit env)
                  [.framed ol (.udp s.localmac dstmac off)]
                  { s with sndbuf := q, udpOut := .away } :=
                transmit_of_known rfl hol hmbuf (harpt.trans hmac)
              refine ⟨_, _, .step (.step .start htaken) hframed, ?_, ?_, ?_⟩
              · exact ⟨[.requeue], rfl⟩
              · simp [builtFrames, udpOutHost, hr, hr', hmac, hrep.localmac]
              · simp only [udpOutHost, hr, hr', hmac]
                exact ⟨hrep.localip, hrep.localport, hrep.localmac, hrep.arpt, rfl, r', rfl, hrest⟩
          | none =>
              have hasked : SendStep { s with sndbuf := q, udpOut := .taken ol } (.transmit env)
                  [.asked (.arpRequest off.sip off.dip)]
                  { s with sndbuf := q, udpOut := .unresolved ol } :=
                transmit_of_unknown rfl hol hmbuf (harpt.trans hmac)
              have hback : SendStep { s with sndbuf := q, udpOut := .unresolved ol } .requeue []
                  { s with sndbuf := (q.mpEnqueue ol).1, udpOut := .away } := rfl
              refine ⟨_, _, .step (.step (.step .start htaken) hasked) hback, ?_, ?_, ?_⟩
              · exact ⟨[], rfl⟩
              · simp [builtFrames, udpOutHost, hr, hr', hmac]
              · simp only [udpOutHost, hr, hr', hmac]
                exact ⟨hrep.localip, hrep.localport, hrep.localmac, hrep.arpt, rfl, _, rfl,
                  mpEnqueue_represents hrest hol⟩

end LinuxLearning.Ustack
