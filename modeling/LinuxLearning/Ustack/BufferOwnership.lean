/-
  LinuxLearning.Ustack.BufferOwnership

  Who gives a packet buffer up, and how often.

  `udp_process` and `ng_tcp_process` free the buffer they are given, once, on
  each of their paths.  For any other packet `pkt_process` hands the kernel
  interface the whole burst from its start, not the one packet; and the main
  loop frees every buffer of a burst after `rte_eth_tx_burst` has taken some
  of them.  Both calls take the buffers in front, as many as they return.
-/

import LinuxLearning.Ustack.UdpOutput
import Mathlib.Data.Finset.Card

namespace LinuxLearning.Ustack

open Lib

variable {env : Env} {s s' : State} {m : Mbuf} {o : Out}

/-! ## Giving buffers up -/

/-- A call that gives up the buffer with an index in the burst. -/
inductive Disposal where
  | pktmbufFree (i : Nat)
  | kniTxBurst (i : Nat)
  | ethTxBurst (i : Nat)
deriving DecidableEq, Repr

/-- The buffer given up. -/
def Disposal.mbuf : Disposal → Nat
  | pktmbufFree i | kniTxBurst i | ethTxBurst i => i

/-- How often the buffer `j` is given up. -/
def disposals (done : List Disposal) (j : Nat) : Nat := (done.map Disposal.mbuf).count j

theorem disposals_append (done more : List Disposal) (j : Nat) :
    disposals (done ++ more) j = disposals done j + disposals more j := by
  rw [disposals, List.map_append, List.count_append, disposals, disposals]

/-- `rte_kni_tx_burst(kni, mbufs, n)` that returns `taken`. -/
def rteKniTxBurst (taken : Nat) : List Disposal := (List.range taken).map .kniTxBurst

/-- `rte_eth_tx_burst(port, queue, tx, n)` that returns `taken`. -/
def rteEthTxBurst (taken : Nat) : List Disposal := (List.range taken).map .ethTxBurst

theorem count_range (n j : Nat) : (List.range n).count j = if j < n then 1 else 0 := by
  rw [List.nodup_range.count]
  simp only [List.mem_range]

theorem disposals_rteKniTxBurst (taken j : Nat) :
    disposals (rteKniTxBurst taken) j = if j < taken then 1 else 0 := by
  rw [disposals, rteKniTxBurst, List.map_map, ← count_range]
  congr 1
  exact List.map_id _

theorem disposals_rteEthTxBurst (taken j : Nat) :
    disposals (rteEthTxBurst taken) j = if j < taken then 1 else 0 := by
  rw [disposals, rteEthTxBurst, List.map_map, ← count_range]
  congr 1
  exact List.map_id _

/-! ## The protocol functions free their buffer -/

/-- How often `udp_process` has called `rte_pktmbuf_free(udpmbuf)`: each
    `return` has its own. -/
def UdpExit.frees : UdpExit → Nat
  | .noHost | .noOffload | .noData | .queued _ _ => 1
  | .overrun => 0

/-- `udp_process`, with the number of times it frees `udpmbuf`. -/
def udpProcessFrees (env : Env) (s : State) (m : Mbuf) : Except Halt ((State × Out) × Nat) :=
  (udpProcess env s m).map (·, (udpExit env s m).frees)

/-- `ng_tcp_process` again, with the number of times it frees `tcpmbuf`. -/
def ngTcpProcessFrees (env : Env) (s : State) (m : Mbuf) : Except Halt ((State × Out) × Nat) :=
  let tcphdr := TcpHdr.setCksum m.l4hdr 0
  if tcpCksumOk m then
    match ngTcpStreamSearch s.tcbSet (Ipv4Hdr.srcAddr m.iphdr) (Ipv4Hdr.dstAddr m.iphdr)
        (TcpHdr.srcPort tcphdr) (TcpHdr.dstPort tcphdr) with
    | none => .ok ((s, .ofRet (-2)), 1)
    | some (a, stream) => do
        let (s, ops) ← dispatchSegment env s a stream m.iphdr tcphdr
        return ((s, { Out.ofRet 0 with ops := (a, .segment stream.status m.segment) :: ops }), 1)
  else .ok ((s, .ofRet (-1)), 1)

/-- Every path of `udp_process` that returns frees the buffer once. -/
theorem udpProcessFrees_eq (env : Env) (s : State) (m : Mbuf) :
    udpProcessFrees env s m = (udpProcess env s m).map (·, 1) := by
  rw [udpProcessFrees, udpProcess]
  cases udpExit env s m with
  | noHost | noOffload | noData | queued => rfl
  | overrun => rfl

/-- So does every path of `ng_tcp_process`. -/
theorem ngTcpProcessFrees_eq (env : Env) (s : State) (m : Mbuf) :
    ngTcpProcessFrees env s m = (ngTcpProcess env s m).map (·, 1) := by
  simp only [ngTcpProcessFrees, ngTcpProcess]
  by_cases hcksum : tcpCksumOk m = true
  · simp only [if_pos hcksum]
    cases ngTcpStreamSearch s.tcbSet (Ipv4Hdr.srcAddr m.iphdr) (Ipv4Hdr.dstAddr m.iphdr)
        (TcpHdr.srcPort (TcpHdr.setCksum m.l4hdr 0))
        (TcpHdr.dstPort (TcpHdr.setCksum m.l4hdr 0)) with
    | none => rfl
    | some found =>
        obtain ⟨a, stream⟩ := found
        cases hd : dispatchSegment env s a stream m.iphdr (TcpHdr.setCksum m.l4hdr 0) with
        | error x => simp only [hd]; rfl
        | ok r => simp only [hd]; rfl
  · simp only [if_neg hcksum]
    rfl

/-! ## A pass of `pkt_process` -/

/-- The turn of the burst loop for `mbufs[i]`; `taken` is what
    `rte_kni_tx_burst` returns if it is called. -/
def pktProcessTurn (env : Env) (s : State) (mbufs : Nat → Mbuf) (taken i : Nat) :
    Except Halt (State × List Disposal) :=
  let m := mbufs i
  if EtherHdr.etherType m.data = htons RTE_ETHER_TYPE_IPV4 then
    let s := { s with arpt := (s.arpt.ngArpEntryInsert env (Ipv4Hdr.srcAddr m.iphdr)
                                (EtherHdr.sAddr m.data)).1 }
    if Ipv4Hdr.nextProtoId m.iphdr = IPPROTO_UDP then do
      let ((s, _), frees) ← udpProcessFrees env s m
      return (s, List.replicate frees (.pktmbufFree i))
    else if Ipv4Hdr.nextProtoId m.iphdr = IPPROTO_TCP then do
      let ((s, _), frees) ← ngTcpProcessFrees env s m
      return (s, List.replicate frees (.pktmbufFree i))
    -- the call is given `mbufs`, not `mbufs[i]`
    else .ok (s, rteKniTxBurst taken)
  else .ok (s, rteKniTxBurst taken)

/-- The first turns of the loop. -/
def pktProcessBurst (envs : Nat → Env) (mbufs : Nat → Mbuf) (taken : Nat → Nat) (s : State) :
    Nat → Except Halt (State × List Disposal)
  | 0 => .ok (s, [])
  | i + 1 => do
      let (s, done) ← pktProcessBurst envs mbufs taken s i
      let (s, more) ← pktProcessTurn (envs i) s mbufs (taken i) i
      return (s, done ++ more)

/-- The packet is for the kernel interface. -/
def Mbuf.ToKni (m : Mbuf) : Prop := ¬ m.IsUdp ∧ ¬ m.IsTcp

instance (m : Mbuf) : Decidable m.ToKni := inferInstanceAs (Decidable (_ ∧ _))

/-- A turn is the step for its packet, and gives up the packet's own buffer,
    or the first buffers of the burst. -/
theorem pktProcessTurn_eq (env : Env) (s : State) (mbufs : Nat → Mbuf) (taken i : Nat) :
    pktProcessTurn env s mbufs taken i = (pktProcess env s (mbufs i)).map fun r =>
      (r.1, if (mbufs i).ToKni then rteKniTxBurst taken else [.pktmbufFree i]) := by
  simp only [pktProcessTurn, pktProcess, udpProcessFrees_eq, ngTcpProcessFrees_eq]
  by_cases hip : EtherHdr.etherType (mbufs i).data = htons RTE_ETHER_TYPE_IPV4
  · simp only [if_pos hip]
    by_cases hudp : Ipv4Hdr.nextProtoId (mbufs i).iphdr = IPPROTO_UDP
    · have hkni : ¬ (mbufs i).ToKni := fun hk => hk.1 ⟨hip, hudp⟩
      simp only [if_pos hudp, if_neg hkni]
      cases udpProcess env _ (mbufs i) <;> rfl
    · simp only [if_neg hudp]
      by_cases htcp : Ipv4Hdr.nextProtoId (mbufs i).iphdr = IPPROTO_TCP
      · have hkni : ¬ (mbufs i).ToKni := fun hk => hk.2 ⟨hip, htcp⟩
        simp only [if_pos htcp, if_neg hkni]
        cases ngTcpProcess env _ (mbufs i) <;> rfl
      · have hkni : (mbufs i).ToKni := ⟨fun h => hudp h.2, fun h => htcp h.2⟩
        simp only [if_neg htcp, if_pos hkni]
        rfl
  · have hkni : (mbufs i).ToKni := ⟨fun h => hip h.1, fun h => hip h.1⟩
    simp only [if_neg hip, if_pos hkni]
    rfl

theorem pktProcessTurn_ok {mbufs : Nat → Mbuf} {taken i : Nat} {done : List Disposal}
    (h : pktProcessTurn env s mbufs taken i = .ok (s', done)) :
    (∃ o, pktProcess env s (mbufs i) = .ok (s', o)) ∧
      done = if (mbufs i).ToKni then rteKniTxBurst taken else [.pktmbufFree i] := by
  rw [pktProcessTurn_eq] at h
  cases hp : pktProcess env s (mbufs i) with
  | error x =>
      rw [hp] at h
      cases h
  | ok r =>
      rw [hp] at h
      obtain ⟨rfl, rfl⟩ := Prod.mk.inj (Except.ok.inj h)
      exact ⟨⟨r.2, rfl⟩, rfl⟩

/-- A turn of the burst loop goes on from the turns before it. -/
theorem pktProcessBurst_succ {envs : Nat → Env} {mbufs : Nat → Mbuf} {taken : Nat → Nat} {i : Nat}
    {done : List Disposal} (h : pktProcessBurst envs mbufs taken s (i + 1) = .ok (s', done)) :
    ∃ s₁ before now, pktProcessBurst envs mbufs taken s i = .ok (s₁, before) ∧
      pktProcessTurn (envs i) s₁ mbufs (taken i) i = .ok (s', now) ∧ done = before ++ now := by
  obtain ⟨⟨s₁, before⟩, hbefore, h⟩ := bind_eq_ok_iff.mp h
  obtain ⟨⟨s₂, now⟩, hnow, hret⟩ := bind_eq_ok_iff.mp h
  obtain ⟨rfl, rfl⟩ : s₂ = s' ∧ before ++ now = done := by simpa [pure, Except.pure] using hret
  exact ⟨s₁, before, now, hbefore, hnow, rfl⟩

/-- A pass is a run of the system: one step for each packet. -/
theorem run_of_burst {envs : Nat → Env} {mbufs : Nat → Mbuf} {taken : Nat → Nat} {n : Nat}
    {done : List Disposal} (h : pktProcessBurst envs mbufs taken s n = .ok (s', done)) :
    ∃ hist : History, SystemRun s hist s' ∧
      hist.map Prod.fst = (List.range n).map fun i => .packet (envs i) (mbufs i) := by
  induction n generalizing s' done with
  | zero =>
      obtain ⟨rfl, -⟩ := Prod.mk.inj (Except.ok.inj h)
      exact ⟨[], .start, rfl⟩
  | succ n ih =>
      obtain ⟨s₁, before, now, hbefore, hnow, -⟩ := pktProcessBurst_succ h
      -- the turns before are a run, and this turn is one more step of it
      obtain ⟨hist, hrun, hevents⟩ := ih hbefore
      obtain ⟨⟨o, hstep⟩, -⟩ := pktProcessTurn_ok hnow
      have hnext : StepsOf step s₁ (.packet (envs n) (mbufs n)) o s' := hstep
      refine ⟨hist ++ [(.packet (envs n) (mbufs n), o)], hrun.step hnext, ?_⟩
      rw [List.map_append, hevents, List.range_succ, List.map_append]
      rfl

/-- The calls of `rte_kni_tx_burst` in the first `n` turns that take the
    buffer `j`. -/
def kniTakers (mbufs : Nat → Mbuf) (taken : Nat → Nat) (n j : Nat) : Finset Nat :=
  (Finset.range n).filter fun i => (mbufs i).ToKni ∧ j < taken i

theorem mem_kniTakers {mbufs : Nat → Mbuf} {taken : Nat → Nat} {n i j : Nat} :
    i ∈ kniTakers mbufs taken n j ↔ i < n ∧ (mbufs i).ToKni ∧ j < taken i := by
  rw [kniTakers, Finset.mem_filter, Finset.mem_range]

theorem card_kniTakers_succ (mbufs : Nat → Mbuf) (taken : Nat → Nat) (n j : Nat) :
    (kniTakers mbufs taken (n + 1) j).card = (kniTakers mbufs taken n j).card +
      if (mbufs n).ToKni ∧ j < taken n then 1 else 0 := by
  have hnot : n ∉ kniTakers mbufs taken n j := fun h => Nat.lt_irrefl n (mem_kniTakers.mp h).1
  rw [kniTakers, Finset.range_add_one, Finset.filter_insert]
  by_cases htakes : (mbufs n).ToKni ∧ j < taken n
  · rw [if_pos htakes, if_pos htakes]
    exact Finset.card_insert_of_notMem hnot
  · rw [if_neg htakes, if_neg htakes]
    rfl

/-- How often the turn for `mbufs[n]` gives up the buffer `j`: its own, or
    the first ones. -/
theorem disposals_of_turn {mbufs : Nat → Mbuf} {taken n : Nat} {done : List Disposal}
    (h : pktProcessTurn env s mbufs taken n = .ok (s', done)) (j : Nat) :
    disposals done j = (if j = n ∧ ¬ (mbufs j).ToKni then 1 else 0) +
      if (mbufs n).ToKni ∧ j < taken then 1 else 0 := by
  obtain ⟨-, rfl⟩ := pktProcessTurn_ok h
  by_cases hkni : (mbufs n).ToKni
  · have hown : ¬ (j = n ∧ ¬ (mbufs j).ToKni) := fun h => h.2 (h.1 ▸ hkni)
    rw [if_pos hkni, disposals_rteKniTxBurst, if_neg hown, Nat.zero_add]
    simp only [hkni, true_and]
  · have hcall : ¬ ((mbufs n).ToKni ∧ j < taken) := fun h => hkni h.1
    rw [if_neg hkni, if_neg hcall, Nat.add_zero]
    by_cases hj : j = n
    · subst hj
      simp [disposals, Disposal.mbuf, hkni]
    · have hnj : n ≠ j := fun h => hj h.symm
      simp [disposals, Disposal.mbuf, hj, hnj]

/-- How often the first `n` turns give up the buffer `j`. -/
theorem disposals_of_burst {envs : Nat → Env} {mbufs : Nat → Mbuf} {taken : Nat → Nat} {n : Nat}
    {done : List Disposal} (h : pktProcessBurst envs mbufs taken s n = .ok (s', done)) (j : Nat) :
    disposals done j = (if j < n ∧ ¬ (mbufs j).ToKni then 1 else 0) +
      (kniTakers mbufs taken n j).card := by
  induction n generalizing s' done with
  | zero =>
      obtain ⟨-, rfl⟩ := Prod.mk.inj (Except.ok.inj h)
      simp [disposals, kniTakers]
  | succ n ih =>
      obtain ⟨s₁, before, now, hbefore, hnow, rfl⟩ := pktProcessBurst_succ h
      rw [disposals_append, ih hbefore, disposals_of_turn hnow, card_kniTakers_succ]
      -- the turn adds to the buffers freed its own, and to the calls its call
      have hfreed : (if j < n + 1 ∧ ¬ (mbufs j).ToKni then 1 else 0) =
          (if j < n ∧ ¬ (mbufs j).ToKni then 1 else 0) +
            if j = n ∧ ¬ (mbufs j).ToKni then 1 else 0 := by
        by_cases hkni : (mbufs j).ToKni
        · simp [hkni]
        · simp only [hkni, not_false_eq_true, and_true]
          split_ifs <;> omega
      omega

/-! ## Once and only once -/

/-- The kernel interface gets its own packets and no others: there are none,
    or they are the first packets of the burst, one call takes just these,
    and its other calls take nothing. -/
def KniTakesItsOwn (mbufs : Nat → Mbuf) (taken : Nat → Nat) (n : Nat) : Prop :=
  (∀ j < n, ¬ (mbufs j).ToKni) ∨
  ∃ i < n, (mbufs i).ToKni ∧ (∀ j < n, (mbufs j).ToKni ↔ j < taken i) ∧
    ∀ j < n, (mbufs j).ToKni → j ≠ i → taken j = 0

theorem KniTakesItsOwn.once {mbufs : Nat → Mbuf} {taken : Nat → Nat} {n j : Nat}
    (h : KniTakesItsOwn mbufs taken n) (hj : j < n) :
    (if j < n ∧ ¬ (mbufs j).ToKni then 1 else 0) + (kniTakers mbufs taken n j).card = 1 := by
  rcases h with hnone | ⟨i, hi, hki, hown, hzero⟩
  · have hempty : kniTakers mbufs taken n j = ∅ := by
      refine Finset.eq_empty_of_forall_notMem fun i hmem => ?_
      obtain ⟨hi, hki, -⟩ := mem_kniTakers.mp hmem
      exact hnone i hi hki
    rw [if_pos ⟨hj, hnone j hj⟩, hempty, Finset.card_empty]
  · -- a call that takes anything is the one call
    have hthe : ∀ {i'}, i' ∈ kniTakers mbufs taken n j → i' = i := by
      intro i' hmem
      obtain ⟨hi', hki', hlt⟩ := mem_kniTakers.mp hmem
      by_contra hne
      rw [hzero i' hi' hki' hne] at hlt
      exact Nat.not_lt_zero _ hlt
    by_cases hkj : (mbufs j).ToKni
    · have hsingle : kniTakers mbufs taken n j = {i} :=
        Finset.eq_singleton_iff_unique_mem.mpr
          ⟨mem_kniTakers.mpr ⟨hi, hki, (hown j hj).mp hkj⟩, fun i' hmem => hthe hmem⟩
      rw [if_neg (fun h => h.2 hkj), hsingle, Finset.card_singleton]
    · have hempty : kniTakers mbufs taken n j = ∅ := by
        refine Finset.eq_empty_of_forall_notMem fun i' hmem => ?_
        obtain rfl := hthe hmem
        exact hkj ((hown j hj).mpr (mem_kniTakers.mp hmem).2.2)
      rw [if_pos ⟨hj, hkj⟩, hempty, Finset.card_empty]

/-- Every buffer is taken once: the calls that take any are one, and it takes
    what nobody frees. -/
theorem takers_iff (mbufs : Nat → Mbuf) (taken : Nat → Nat) (n : Nat) :
    (∀ j < n, (if j < n ∧ ¬ (mbufs j).ToKni then 1 else 0) +
      (kniTakers mbufs taken n j).card = 1) ↔ KniTakesItsOwn mbufs taken n := by
  refine ⟨fun honce => ?_, fun h j hj => h.once hj⟩
  by_cases hnone : ∀ j < n, ¬ (mbufs j).ToKni
  · exact .inl hnone
  simp only [not_forall, not_not] at hnone
  obtain ⟨k, hk, hkni⟩ := hnone
  have htaken : ∀ j < n, (mbufs j).ToKni → ∃ i, i ∈ kniTakers mbufs taken n j := by
    intro j hj hkj
    have hcard := honce j hj
    rw [if_neg (fun h => h.2 hkj), Nat.zero_add] at hcard
    exact Finset.card_pos.mp (by rw [hcard]; exact Nat.one_pos)
  -- two calls that take anything would both take the first buffer
  have hone : ∀ {i i'}, i < n → i' < n → (mbufs i).ToKni → (mbufs i').ToKni → 0 < taken i →
      0 < taken i' → i = i' := by
    intro i i' hi hi' hki hki' hpos hpos'
    have hcard := honce 0 (Nat.lt_of_le_of_lt (Nat.zero_le _) hk)
    have hle : (kniTakers mbufs taken n 0).card ≤ 1 := by omega
    exact Finset.card_le_one.mp hle i (mem_kniTakers.mpr ⟨hi, hki, hpos⟩) i'
      (mem_kniTakers.mpr ⟨hi', hki', hpos'⟩)
  obtain ⟨i, hmem⟩ := htaken k hk hkni
  obtain ⟨hi, hki, hlt⟩ := mem_kniTakers.mp hmem
  have hpos : 0 < taken i := Nat.lt_of_le_of_lt (Nat.zero_le _) hlt
  refine .inr ⟨i, hi, hki, fun j hj => ⟨fun hkj => ?_, fun hji => ?_⟩, fun j hj hkj hne => ?_⟩
  · obtain ⟨i', hmem'⟩ := htaken j hj hkj
    obtain ⟨hi', hki', hlt'⟩ := mem_kniTakers.mp hmem'
    rwa [hone hi hi' hki hki' hpos (Nat.lt_of_le_of_lt (Nat.zero_le _) hlt')]
  · -- a buffer that was freed is not taken too
    by_contra hkj
    have hcard := honce j hj
    rw [if_pos ⟨hj, hkj⟩] at hcard
    have hempty : kniTakers mbufs taken n j = ∅ := Finset.card_eq_zero.mp (by omega)
    have hmem : i ∈ kniTakers mbufs taken n j := mem_kniTakers.mpr ⟨hi, hki, hji⟩
    rw [hempty] at hmem
    exact Finset.notMem_empty i hmem
  · by_contra hzero
    exact hne (hone hj hi hkj hki (Nat.pos_of_ne_zero hzero) hpos)

/-! ## The main loop -/

/-- What the main loop does with `nb_tx` buffers from `ring->out`:
    `rte_eth_tx_burst`, which returns `taken`, and the loop that frees them
    all. -/
def txBurst (taken nbTx : Nat) : List Disposal :=
  rteEthTxBurst taken ++ (List.range nbTx).map .pktmbufFree

theorem disposals_txBurst (taken nbTx j : Nat) :
    disposals (txBurst taken nbTx) j =
      (if j < taken then 1 else 0) + if j < nbTx then 1 else 0 := by
  have hfree : disposals ((List.range nbTx).map .pktmbufFree) j = if j < nbTx then 1 else 0 := by
    rw [disposals, List.map_map, ← count_range]
    congr 1
    exact List.map_id _
  rw [txBurst, disposals_append, disposals_rteEthTxBurst, hfree]

/-- A pass over a burst gives every buffer up once exactly if the kernel
    interface takes its own packets and no others; a burst of the main loop
    does exactly if `rte_eth_tx_burst` takes nothing. -/
theorem buffers_given_up_once {envs : Nat → Env} {mbufs : Nat → Mbuf} {taken : Nat → Nat} {n : Nat}
    {done : List Disposal} (h : pktProcessBurst envs mbufs taken s n = .ok (s', done)) :
    ((∀ j < n, disposals done j = 1) ↔ KniTakesItsOwn mbufs taken n) ∧
    ∀ nbTx sent, sent ≤ nbTx →
      ((∀ j < nbTx, disposals (txBurst sent nbTx) j = 1) ↔ sent = 0) := by
  constructor
  · simp only [disposals_of_burst h]
    exact takers_iff mbufs taken n
  · intro nbTx sent hsent
    simp only [disposals_txBurst]
    constructor
    · intro honce
      by_contra hpos
      -- the first buffer is both sent and freed
      have hfirst := honce 0 (by omega)
      rw [if_pos (Nat.pos_of_ne_zero hpos), if_pos (by omega)] at hfirst
      omega
    · rintro rfl j hj
      rw [if_neg (Nat.not_lt_zero j), if_pos hj]

/-- A frame that is not IPv4, and a datagram. -/
def arpFrame : Mbuf where
  data := Ptr.store16 (fun _ => 0) 12 (htons 0x0806)
  dataLen := 60

/-- The packet for the kernel interface comes first, and the call takes it
    alone. -/
theorem buffers_given_up_once_arp_first :
    let mbufs := fun i => if i = 0 then arpFrame else peerDatagram 0x0100000A [7]
    ∃ s' done, pktProcessBurst (fun _ => .plain) mbufs (fun _ => 1) (State.init []) 2 =
        .ok (s', done) ∧ ∀ j < 2, disposals done j = 1 := by
  intro mbufs
  have hpass : (match pktProcessBurst (fun _ => .plain) mbufs (fun _ => 1) (State.init []) 2 with
      | .ok _ => true
      | .error _ => false) = true := by
    decide +kernel
  split at hpass
  · rename_i r hburst
    have htakes : KniTakesItsOwn mbufs (fun _ => 1) 2 :=
      .inr ⟨0, by decide, by decide +kernel, by decide +kernel, by decide +kernel⟩
    exact ⟨r.1, r.2, hburst, (buffers_given_up_once hburst).1.mpr htakes⟩
  · cases hpass

/-- A datagram comes before a packet for the kernel interface, which takes
    the whole burst: the datagram's buffer was freed before.  In the main
    loop `rte_eth_tx_burst` takes a buffer that is then freed. -/
theorem buffers_given_up_twice :
    (let mbufs := fun i => if i = 0 then peerDatagram 0x0100000A [7] else arpFrame
     ∃ s' done, pktProcessBurst (fun _ => .plain) mbufs (fun _ => 2) (State.init []) 2 =
        .ok (s', done) ∧ done = [.pktmbufFree 0, .kniTxBurst 0, .kniTxBurst 1] ∧
        disposals done 0 = 2) ∧
    disposals (txBurst 1 1) 0 = 2 := by
  refine ⟨?_, by decide⟩
  intro mbufs
  have hpass : (match pktProcessBurst (fun _ => .plain) mbufs (fun _ => 2) (State.init []) 2 with
      | .ok (_, done) => decide (done = [.pktmbufFree 0, .kniTxBurst 0, .kniTxBurst 1])
      | .error _ => false) = true := by
    decide +kernel
  split at hpass
  · rename_i s' done hburst
    rw [decide_eq_true_eq] at hpass
    exact ⟨s', done, hburst, hpass, by rw [hpass]; decide⟩
  · cases hpass

end LinuxLearning.Ustack
