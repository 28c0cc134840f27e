/-
  LinuxLearning.Ustack.ArpOutput

  The ARP requests of the stack: `ng_encode_arp_pkt`, `ng_send_arp` and the
  scan of `arp_request_timer_cb`.

  The scan asks about every host address of the local network of 24 bits
  once, in order.  A request for an address that is not known has the target
  hardware address of all ones and goes to the Ethernet address of all zeros:
  it is the other way around than a broadcast.
-/

import LinuxLearning.Ustack.UdpFrame

namespace LinuxLearning.Ustack

open Lib

/-! ## Encoding -/

def RTE_ETHER_TYPE_ARP : BitVec 16 := 0x0806
def RTE_ARP_OP_REQUEST : BitVec 16 := 1

/-- `sizeof(struct rte_arp_hdr)`. -/
def sizeofArpHdr : Nat := 28

/-- `gDefaultArpMac`. -/
def gDefaultArpMac : List Byte := List.replicate etherAddrLen 0xff

/-- Does `strncmp` find the first `n` characters of two arrays equal? -/
def strncmpEq : Nat → List Byte → List Byte → Bool
  | 0, _, _ => true
  | n + 1, x :: xs, y :: ys =>
      if x ≠ y then false else if x = 0 then true else strncmpEq n xs ys
  | _ + 1, _, _ => false

/-- `ng_encode_arp_pkt`, over the memory `msg` of the new buffer. -/
def ngEncodeArpPkt (msg : Ptr) (gSrcMac : List Byte) (opcode : BitVec 16) (dstMac : List Byte)
    (sip dip : BitVec 32) : Ptr :=
  let eth := msg.storeBytes 6 (gSrcMac.take etherAddrLen)
  let eth :=
    if strncmpEq etherAddrLen dstMac gDefaultArpMac then
      eth.storeBytes 0 (List.replicate etherAddrLen 0)
    else eth.storeBytes 0 (dstMac.take etherAddrLen)
  let eth := eth.store16 12 (htons RTE_ETHER_TYPE_ARP)
  let arp := ((((eth.store16 14 (htons 1)).store16 16 (htons RTE_ETHER_TYPE_IPV4)).store8 18
    (BitVec.ofNat 8 etherAddrLen)).store8 19 4).store16 20 (htons opcode)
  let arp := (arp.storeBytes 22 (gSrcMac.take etherAddrLen)).storeBytes 32
    (dstMac.take etherAddrLen)
  (arp.store32 28 sip).store32 38 dip

/-- `ng_send_arp`, in the buffer that held `msg` before. -/
def ngSendArp (msg : Ptr) (gSrcMac : List Byte) (opcode : BitVec 16) (dstMac : List Byte)
    (sip dip : BitVec 32) : Mbuf where
  data := ngEncodeArpPkt msg gSrcMac opcode dstMac sip dip
  dataLen := sizeofEtherHdr + sizeofArpHdr

/-! Fields of `struct rte_arp_hdr`. -/
namespace ArpHdr
def hardware (p : Ptr) : BitVec 16 := p.load16 0
def protocol (p : Ptr) : BitVec 16 := p.load16 2
def hlen (p : Ptr) : Byte := p 4
def plen (p : Ptr) : Byte := p 5
def opcode (p : Ptr) : BitVec 16 := p.load16 6
def sha (p : Ptr) : List Byte := p.bytes 8 etherAddrLen
def sip (p : Ptr) : BitVec 32 := p.load32 14
def tha (p : Ptr) : List Byte := p.bytes 18 etherAddrLen
def tip (p : Ptr) : BitVec 32 := p.load32 24
end ArpHdr

/-- The frame in `m` is one of Ethernet and ARP for IPv4, with the given
    fields. -/
structure ArpFields (m : Mbuf) (dAddr sAddr : List Byte) (opcode : BitVec 16) (sha : List Byte)
    (sip : BitVec 32) (tha : List Byte) (tip : BitVec 32) : Prop where
  whole : m.dataLen = 42
  dAddr : EtherHdr.dAddr m.data = dAddr
  sAddr : EtherHdr.sAddr m.data = sAddr
  etherType : EtherHdr.etherType m.data = htons RTE_ETHER_TYPE_ARP
  hardware : ntohs (ArpHdr.hardware (m.data.offset 14)) = 1
  protocol : ntohs (ArpHdr.protocol (m.data.offset 14)) = RTE_ETHER_TYPE_IPV4
  hlen : ArpHdr.hlen (m.data.offset 14) = 6
  plen : ArpHdr.plen (m.data.offset 14) = 4
  opcode : ntohs (ArpHdr.opcode (m.data.offset 14)) = opcode
  sha : ArpHdr.sha (m.data.offset 14) = sha
  sip : ArpHdr.sip (m.data.offset 14) = sip
  tha : ArpHdr.tha (m.data.offset 14) = tha
  tip : ArpHdr.tip (m.data.offset 14) = tip

theorem strncmpEq_iff {n : Nat} {xs ys : List Byte} (hxs : xs.length = n) (hys : ys.length = n)
    (hnonzero : ∀ y ∈ ys, y ≠ 0) : strncmpEq n xs ys = true ↔ xs = ys := by
  induction n generalizing xs ys with
  | zero =>
      rw [List.eq_nil_of_length_eq_zero hxs, List.eq_nil_of_length_eq_zero hys]
      exact iff_of_true rfl rfl
  | succ n ih =>
      obtain ⟨x, xs, rfl⟩ := List.exists_cons_of_length_eq_add_one hxs
      obtain ⟨y, ys, rfl⟩ := List.exists_cons_of_length_eq_add_one hys
      rw [List.forall_mem_cons] at hnonzero
      rw [strncmpEq, List.cons.injEq]
      by_cases hxy : x = y
      · subst hxy
        simp only [ne_eq, not_true, if_false, hnonzero.1, true_and]
        exact ih (Nat.succ.inj hxs) (Nat.succ.inj hys) hnonzero.2
      · simp only [ne_eq, hxy, not_false_eq_true, if_true, false_and]
        simp

/-- Where the frame for `dstMac` is sent to. -/
def arpDstAddr (dstMac : List Byte) : List Byte :=
  if dstMac = gDefaultArpMac then List.replicate etherAddrLen 0 else dstMac

theorem length_arpDstAddr {dstMac : List Byte} (hdst : dstMac.length = etherAddrLen) :
    (arpDstAddr dstMac).length = etherAddrLen := by
  unfold arpDstAddr
  split
  · rfl
  · exact hdst

theorem ngEncodeArpPkt_eq (msg : Ptr) (opcode : BitVec 16) (sip dip : BitVec 32)
    {gSrcMac dstMac : List Byte} (hsrc : gSrcMac.length = etherAddrLen)
    (hdst : dstMac.length = etherAddrLen) : ngEncodeArpPkt msg gSrcMac opcode dstMac sip dip =
      ((((((((((msg.storeBytes 6 gSrcMac).storeBytes 0 (arpDstAddr dstMac)).store16 12
        (htons RTE_ETHER_TYPE_ARP)).store16 14 (htons 1)).store16 16
        (htons RTE_ETHER_TYPE_IPV4)).store8 18 6).store8 19 4).store16 20 (htons opcode)).storeBytes
        22 gSrcMac).storeBytes 32 dstMac |>.store32 28 sip).store32 38 dip := by
  have hsrcTake : gSrcMac.take etherAddrLen = gSrcMac :=
    List.take_of_length_le (Nat.le_of_eq hsrc)
  have hdstTake : dstMac.take etherAddrLen = dstMac := List.take_of_length_le (Nat.le_of_eq hdst)
  have hcmp : strncmpEq etherAddrLen dstMac gDefaultArpMac = true ↔ dstMac = gDefaultArpMac :=
    strncmpEq_iff hdst rfl (by decide)
  simp only [ngEncodeArpPkt, hsrcTake, hdstTake, arpDstAddr]
  by_cases h : dstMac = gDefaultArpMac
  · rw [if_pos (hcmp.mpr h), if_pos h]
    rfl
  · rw [if_neg (mt hcmp.mp h), if_neg h]
    rfl

/-- Every field of the request is where a receiver looks for it. -/
theorem arpFields_ngSendArp (msg : Ptr) (gSrcMac : List Byte) (opcode : BitVec 16)
    (dstMac : List Byte) (sip dip : BitVec 32) (hsrc : gSrcMac.length = etherAddrLen)
    (hdst : dstMac.length = etherAddrLen) :
    ArpFields (ngSendArp msg gSrcMac opcode dstMac sip dip) (arpDstAddr dstMac) gSrcMac opcode
      gSrcMac sip dstMac dip := by
  have hdata : (ngSendArp msg gSrcMac opcode dstMac sip dip).data = _ :=
    ngEncodeArpPkt_eq msg opcode sip dip hsrc hdst
  have hlen := length_arpDstAddr hdst
  rw [etherAddrLen] at hsrc hdst hlen
  constructor
  · rfl
  · rw [hdata]
    simp (disch := omega) only [EtherHdr.dAddr, etherAddrLen, Ptr.bytes_store32_of_disjoint,
      Ptr.bytes_storeBytes_of_disjoint, Ptr.bytes_store16_of_disjoint,
      Ptr.bytes_store8_of_disjoint, Ptr.bytes_storeBytes_of_length]
  · rw [hdata]
    simp (disch := omega) only [EtherHdr.sAddr, etherAddrLen, Ptr.bytes_store32_of_disjoint,
      Ptr.bytes_storeBytes_of_disjoint, Ptr.bytes_store16_of_disjoint,
      Ptr.bytes_store8_of_disjoint, Ptr.bytes_storeBytes_of_length]
  · rw [hdata]
    simp (disch := omega) only [EtherHdr.etherType, Ptr.load16_store32_of_disjoint,
      Ptr.load16_storeBytes_of_disjoint, Ptr.load16_store16_of_disjoint,
      Ptr.load16_store8_of_disjoint, Ptr.load16_store16]
  · rw [hdata]
    simp (disch := omega) only [ArpHdr.hardware, Ptr.load16_offset, Ptr.load16_store32_of_disjoint,
      Ptr.load16_storeBytes_of_disjoint, Ptr.load16_store16_of_disjoint,
      Ptr.load16_store8_of_disjoint, Ptr.load16_store16, ntohs_ntohs]
  · rw [hdata]
    simp (disch := omega) only [ArpHdr.protocol, Ptr.load16_offset, Ptr.load16_store32_of_disjoint,
      Ptr.load16_storeBytes_of_disjoint, Ptr.load16_store16_of_disjoint,
      Ptr.load16_store8_of_disjoint, Ptr.load16_store16, ntohs_ntohs]
  · rw [hdata]
    simp (disch := omega) only [ArpHdr.hlen, Ptr.offset_apply, Ptr.store32_apply_of_ne,
      Ptr.storeBytes_apply_of_disjoint, Ptr.store16_apply_of_ne, Ptr.store8_apply_of_ne,
      Ptr.store8_apply_self]
  · rw [hdata]
    simp (disch := omega) only [ArpHdr.plen, Ptr.offset_apply, Ptr.store32_apply_of_ne,
      Ptr.storeBytes_apply_of_disjoint, Ptr.store16_apply_of_ne, Ptr.store8_apply_self]
  · rw [hdata]
    simp (disch := omega) only [ArpHdr.opcode, Ptr.load16_offset, Ptr.load16_store32_of_disjoint,
      Ptr.load16_storeBytes_of_disjoint, Ptr.load16_store16, ntohs_ntohs]
  · rw [hdata]
    simp (disch := omega) only [ArpHdr.sha, etherAddrLen, Ptr.bytes_offset,
      Ptr.bytes_store32_of_disjoint, Ptr.bytes_storeBytes_of_disjoint,
      Ptr.bytes_storeBytes_of_length]
  · rw [hdata]
    simp (disch := omega) only [ArpHdr.sip, Ptr.load32_offset, Ptr.load32_store32_of_disjoint,
      Ptr.load32_store32]
  · rw [hdata]
    simp (disch := omega) only [ArpHdr.tha, etherAddrLen, Ptr.bytes_offset,
      Ptr.bytes_store32_of_disjoint, Ptr.bytes_storeBytes_of_length]
  · rw [hdata]
    simp (disch := omega) only [ArpHdr.tip, Ptr.load32_offset, Ptr.load32_store32]

/-! ## The scan -/

/-- `(gLocalIp & 0x00FFFFFF) | (0xFF000000 & (i << 24))`. -/
def scanAddr (gLocalIp : BitVec 32) (i : Nat) : BitVec 32 :=
  (gLocalIp &&& 0x00FFFFFF#32) ||| (0xFF000000#32 &&& (BitVec.ofNat 32 i <<< 24))

/-- The request for host number `i`. -/
def scanRequest (msg : Ptr) (arpt : ArpTable) (gSrcMac : List Byte) (gLocalIp : BitVec 32)
    (i : Nat) : Mbuf :=
  match arpt.ngGetDstMacaddr (scanAddr gLocalIp i) with
  | none => ngSendArp msg gSrcMac RTE_ARP_OP_REQUEST gDefaultArpMac gLocalIp (scanAddr gLocalIp i)
  | some dstmac => ngSendArp msg gSrcMac RTE_ARP_OP_REQUEST dstmac gLocalIp (scanAddr gLocalIp i)

/-- The loop of `arp_request_timer_cb` from host number `i` on, for `n` more;
    `alloc` says which buffers can be had, `msg` what they held, and `out` is
    the ring of frames to send. -/
def scanLoop (alloc : Nat → Bool) (msg : Nat → Ptr) (arpt : ArpTable) (gSrcMac : List Byte)
    (gLocalIp : BitVec 32) : Nat → Nat → RteRing Mbuf → Except Halt (RteRing Mbuf)
  | 0, _, out => .ok out
  | n + 1, i, out =>
      if alloc i = false then .error .rteExit
      -- the burst of one is not counted
      else scanLoop alloc msg arpt gSrcMac gLocalIp n (i + 1)
        (out.mpEnqueue (scanRequest (msg i) arpt gSrcMac gLocalIp i)).1

/-- `arp_request_timer_cb`. -/
def arpRequestTimerCb (alloc : Nat → Bool) (msg : Nat → Ptr) (arpt : ArpTable)
    (gSrcMac : List Byte) (gLocalIp : BitVec 32) (out : RteRing Mbuf) :
    Except Halt (RteRing Mbuf) :=
  scanLoop alloc msg arpt gSrcMac gLocalIp 254 1 out

/-- All requests of a scan, one for each host number. -/
def scanRequests (msg : Nat → Ptr) (arpt : ArpTable) (gSrcMac : List Byte)
    (gLocalIp : BitVec 32) : List Mbuf :=
  (List.range' 1 254).map fun i => scanRequest (msg i) arpt gSrcMac gLocalIp i

/-- The host number takes the place of the last byte of the address. -/
theorem toNat_scanAddr (gLocalIp : BitVec 32) {i : Nat} (hi : i < 256) :
    (scanAddr gLocalIp i).toNat = 2 ^ 24 * i + gLocalIp.toNat % 2 ^ 24 := by
  have hlow : (gLocalIp &&& 0x00FFFFFF#32).toNat = gLocalIp.toNat % 2 ^ 24 := by
    rw [BitVec.toNat_and]
    exact Nat.and_two_pow_sub_one_eq_mod gLocalIp.toNat 24
  have hshift : (BitVec.ofNat 32 i <<< 24).toNat = i <<< 24 := by
    rw [BitVec.toNat_shiftLeft, BitVec.toNat_ofNat, Nat.shiftLeft_eq, Nat.shiftLeft_eq]
    omega
  have hhigh : (0xFF000000#32 &&& (BitVec.ofNat 32 i <<< 24)).toNat = 2 ^ 24 * i := by
    have hmask : (0xFF000000#32).toNat = (2 ^ 8 - 1) <<< 24 := rfl
    rw [BitVec.toNat_and, hshift, hmask, ← Nat.shiftLeft_and_distrib, Nat.and_comm,
      Nat.and_two_pow_sub_one_eq_mod, Nat.mod_eq_of_lt hi, Nat.shiftLeft_eq, Nat.mul_comm]
  have hlt : gLocalIp.toNat % 2 ^ 24 < 2 ^ 24 := Nat.mod_lt _ (by decide)
  rw [scanAddr, BitVec.toNat_or, hlow, hhigh, Nat.or_comm]
  exact (Nat.two_pow_add_eq_or_of_lt hlt i).symm

/-- The addresses asked about are those of the local network but for the
    first and the last. -/
theorem mem_scan_iff {gLocalIp ip : BitVec 32} :
    ip ∈ (List.range' 1 254).map (scanAddr gLocalIp) ↔
      ip.toNat % 2 ^ 24 = gLocalIp.toNat % 2 ^ 24 ∧ 1 ≤ ip.toNat / 2 ^ 24 ∧
        ip.toNat / 2 ^ 24 ≤ 254 := by
  rw [List.mem_map]
  constructor
  · rintro ⟨i, hi, rfl⟩
    rw [List.mem_range'_1] at hi
    rw [toNat_scanAddr gLocalIp (by omega)]
    omega
  · rintro ⟨hnet, hlow, hhigh⟩
    refine ⟨ip.toNat / 2 ^ 24, by rw [List.mem_range'_1]; omega, ?_⟩
    apply BitVec.eq_of_toNat_eq
    rw [toNat_scanAddr gLocalIp (by omega)]
    omega

theorem pairwise_scan (gLocalIp : BitVec 32) :
    ((List.range' 1 254).map (scanAddr gLocalIp)).Pairwise fun x y => x.toNat < y.toNat := by
  rw [List.pairwise_map]
  refine List.Pairwise.imp_of_mem ?_ List.pairwise_lt_range'
  intro i j hi hj hlt
  rw [List.mem_range'_1] at hi hj
  rw [toNat_scanAddr gLocalIp (by omega), toNat_scanAddr gLocalIp (by omega)]
  omega

/-- An object is stored while there is room. -/
theorem items_mpEnqueue_take {α : Type} (r : RteRing α) (x : α) (xs : List α) :
    (r.mpEnqueue x).1.items ++ xs.take (r.queue.capacity - (r.mpEnqueue x).1.items.length) =
      r.items ++ (x :: xs).take (r.queue.capacity - r.items.length) := by
  by_cases hroom : r.HasRoom
  · have hfree : r.items.length < r.queue.capacity := hroom
    obtain ⟨n, hn⟩ : ∃ n, r.queue.capacity - r.items.length = n + 1 :=
      ⟨r.queue.capacity - r.items.length - 1, by omega⟩
    have hrest : r.queue.capacity - (r.items ++ [x]).length = n := by
      rw [List.length_append, List.length_singleton]
      omega
    rw [(RteRing.mpEnqueue_of_hasRoom hroom).1, hrest, hn, List.take_succ_cons,
      List.append_assoc, List.singleton_append]
  · have hfull : r.queue.capacity - r.items.length = 0 := by
      have : ¬ r.items.length < r.queue.capacity := hroom
      omega
    rw [RteRing.mpEnqueue_of_full hroom, hfull, List.take_zero, List.take_zero]

/-- The loop puts its requests on the ring until this is full. -/
theorem scanLoop_ok {alloc : Nat → Bool} {msg : Nat → Ptr} {arpt : ArpTable}
    {gSrcMac : List Byte} {gLocalIp : BitVec 32} {n i : Nat} {out : RteRing Mbuf}
    (halloc : ∀ j, i ≤ j → j < i + n → alloc j = true) :
    ∃ out', scanLoop alloc msg arpt gSrcMac gLocalIp n i out = .ok out' ∧
      out'.items = out.items ++ ((List.range' i n).map fun j =>
        scanRequest (msg j) arpt gSrcMac gLocalIp j).take (out.queue.capacity -
          out.items.length) := by
  induction n generalizing i out with
  | zero => exact ⟨out, rfl, by simp⟩
  | succ n ih =>
      have hlater : ∀ j, i + 1 ≤ j → j < i + 1 + n → alloc j = true :=
        fun j hlow hhigh => halloc j (by omega) (by omega)
      obtain ⟨out', hloop, hitems⟩ := @ih (i + 1)
        (out.mpEnqueue (scanRequest (msg i) arpt gSrcMac gLocalIp i)).1 hlater
      refine ⟨out', ?_, ?_⟩
      · rw [scanLoop, if_neg (by rw [halloc i (Nat.le_refl i) (by omega)]; decide)]
        exact hloop
      · rw [hitems, RteRing.capacity_mpEnqueue, List.range'_succ, List.map_cons,
          items_mpEnqueue_take]

/-- What the table answers for an address is one of its hardware addresses. -/
theorem exists_of_ngGetDstMacaddr {arpt : ArpTable} {ip : BitVec 32} {mac : List Byte}
    (h : arpt.ngGetDstMacaddr ip = some mac) : ∃ e ∈ arpt.entries, e.hwaddr = mac := by
  unfold ArpTable.ngGetDstMacaddr at h
  generalize arpt.count = count at h
  generalize arpt.entries = entries at h
  induction entries generalizing count with
  | nil => cases count <;> cases h
  | cons e rest ih =>
      cases count with
      | zero => cases h
      | succ count =>
          rw [ArpTable.walk] at h
          split at h
          · exact ⟨e, List.mem_cons_self, Option.some.inj h⟩
          · obtain ⟨e', hmem, heq⟩ := ih count h
            exact ⟨e', List.mem_cons_of_mem _ hmem, heq⟩

/-- The fields of the request for a host number. -/
theorem arpFields_scanRequest {msg : Ptr} {arpt : ArpTable} {gSrcMac : List Byte}
    {gLocalIp : BitVec 32} {i : Nat} (hsrc : gSrcMac.length = etherAddrLen)
    (hmacs : ∀ e ∈ arpt.entries, e.hwaddr.length = etherAddrLen) :
    let mac := (arpt.ngGetDstMacaddr (scanAddr gLocalIp i)).getD gDefaultArpMac
    ArpFields (scanRequest msg arpt gSrcMac gLocalIp i) (arpDstAddr mac) gSrcMac
      RTE_ARP_OP_REQUEST gSrcMac gLocalIp mac (scanAddr gLocalIp i) := by
  unfold scanRequest
  cases hmac : arpt.ngGetDstMacaddr (scanAddr gLocalIp i) with
  | none => exact arpFields_ngSendArp _ _ _ _ _ _ hsrc rfl
  | some mac =>
      obtain ⟨e, hmem, rfl⟩ := exists_of_ngGetDstMacaddr hmac
      exact arpFields_ngSendArp _ _ _ _ _ _ hsrc (hmacs e hmem)

/-- A scan for which all buffers can be had asks about every host of the local
    network once, in order, itself among them, and puts the requests on the
    ring until this is full.  A request for an address that the table does not
    know goes to no station: its Ethernet destination is zero, and the
    broadcast address is in the place of the target's.  So does one for which
    the table holds the broadcast address. -/
theorem arp_scan (alloc : Nat → Bool) (msg : Nat → Ptr) (arpt : ArpTable) (gSrcMac : List Byte)
    (gLocalIp : BitVec 32) (out : RteRing Mbuf) (hsrc : gSrcMac.length = etherAddrLen)
    (hmacs : ∀ e ∈ arpt.entries, e.hwaddr.length = etherAddrLen)
    (halloc : ∀ i, 1 ≤ i → i ≤ 254 → alloc i = true) :
    (∃ out', arpRequestTimerCb alloc msg arpt gSrcMac gLocalIp out = .ok out' ∧
      out'.items = out.items ++ (scanRequests msg arpt gSrcMac gLocalIp).take
        (out.queue.capacity - out.items.length)) ∧
    ((scanRequests msg arpt gSrcMac gLocalIp).map fun m =>
      (ArpHdr.tip (m.data.offset 14)).toNat).Pairwise (· < ·) ∧
    (∀ ip, (∃ m ∈ scanRequests msg arpt gSrcMac gLocalIp, ArpHdr.tip (m.data.offset 14) = ip) ↔
      ip.toNat % 2 ^ 24 = gLocalIp.toNat % 2 ^ 24 ∧ 1 ≤ ip.toNat / 2 ^ 24 ∧
        ip.toNat / 2 ^ 24 ≤ 254) ∧
    ∀ m ∈ scanRequests msg arpt gSrcMac gLocalIp, ∃ ip,
      match arpt.ngGetDstMacaddr ip with
      | some mac => ArpFields m (arpDstAddr mac) gSrcMac RTE_ARP_OP_REQUEST gSrcMac gLocalIp mac ip
      | none => ArpFields m (List.replicate 6 0) gSrcMac RTE_ARP_OP_REQUEST gSrcMac gLocalIp
          (List.replicate 6 0xff) ip := by
  have hfields : ∀ i, ArpFields (scanRequest (msg i) arpt gSrcMac gLocalIp i) _ gSrcMac
      RTE_ARP_OP_REQUEST gSrcMac gLocalIp _ (scanAddr gLocalIp i) :=
    fun i => arpFields_scanRequest hsrc hmacs
  have hasked : ((scanRequests msg arpt gSrcMac gLocalIp).map fun m =>
      ArpHdr.tip (m.data.offset 14)) = (List.range' 1 254).map (scanAddr gLocalIp) := by
    rw [scanRequests, List.map_map]
    exact List.map_congr_left fun i _ => (hfields i).tip
  refine ⟨?_, ?_, ?_, ?_⟩
  · exact scanLoop_ok fun i hlow hhigh => halloc i hlow (by omega)
  · have hpairwise := pairwise_scan gLocalIp
    rw [← hasked] at hpairwise
    rw [List.pairwise_map] at hpairwise ⊢
    exact hpairwise
  · intro ip
    rw [← List.mem_map, hasked]
    exact mem_scan_iff
  · intro m hm
    obtain ⟨i, -, rfl⟩ := List.mem_map.mp hm
    refine ⟨scanAddr gLocalIp i, ?_⟩
    have hi := hfields i
    cases hmac : arpt.ngGetDstMacaddr (scanAddr gLocalIp i) with
    | none =>
        rw [hmac] at hi
        exact hi
    | some mac =>
        rw [hmac] at hi
        exact hi

/-- The table of a host that knows 192.168.0.1 alone. -/
def oneNeighbour : ArpTable := ⟨[⟨0x0100A8C0, [2, 0, 0, 0, 0, 7]⟩], 1⟩

/-- The host 192.168.0.119 with that table sends 254 requests; the one for its
    neighbour goes there, and the one for itself goes to no station. -/
theorem arp_scan_neighbour : ∃ out' : RteRing Mbuf,
    arpRequestTimerCb (fun _ => true) (fun _ _ => 0) oneNeighbour [2, 0, 0, 0, 0, 1] 0x7700A8C0
      (.init []) = .ok out' ∧ out'.items.length = 254 ∧
    (∃ m ∈ scanRequests (fun _ _ => 0) oneNeighbour [2, 0, 0, 0, 0, 1] 0x7700A8C0,
      ArpHdr.tip (m.data.offset 14) = 0x0100A8C0 ∧ EtherHdr.dAddr m.data = [2, 0, 0, 0, 0, 7]) ∧
    ∃ m ∈ scanRequests (fun _ _ => 0) oneNeighbour [2, 0, 0, 0, 0, 1] 0x7700A8C0,
      ArpHdr.tip (m.data.offset 14) = 0x7700A8C0 ∧
        EtherHdr.dAddr m.data = List.replicate 6 0 := by
  obtain ⟨⟨out', hok, hitems⟩, -, hasked, hsent⟩ := arp_scan (fun _ => true) (fun _ _ => 0)
    oneNeighbour [2, 0, 0, 0, 0, 1] 0x7700A8C0 (.init []) rfl (by decide) fun _ _ _ => rfl
  refine ⟨out', hok, ?_, ?_, ?_⟩
  · rw [hitems, List.length_append, List.length_take, scanRequests, List.length_map,
      List.length_range']
    rfl
  · obtain ⟨m, hm, htip⟩ := (hasked 0x0100A8C0).mpr (by decide)
    obtain ⟨ip, hfields⟩ := hsent m hm
    refine ⟨m, hm, htip, ?_⟩
    by_cases hip : ip = 0x0100A8C0
    · subst hip
      exact hfields.dAddr
    · rw [show oneNeighbour.ngGetDstMacaddr ip = none from if_neg hip] at hfields
      exact absurd (hfields.tip.symm.trans htip) hip
  · obtain ⟨m, hm, htip⟩ := (hasked 0x7700A8C0).mpr (by decide)
    obtain ⟨ip, hfields⟩ := hsent m hm
    refine ⟨m, hm, htip, ?_⟩
    by_cases hip : ip = 0x0100A8C0
    · subst hip
      exact absurd (hfields.tip.symm.trans htip) (by decide)
    · rw [show oneNeighbour.ngGetDstMacaddr ip = none from if_neg hip] at hfields
      exact hfields.dAddr

end LinuxLearning.Ustack
